import Accudisc.Err
import Accudisc.Mem

/-!
# The chunk ring (`accubuf.c`)

The bounded ring between the read engine and the sink, as a system of two threads. Every section
under the mutex is one step; the sink's call is not under it and ends in a step of its own. A wait on
a condition variable can end at any time, and then tests again.

`stamp` and `log` are not in the source: they record which push filled a slot, and what happened.
-/

namespace Accudisc

abbrev ADSC_ACCUBUF_MIN_SLOTS : Nat := 2
abbrev ADSC_ACCUBUF_MAX_SLOTS : Nat := 4096

/-- `accudisc_chunk`. -/
structure Chunk where
  lba : UInt32
  nsec : UInt32
  data : Nat
  sector_len : UInt32
  audio_len : UInt32
  c2_len : UInt32
  sub_len : UInt32

/-- A zeroed `accudisc_chunk`. -/
def Chunk.zero : Chunk := ⟨0, 0, 0, 0, 0, 0, 0⟩

/-- `struct adsc_accubuf`. -/
structure AccuBuf where
  /-- `slot[i].meta`. -/
  slot : Nat → Chunk
  /-- The payloads, that of slot `i` at `i * slot_bytes`. -/
  arena : Mem
  nslots : Nat
  slot_bytes : Nat
  thread_live : Bool
  head : Nat
  tail : Nat
  count : Nat
  producer_done : Bool
  sink_rc : Int
  peak_count : Nat
  stalls : Nat

/-- The ring with its thread started. -/
def AccuBuf.empty (nslots slot_bytes : Nat) : AccuBuf :=
  { slot := fun _ => .zero, arena := fun _ => 0, nslots, slot_bytes, thread_live := true, head := 0,
    tail := 0, count := 0, producer_done := false, sink_rc := 0, peak_count := 0, stalls := 0 }

/-- What `adsc_accubuf_start` does not decide: the two allocations, the mutex, the two conditions
and the thread. -/
structure AccuBufEnv where
  calloc : Bool
  malloc : Bool
  mutex_init : Bool
  cond_init : Bool × Bool
  pthread_create : Bool

/-- `want`, clamped. -/
def accubuf_slots (bytes slot_bytes : Nat) : Nat :=
  min (max (bytes / slot_bytes) ADSC_ACCUBUF_MIN_SLOTS) ADSC_ACCUBUF_MAX_SLOTS

def adsc_accubuf_start (env : AccuBufEnv) (ab bytes slot_bytes sink : Nat) : Except Int AccuBuf :=
  if ab = 0 ∨ sink = 0 ∨ slot_bytes = 0 then .error ACCUDISC_ERR_INVAL
  else if ¬(env.calloc ∧ env.malloc) then .error ACCUDISC_ERR_NOMEM
  else if ¬(env.mutex_init ∧ env.cond_init.1 ∧ env.cond_init.2 ∧ env.pthread_create) then
    .error ACCUDISC_ERR_NOMEM
  else .ok (.empty (accubuf_slots bytes slot_bytes) slot_bytes)

namespace AccuBuf

variable (ab : AccuBuf)

/-- `push` under the lock, from taking it to the wait (no code) or to the return. -/
def push_section (c : Chunk) (src : Mem) : AccuBuf × Option Int :=
  if ab.count = ab.nslots ∧ ab.sink_rc = 0 then
    ({ ab with stalls := (ab.stalls + 1) % 2 ^ 64 }, none)
  else if ab.sink_rc ≠ 0 then (ab, some ab.sink_rc)
  else
    ({ ab with
      arena := memcpy ab.arena (ab.head * ab.slot_bytes) src c.data
        (c.nsec.toNat * c.sector_len.toNat)
      slot := Function.update ab.slot ab.head { c with data := ab.head * ab.slot_bytes }
      head := (ab.head + 1) % 2 ^ 32 % ab.nslots
      count := (ab.count + 1) % 2 ^ 32
      peak_count := max ab.peak_count ((ab.count + 1) % 2 ^ 32) }, some 0)

/-- `stop` under the lock. -/
def stop_section (discard : Int) : AccuBuf :=
  if discard ≠ 0 then { ab with producer_done := true, count := 0, tail := ab.head }
  else { ab with producer_done := true }

inductive Take where
  | wait
  | exit
  | chunk (c : Chunk)

/-- `drain` under the lock, before the sink's call. -/
def take_section : Take :=
  if ab.count = 0 ∧ ab.producer_done = false then .wait
  else if ab.count = 0 then .exit
  else .chunk (ab.slot ab.tail)

/-- `drain` under the lock, after the sink returned `rc`. -/
def finish_section (rc : Int) : AccuBuf :=
  { ab with
    tail := (ab.tail + 1) % 2 ^ 32 % ab.nslots
    count := (ab.count + (2 ^ 32 - 1)) % 2 ^ 32
    sink_rc := if rc ≠ 0 ∧ ab.sink_rc = 0 then rc else ab.sink_rc }

end AccuBuf

/-! ## The two threads -/

/-- Where the producer is: between calls, waiting in `push`, joining in `stop`, or stopped. -/
inductive RingProducer where
  | idle
  | pushing (c : Chunk) (src : Mem)
  | joining
  | stopped

/-- Where `drain` is. -/
inductive RingConsumer where
  | top
  | calling (c : Chunk)
  | returned (rc : Int)
  | exited

/-- `drain` has taken a slot and not accounted for it. -/
def RingConsumer.inFlight : RingConsumer → Bool
  | calling _ | returned _ => true
  | top | exited => false

inductive RingEvent where
  /-- A push stored the chunk at `c.data` of `src`. -/
  | pushed (c : Chunk) (src : Mem)
  /-- A push returned a code other than 0. -/
  | refused (rc : Int)
  /-- The locked section of a discarding stop. -/
  | discard
  /-- The sink is called with `c`, in a slot filled by push `stamp`, over memory `arena`. -/
  | call (stamp : Option Nat) (c : Chunk) (arena : Mem)
  /-- The sink returned. -/
  | ret (rc : Int)
  /-- `stop` returned. -/
  | stopped (rc : Int)

/-- The pushes that stored a chunk, the last first. -/
def pushes : List RingEvent → List (Chunk × Mem) :=
  List.filterMap fun
    | .pushed c src => some (c, src)
    | _ => none

/-- The calls of the sink, by the push that filled the slot, the last first. -/
def handed : List RingEvent → List (Option Nat) :=
  List.filterMap fun
    | .call stamp _ _ => some stamp
    | _ => none

structure AccuBufSys where
  ab : AccuBuf
  producer : RingProducer
  consumer : RingConsumer
  stamp : Nat → Option Nat
  /-- The last event first. -/
  log : List RingEvent

/-- After `adsc_accubuf_start`. -/
def AccuBufSys.init (ab : AccuBuf) : AccuBufSys :=
  { ab, producer := .idle, consumer := .top, stamp := fun _ => none, log := [] }

inductive RingAction where
  | push (c : Chunk) (src : Mem)
  | push_wake
  | stop (discard : Int)
  | join
  | drain
  | sink_return (rc : Int)
  | drain_finish

namespace AccuBufSys

variable (s : AccuBufSys)

/-- Log an event. -/
def emit (e : RingEvent) : AccuBufSys := { s with log := e :: s.log }

/-- The producer's section of `push`. -/
def push_step (c : Chunk) (src : Mem) : AccuBufSys :=
  match s.ab.push_section c src with
  | (ab, none) => { s with ab, producer := .pushing c src }
  | (ab, some rc) =>
    if rc ≠ 0 then { s with ab, producer := .idle, log := .refused rc :: s.log }
    else { s with
      ab, producer := .idle
      stamp := Function.update s.stamp s.ab.head (some (pushes s.log).length)
      log := .pushed c src :: s.log }

/-- The consumer's section before a call. -/
def drain_step : AccuBufSys :=
  match s.ab.take_section with
  | .wait => s
  | .exit => { s with consumer := .exited }
  | .chunk c =>
    { s with consumer := .calling c, log := .call (s.stamp s.ab.tail) c s.ab.arena :: s.log }

/-- One step of either thread, where it is enabled. -/
def step : RingAction → Option AccuBufSys
  | .push c src =>
    match s.producer with
    | .idle =>
      if c.nsec.toNat * c.sector_len.toNat > s.ab.slot_bytes then
        some (s.emit (.refused ACCUDISC_ERR_INVAL))
      else some (s.push_step c src)
    | _ => none
  | .push_wake =>
    match s.producer with
    | .pushing c src => some (s.push_step c src)
    | _ => none
  | .stop discard =>
    match s.producer with
    | .idle =>
      some { s with
        ab := s.ab.stop_section discard
        producer := .joining
        log := if discard ≠ 0 then .discard :: s.log else s.log }
    | .stopped => some (s.emit (.stopped 0))
    | _ => none
  | .join =>
    match s.producer, s.consumer with
    | .joining, .exited =>
      some ({ s with ab := { s.ab with thread_live := false }, producer := .stopped }.emit
        (.stopped s.ab.sink_rc))
    | _, _ => none
  | .drain =>
    match s.consumer with
    | .top => some s.drain_step
    | _ => none
  | .sink_return rc =>
    match s.consumer with
    | .calling _ => some ({ s with consumer := .returned rc }.emit (.ret rc))
    | _ => none
  | .drain_finish =>
    match s.consumer with
    | .returned rc =>
      some { s with
        ab := s.ab.finish_section rc
        consumer := if rc ≠ 0 then .exited else .top }
    | _ => none

end AccuBufSys

end Accudisc
