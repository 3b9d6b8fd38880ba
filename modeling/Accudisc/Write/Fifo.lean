import Accudisc.Lib.Lts
import Accudisc.Read.Sector

/-!
# The write FIFO (`fifo.c`) and the payload of a burn (`burn.c`)

The producer thread and the consumer of the ring take turns in any order: the sections under the
mutex are single steps, and so are the read and the swap that the producer makes outside it. The
unbuffered path of the payload loop is a plain recursion.
-/

namespace Accudisc

def SECTOR : Nat := 2352
def CHUNK : Nat := 27

def ADSC_WFIFO_MIN_SLOTS : Nat := 2
def ADSC_WFIFO_MAX_SLOTS : Nat := 65536

/-- One turn of `byteswap16`: the bytes at `2 k` and `2 k + 1` trade places. -/
def swap_sample (p : Mem) (k : Nat) : Mem :=
  Function.update (Function.update p (2 * k) (p (2 * k + 1))) (2 * k + 1) (p (2 * k))

/-- Swap every 16-bit sample. -/
def byteswap16 (p : Mem) (bytes : Nat) : Mem := (List.range (bytes / 2)).foldl swap_sample p

/-- `adsc_wfifo_seg`: a run of sectors of the file. -/
structure WfifoSeg where
  file_offset : Nat
  sectors : Nat

/-- The source file, and which reads of it succeed. -/
structure BinFile where
  bytes : Mem
  readable : Nat → Nat → Bool

/-- What is written at one go: a place in the file and a number of sectors. -/
structure BinChunk where
  off : Nat
  n : Nat
deriving DecidableEq

/-! ## The ring -/

inductive WfifoProducer where
  | idle
  | filling (slot : Nat)
  | swapping (slot n : Nat)
  | publishing (n : Nat)
  | finishing (rc : Int)
  | exited

inductive WfifoConsumer where
  | idle
  | waiting
  | holding (slot n : Nat)
  | written
  | ended (rc : Int)
  | stopped

/-- `adsc_wfifo` with its two threads; slot `i` of the arena is the `i`-th block of `slot_bytes`.
`todo` and `done_in_seg` are the producer's place in the segments, and `log` is what the consumer
wrote, latest first. -/
structure Wfifo where
  nslots : Nat
  byteswap : Bool
  file : BinFile
  arena : Nat → Mem
  slot_nsec : Nat → Nat
  head : Nat
  tail : Nat
  count : Nat
  cancelled : Bool
  producer_done : Bool
  producer_rc : Int
  starved : Nat
  todo : List WfifoSeg
  done_in_seg : Nat
  producer : WfifoProducer
  consumer : WfifoConsumer
  log : List (Nat × List (BitVec 8))

/-- `adsc_wfifo_start` with chunks of `CHUNK` sectors. -/
def adsc_wfifo_start (bytes : Nat) (file : BinFile) (seg : List WfifoSeg) (byteswap : Bool) :
    Except Int Wfifo :=
  if seg = [] then .error ACCUDISC_ERR_INVAL
  else .ok
  { nslots := min (max (bytes / (CHUNK * SECTOR)) ADSC_WFIFO_MIN_SLOTS) ADSC_WFIFO_MAX_SLOTS
    byteswap := byteswap, file := file, arena := fun _ _ => 0, slot_nsec := fun _ => 0
    head := 0, tail := 0, count := 0, cancelled := false, producer_done := false, producer_rc := 0
    starved := 0, todo := seg, done_in_seg := 0, producer := .idle, consumer := .idle, log := [] }

/-- Go to the next segment with data left. -/
def advance : List WfifoSeg → Nat → List WfifoSeg × Nat
  | [], d => ([], d)
  | s :: ss, d => if s.sectors ≤ d then advance ss 0 else (s :: ss, d)

inductive WfifoAction where
  | acquire | fill | swap | publish | finish
  | pop | wake | write | release | stop (discard : Bool)

namespace Wfifo

/-- `pread` into a slot, after the walk to the next segment with data. -/
def fill_step (f : Wfifo) (slot : Nat) : Wfifo :=
  match advance f.todo f.done_in_seg with
  | ([], d) => { f with todo := [], done_in_seg := d, producer := .finishing 0 }
  | (s :: ss, d) =>
    let n := min (s.sectors - d) CHUNK
    let off := s.file_offset + d * SECTOR
    if f.file.readable off (n * SECTOR) then
      { f with
        todo := s :: ss
        done_in_seg := d
        arena := Function.update f.arena slot (memcpy (f.arena slot) 0 f.file.bytes off (n * SECTOR))
        producer := .swapping slot n }
    else { f with todo := s :: ss, done_in_seg := d, producer := .finishing ACCUDISC_ERR_IO }

/-- The section of `adsc_wfifo_pop`, at its start or after a wait. -/
def pop_section (f : Wfifo) : Wfifo :=
  if f.count = 0 ∧ f.producer_done = false then
    match f.consumer with
    | .waiting => f
    | _ => { f with starved := f.starved + 1, consumer := .waiting }
  else if f.count = 0 then { f with consumer := .ended f.producer_rc }
  else { f with consumer := .holding f.tail (f.slot_nsec f.tail) }

/-- One step of one thread. -/
def step (f : Wfifo) : WfifoAction → Option Wfifo
  | .acquire =>
    match f.producer with
    | .idle =>
      if f.cancelled then some { f with producer := .exited }
      else if f.count = f.nslots then some f
      else some { f with producer := .filling f.head }
    | _ => none
  | .fill =>
    match f.producer with
    | .filling slot => some (f.fill_step slot)
    | _ => none
  | .swap =>
    match f.producer with
    | .swapping slot n =>
      some { f with
        arena :=
          if f.byteswap then Function.update f.arena slot (byteswap16 (f.arena slot) (n * SECTOR))
            else f.arena
        done_in_seg := f.done_in_seg + n
        producer := .publishing n }
    | _ => none
  | .publish =>
    match f.producer with
    | .publishing n =>
      some { f with
        slot_nsec := Function.update f.slot_nsec f.head n
        head := (f.head + 1) % f.nslots
        count := f.count + 1
        producer := .idle }
    | _ => none
  | .finish =>
    match f.producer with
    | .finishing rc =>
      some { f with
        producer_rc := if f.producer_rc = 0 then rc else f.producer_rc
        producer_done := true
        producer := .exited }
    | _ => none
  | .pop =>
    match f.consumer with
    | .idle => some f.pop_section
    | _ => none
  | .wake =>
    match f.consumer with
    | .waiting => some f.pop_section
    | _ => none
  | .write =>
    match f.consumer with
    | .holding slot n =>
      some { f with
        consumer := .written
        log := (n, (List.range (n * SECTOR)).map (f.arena slot)) :: f.log }
    | _ => none
  | .release =>
    match f.consumer with
    | .written => some { f with tail := (f.tail + 1) % f.nslots, count := f.count - 1, consumer := .idle }
    | _ => none
  | .stop discard =>
    match f.consumer with
    | .waiting => none
    | .stopped => none
    | _ => some { f with cancelled := f.cancelled || discard, consumer := .stopped }

end Wfifo

/-! ## The unbuffered path -/

/-- The place of a sector in the file, and the sectors left of its track, at most `n`. -/
def find_track : List WfifoSeg → Nat → Nat → Nat → BinChunk
  | [], _, _, n => ⟨0, n⟩
  | t :: ts, acc, done_sec, n =>
    if done_sec < u32 (acc + t.sectors) then
      ⟨t.file_offset + (done_sec - acc) * SECTOR, min n (u32 (acc + t.sectors) - done_sec)⟩
    else find_track ts (u32 (acc + t.sectors)) done_sec n

/-- The chunks of the payload loop from `done_sec` on, for at most `fuel` turns, and what is read and
swapped for each; a read that fails ends the burn. -/
def payload_chunks (file : BinFile) (byteswap : Bool) (tracks : List WfifoSeg) (total : Nat) :
    Nat → Nat → Option (Except Int (List (Nat × List (BitVec 8))))
  | 0, _ => none
  | fuel + 1, done_sec =>
    if total ≤ done_sec then some (.ok [])
    else
      let c := find_track tracks 0 done_sec (min (total - done_sec) CHUNK)
      if file.readable c.off (c.n * SECTOR) then
        let chunk := memcpy (fun _ => 0) 0 file.bytes c.off (c.n * SECTOR)
        let src := if byteswap then byteswap16 chunk (c.n * SECTOR) else chunk
        (payload_chunks file byteswap tracks total fuel (u32 (done_sec + c.n))).map fun rest =>
          rest.map ((c.n, (List.range (c.n * SECTOR)).map src) :: ·)
      else some (.error ACCUDISC_ERR_IO)

/-- The WRITE(10) commands of the chunks: LBA, block count and data, from LBA 0. -/
def write_cmds (chunks : List (Nat × List (BitVec 8))) : List (Int × Nat × List (BitVec 8)) :=
  (chunks.foldl (fun (st : Int × List (Int × Nat × List (BitVec 8))) c =>
    (st.1 + c.1, st.2 ++ [(st.1, c.1, c.2)])) (0, [])).2

end Accudisc
