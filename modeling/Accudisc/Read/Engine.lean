import Accudisc.Read.AccuBuf
import Accudisc.Read.Sector

/-!
# The read engine's state and its reads (`engine.c`)

The request, what the call finds outside itself (`ReadEnv`: the drive's answers in order, the sink's
returns, the allocations), and the functions that issue READ CD, up to one witnessed pass. Buffers are
bytes, record `s` at `s * sector_len`. Counters are unbounded; none comes near its C type.

`log` is not in the source: it records the transfers with the part of the engine that asked for them,
the start and the verdict of a settlement, the stores to the maps and what is delivered.
-/

namespace Accudisc

abbrev ADSC_MAX_XFER : Nat := 65535
abbrev ADSC_DEFAULT_RETRIES : Nat := 2
abbrev ADSC_FLUSH_DISTANCE : Nat := 5000
abbrev ADSC_CHUNK_MAX : Nat := 32
abbrev ADSC_OVERLAP_MAX : Nat := 8
abbrev ADSC_QPOS_MARGIN : Nat := 4
abbrev ADSC_SAMPLES_MAX : Nat := 6
abbrev ADSC_ANCHOR_READS : Nat := 4
abbrev ADSC_ANCHOR_SPAN : Nat := 3
abbrev ADSC_ABI_GROWTH_MAX : Nat := 256

abbrev ACCUDISC_C2_NONE : Nat := 0
abbrev ACCUDISC_C2_PTRS : Nat := 1
abbrev ACCUDISC_C2_PTRS_BEB : Nat := 2
abbrev ACCUDISC_SUB_NONE : Nat := 0
abbrev ACCUDISC_SUB_RAW : Nat := 1
abbrev ACCUDISC_SUB_Q : Nat := 2
abbrev ACCUDISC_BUFFER_NONE : Nat := 0xFFFFFFFF

/-! ## The request -/

/-- `accudisc_read_req`; a pointer is its address, and `tail` the bytes past our struct that a longer
one has. -/
structure ReadReq where
  size : UInt32
  lba : UInt32
  count : UInt32
  c2 : UInt8
  sub : UInt8
  any_type : UInt8
  retries : UInt8
  chunk_sectors : UInt16
  speed_x : UInt16
  c2_retries : UInt8
  verify_passes : UInt8
  overlap_sectors : UInt8
  speed_ladder : UInt64
  ladder_len : UInt8
  status_map : UInt64
  cancel : UInt64
  subq_map : UInt64
  buffer_bytes : UInt32
  c2_witness : UInt8
  tail : List UInt8

/-- `sizeof(accudisc_read_req)`. -/
abbrev sizeof_read_req : Nat := 80

/-- `sizeof(accudisc_read_stats)`. -/
abbrev sizeof_read_stats : Nat := 160

/-- The field of `width` bytes at `off` of a little-endian struct whose bytes from `size` on are 0. -/
def zero_extend (size off width v : Nat) : Nat :=
  if off + width ≤ size then v else if size ≤ off then 0 else v % 2 ^ (8 * (size - off))

/-- `adsc_abi_import` of a request. -/
def read_req_import (q : ReadReq) : Except Int ReadReq :=
  let size := q.size.toNat
  if size < 4 then .error ACCUDISC_ERR_ABI
  else if size > sizeof_read_req + ADSC_ABI_GROWTH_MAX then .error ACCUDISC_ERR_ABI
  else if size > sizeof_read_req ∧ (q.tail.take (size - sizeof_read_req)).any (· != 0) then
    .error ACCUDISC_ERR_ABI
  else .ok {
    size := .ofNat sizeof_read_req
    lba := .ofNat (zero_extend size 4 4 q.lba.toNat)
    count := .ofNat (zero_extend size 8 4 q.count.toNat)
    c2 := .ofNat (zero_extend size 12 1 q.c2.toNat)
    sub := .ofNat (zero_extend size 13 1 q.sub.toNat)
    any_type := .ofNat (zero_extend size 14 1 q.any_type.toNat)
    retries := .ofNat (zero_extend size 15 1 q.retries.toNat)
    chunk_sectors := .ofNat (zero_extend size 16 2 q.chunk_sectors.toNat)
    speed_x := .ofNat (zero_extend size 18 2 q.speed_x.toNat)
    c2_retries := .ofNat (zero_extend size 20 1 q.c2_retries.toNat)
    verify_passes := .ofNat (zero_extend size 21 1 q.verify_passes.toNat)
    overlap_sectors := .ofNat (zero_extend size 22 1 q.overlap_sectors.toNat)
    speed_ladder := .ofNat (zero_extend size 24 8 q.speed_ladder.toNat)
    ladder_len := .ofNat (zero_extend size 32 1 q.ladder_len.toNat)
    status_map := .ofNat (zero_extend size 40 8 q.status_map.toNat)
    cancel := .ofNat (zero_extend size 48 8 q.cancel.toNat)
    subq_map := .ofNat (zero_extend size 56 8 q.subq_map.toNat)
    buffer_bytes := .ofNat (zero_extend size 64 4 q.buffer_bytes.toNat)
    c2_witness := .ofNat (zero_extend size 72 1 q.c2_witness.toNat)
    tail := [] }

/-- `adsc_abi_export` of the stats: how many of their bytes are the caller's. -/
def read_stats_export (want : Nat) : Except Int Nat :=
  if want < 4 then .error ACCUDISC_ERR_ABI
  else if want > sizeof_read_stats then .error ACCUDISC_ERR_ABI
  else .ok want

def adsc_read_cd_sector_len (c2 sub : Nat) : Nat :=
  ACCUDISC_BYTES_AUDIO +
    (if c2 = ACCUDISC_C2_PTRS then ACCUDISC_BYTES_C2
      else if c2 = ACCUDISC_C2_PTRS_BEB then ACCUDISC_BYTES_C2_BEB else 0) +
    (if sub = ACCUDISC_SUB_RAW then ACCUDISC_BYTES_SUB_RAW
      else if sub = ACCUDISC_SUB_Q then ACCUDISC_BYTES_SUB_Q else 0)

/-- The checks after the import, in order. -/
def read_validate (dev : Nat) (q : ReadReq) : Except Int Unit :=
  if dev = 0 ∨ q.count = 0 then .error ACCUDISC_ERR_INVAL
  else if q.c2.toNat > ACCUDISC_C2_PTRS_BEB ∨ q.sub.toNat > ACCUDISC_SUB_Q then
    .error ACCUDISC_ERR_INVAL
  else if q.subq_map ≠ 0 ∧ q.sub.toNat ≠ ACCUDISC_SUB_RAW then .error ACCUDISC_ERR_INVAL
  else if q.c2_retries ≠ 0 ∧ q.verify_passes.toNat < 2 then .error ACCUDISC_ERR_INVAL
  else if q.c2_witness ≠ 0 ∧ q.c2.toNat = ACCUDISC_C2_NONE then .error ACCUDISC_ERR_INVAL
  else .ok ()

/-! ## Outside the call -/

/-- `dev->last_sense`. -/
structure Sense where
  valid : Bool
  key : Nat
  asc : Nat

/-- What `adsc_mmc_read_cd` returns, what it leaves in the buffer, good or not, and the sense. -/
structure Reply where
  rc : Int
  data : Mem
  sense : Sense

/-- The allocations. -/
inductive Alloc where
  | buf (slot : Nat)
  | prim (slot : Nat)
  | buf2
  | prev_ext
  | flush
  | scratch
  | samples
  | context
  | anchored
deriving DecidableEq

structure ReadEnv where
  /-- The answer to the `i`-th READ CD. -/
  drive : Nat → Reply
  /-- The memory `malloc` returns, with what is in it. -/
  malloc : Alloc → Option Mem
  /-- `req->speed_ladder[i]`. -/
  ladder : Nat → Nat
  /-- `*req->cancel` after `i` reads. -/
  cancel : Nat → Bool
  /-- What the `i`-th delivery returns: the sink, or `adsc_accubuf_push`. -/
  sink : Nat → Int
  /-- The caller's maps before the call. -/
  status_map : Mem
  subq_map : Mem
  /-- `accudisc_set_speed` at the pass speed, and `accudisc_get_speed` with the speed in kB/s. -/
  set_speed : Int
  get_speed : Int × Nat
  /-- `accudisc_fifo_bytes_for` the default seconds at a speed. -/
  fifo_bytes_for : Nat → Nat
  accubuf_start : Int
  accubuf_stop : Int
  peak_count : Nat
  stalls : Nat

/-! ## The log -/

/-- The comparison that a settlement or a second transfer serves. -/
inductive Pass where
  | seam
  | verify (pass : Nat)
  | widen
deriving DecidableEq

/-- The part of the engine that asks for a transfer. -/
inductive Stage where
  | flush
  | stream
  | qpos
  | c2
  | witness (p : Pass)
  | consensus (p : Pass)
  | anchor (p : Pass)
deriving DecidableEq

structure Transfer where
  stage : Stage
  lba : Nat
  nsec : Nat
  sector_len : Nat
  rc : Int
  data : Mem

inductive ReadEvent where
  | transfer (t : Transfer)
  /-- `consensus` begins, with these copies. -/
  | dispute (p : Pass) (lba : Nat) (sec : Mem) (alt : Option Mem)
  /-- A reread replaces the sector. -/
  | accept (stage : Stage) (lba : Nat) (sec : Mem)
  | status (idx : Nat) (v : BitVec 8)
  | subq (idx : Nat) (v : BitVec 8)
  /-- A sector is published, with its status. -/
  | publish (lba : Nat) (status : BitVec 8) (sec : Mem)
  /-- A chunk is handed to the sink. -/
  | sink (c : Chunk) (data : Mem)

/-! ## The engine's state -/

/-- `accudisc_read_stats`. -/
structure Stats where
  size : Nat := 0
  sectors_read : Nat := 0
  sectors_flagged : Nat := 0
  c2_bits : Nat := 0
  hard_errors : Nat := 0
  max_bits_sector : Nat := 0
  first_flagged_lba : Int := -1
  last_flagged_lba : Int := -1
  sense_medium : Nat := 0
  sense_hardware : Nat := 0
  sense_other : Nat := 0
  rereads : Nat := 0
  sectors_recovered : Nat := 0
  sectors_suspect : Nat := 0
  slips : Nat := 0
  subq_total : Nat := 0
  subq_ok : Nat := 0
  speed_requested_x : Nat := 0
  speed_honoured_x : Nat := 0
  subq_misposition : Nat := 0
  buffer_peak_chunks : Nat := 0
  buffer_stalls : Nat := 0

/-- What stays fixed for a call: `struct rd`'s constants and the locals of the call, with what they
always satisfy. -/
structure Cfg where
  env : ReadEnv
  req : ReadReq
  sector_len : Nat
  audio_len : Nat
  c2_len : Nat
  sub_len : Nat
  retries : Nat
  overlap : Nat
  chunk : Nat
  passes : Nat
  audio_eq : audio_len = ACCUDISC_BYTES_AUDIO
  /-- A record is AUDIO, C2, SUB. -/
  layout : sector_len = audio_len + c2_len + sub_len
  chunk_pos : 0 < chunk

/-- What changes: the rest of `struct rd`, the device's sense, and the caller's maps. -/
structure Rd where
  /-- READ CD commands issued. -/
  cmds : Nat
  sense : Sense
  speed_dirty : Bool
  cur_speed : Int
  flush : Mem
  scratch : Mem
  samples : Mem
  context : Mem
  anchored : Mem
  buf2 : Mem
  st : Stats
  status_map : Mem
  subq_map : Mem
  /-- Chunks handed over. -/
  sinks : Nat
  /-- The last event last. -/
  log : List ReadEvent

/-- Record `s` of a buffer. -/
def record (L : Nat) (buf : Mem) (s : Nat) : Mem := fun i => if i < L then buf (s * L + i) else 0

namespace Rd

variable (r : Rd)

def emit (e : ReadEvent) : Rd := { r with log := r.log ++ [e] }

/-- `r->st.rereads++`. -/
def reread : Rd := { r with st := { r.st with rereads := r.st.rereads + 1 } }

/-- `r->st.slips++`. -/
def slip : Rd := { r with st := { r.st with slips := r.st.slips + 1 } }

end Rd

section
variable (c : Cfg) (r : Rd)

def count_sense : Rd :=
  { r with st :=
      if r.sense.valid ∧ r.sense.key = 0x3 then { r.st with sense_medium := r.st.sense_medium + 1 }
      else if r.sense.valid ∧ r.sense.key = 0x4 then
        { r.st with sense_hardware := r.st.sense_hardware + 1 }
      else { r.st with sense_other := r.st.sense_other + 1 } }

/-- Sets a speed; the drive's answer is not looked at. -/
def set_speed_once (speed : Nat) : Rd :=
  if (speed : Int) = r.cur_speed then r else { r with cur_speed := speed }

def ladder_speed (attempt : Nat) : Rd :=
  if c.req.ladder_len = 0 ∨ c.req.speed_ladder = 0 then r
  else
    let idx := if attempt - 1 ≥ c.req.ladder_len.toNat then c.req.ladder_len.toNat - 1 else attempt - 1
    { set_speed_once r (c.env.ladder idx) with speed_dirty := true }

def ladder_restore : Rd :=
  if !r.speed_dirty then r
  else { set_speed_once r c.req.speed_x.toNat with speed_dirty := false }

/-! ## Reads -/

structure Xfer where
  r : Rd
  rc : Int
  buf : Mem

/-- `adsc_mmc_read_cd` into `off` of a buffer. -/
def read_cd (stage : Stage) (lba nsec sector_len : Nat) (buf : Mem) (off : Nat) : Xfer :=
  let reply := c.env.drive r.cmds
  { r := { r with
      cmds := r.cmds + 1
      sense := reply.sense
      log := r.log ++ [.transfer ⟨stage, lba, nsec, sector_len, reply.rc, reply.data⟩] }
    rc := reply.rc
    buf := memcpy buf off reply.data 0 (nsec * sector_len) }

def cache_defeat (cur : Nat) : Rd :=
  let away := if cur ≥ u32 (c.req.lba.toNat + ADSC_FLUSH_DISTANCE) then sub32 cur ADSC_FLUSH_DISTANCE
    else u32 (cur + ADSC_FLUSH_DISTANCE)
  let x := read_cd c r .flush away 1 ACCUDISC_BYTES_AUDIO r.flush 0
  { x.r with flush := x.buf }

def read_sector (stage : Stage) (lba : Nat) (dst : Mem) (off : Nat) : Xfer :=
  read_cd c r stage lba 1 c.sector_len dst off

def sense_is_categorical : Bool := r.sense.valid && r.sense.key == 0x5 && r.sense.asc == 0x64

/-- A reread of one sector into `r->scratch`. -/
def read_scratch (stage : Stage) (lba : Nat) : Rd × Int :=
  let x := read_sector c r stage lba r.scratch 0
  ({ x.r with scratch := x.buf }, x.rc)

/-- A read of a sector with its neighbours into `r->context`. -/
def read_context (stage : Stage) (w0 : Nat) : Rd × Int :=
  let x := read_cd c r stage w0 ADSC_ANCHOR_SPAN c.sector_len r.context 0
  ({ x.r with context := x.buf }, x.rc)

end

/-- The attempts at one sector of a span; `src` is the last answer. -/
def read_attempts (c : Cfg) (stage : Stage) (cur off : Nat) : List Nat → Rd → Mem → Int → Xfer
  | [], r, buf, src => ⟨r, src, buf⟩
  | attempt :: as, r, buf, _ =>
    let x := read_sector c (if attempt > 0 then cache_defeat c r cur else r) stage cur buf off
    if x.rc = ACCUDISC_OK then x
    else if sense_is_categorical x.r then x
    else read_attempts c stage cur off as x.r x.buf x.rc

structure Span where
  r : Rd
  buf : Mem
  hard : Nat → Bool

/-- A hard-unreadable sector: PCM 0, C2 all-ones, SUB 0. -/
def zero_fill (c : Cfg) (buf : Mem) (off : Nat) : Mem :=
  let buf := memset (memset buf off 0 c.audio_len) (off + c.audio_len) 0xff c.c2_len
  if c.sub_len ≠ 0 then memset buf (off + c.audio_len + c.c2_len) 0 c.sub_len else buf

/-- Sector `s` of the per-sector fallback. -/
def span_sector (c : Cfg) (stage : Stage) (lba primary_n : Nat) (sp : Span) (s : Nat) : Span :=
  let off := s * c.sector_len
  let x := read_attempts c stage (u32 (lba + s)) off (List.range c.retries) sp.r sp.buf (-1)
  if x.rc = ACCUDISC_OK then { sp with r := x.r, buf := x.buf }
  else if s < primary_n then
    { r := count_sense { x.r with st := { x.r.st with hard_errors := x.r.st.hard_errors + 1 } }
      buf := zero_fill c x.buf off
      hard := Function.update sp.hard s true }
  else { r := x.r, buf := x.buf, hard := Function.update sp.hard s true }

def read_span (c : Cfg) (r : Rd) (stage : Stage) (lba total : Nat) (buf : Mem) (primary_n : Nat) :
    Span :=
  let x := read_cd c r stage lba total c.sector_len buf 0
  let sp : Span := ⟨x.r, x.buf, fun _ => false⟩
  if x.rc = ACCUDISC_OK then sp
  else (List.range total).foldl (span_sector c stage lba primary_n) sp

/-! ## Settling one sector -/

/-- What settling the sector at `off` of a buffer comes to. -/
structure Settled where
  r : Rd
  buf : Mem
  used : Nat
  ok : Bool

/-- The Q frame of the record at `off`. -/
def record_q (c : Cfg) (buf : Mem) (off : Nat) : AccuQ := sub_q (ptr buf (off + c.audio_len + c.c2_len))

/-- A CRC-valid position frame that names another LBA. -/
def misplaced (q : AccuQ) (lba : Nat) : Bool :=
  q.crc_ok && q.adr == ACCUDISC_Q_POSITION && adsc_q_position_lba q != int32 lba

def qpos_loop (c : Cfg) (lba off : Nat) : List Nat → Rd → Mem → Nat → Settled
  | [], r, buf, used => ⟨r, buf, used, false⟩
  | a :: as, r, buf, used =>
    let (r, rc) := read_scratch c (cache_defeat c (ladder_speed c r a) lba) .qpos lba
    if rc ≠ ACCUDISC_OK then qpos_loop c lba off as r buf used
    else
      let qd := record_q c r.scratch 0
      if !qd.crc_ok ∨ qd.adr ≠ ACCUDISC_Q_POSITION then qpos_loop c lba off as r.reread buf a
      else if adsc_q_position_lba qd ≠ int32 lba then qpos_loop c lba off as r.reread buf a
      else
        ⟨r.reread.emit (.accept .qpos lba (record c.sector_len r.scratch 0)),
          memcpy buf off r.scratch 0 c.sector_len, a, true⟩

def qpos_rescue (c : Cfg) (r : Rd) (lba : Nat) (buf : Mem) (off : Nat) : Settled :=
  qpos_loop c lba off (List.range' 1 (ADSC_SAMPLES_MAX - 2)) r buf 0

/-- `struct adsc_ref`. -/
structure Ref where
  lba : Nat
  n : Nat
  data : Option Mem
  hard : Nat → Bool

/-- Does the copy of sector `m` in a reference match record `k` of a context read? -/
def ref_match (c : Cfg) (ctx : Mem) (k m : Nat) (ref : Ref) : Bool :=
  match ref.data with
  | none => false
  | some data =>
    if m < ref.lba ∨ m - ref.lba ≥ ref.n ∨ ref.hard (m - ref.lba) then false
    else
      let rs := ptr data ((m - ref.lba) * c.sector_len)
      adsc_audio_diff (ptr ctx (k * c.sector_len)) rs == 0 && alignment_signal rs

def corroborated (c : Cfg) (ctx : Mem) (w0 target : Nat) (refs : List Ref) : Bool :=
  (List.range ADSC_ANCHOR_SPAN).any fun k =>
    let m := u32 (w0 + k)
    m != target && refs.any (ref_match c ctx k m)

/-- `start[i]`. -/
def context_start (i : Nat) : Int := if i = 0 then -1 else if i = 1 then -2 else 0

def anchor_loop (c : Cfg) (p : Pass) (lba off : Nat) (refs : List Ref) :
    List Nat → Rd → Mem → Nat → Nat → Settled
  | [], r, buf, _, used => ⟨r, buf, used, false⟩
  | a :: as, r, buf, agree, used =>
    let w : Int := lba + context_start (a % 3)
    if w < 0 then anchor_loop c p lba off refs as r buf agree used
    else
      let w0 := u32 w.toNat
      let (r, rc) := read_context c (cache_defeat c r lba) (.anchor p) w0
      if rc ≠ ACCUDISC_OK then anchor_loop c p lba off refs as r buf agree used
      else if !corroborated c r.context w0 lba refs then
        anchor_loop c p lba off refs as r.reread buf agree (used + 1)
      else
        let x := sub32 lba w0 * c.sector_len
        if agree = 0 then
          anchor_loop c p lba off refs as
            { r.reread with anchored := memcpy r.anchored 0 r.context x c.sector_len } buf 1 (used + 1)
        else if adsc_audio_diff r.anchored (ptr r.context x) = 0 then
          ⟨r.reread.emit (.accept (.anchor p) lba (record c.sector_len r.anchored 0)),
            memcpy buf off r.anchored 0 c.sector_len, used + 1, true⟩
        else ⟨r.reread, buf, used + 1, false⟩

def anchor_position (c : Cfg) (p : Pass) (r : Rd) (lba : Nat) (buf : Mem) (off : Nat)
    (refs : List Ref) (used : Nat) : Settled :=
  anchor_loop c p lba off refs (List.range ADSC_ANCHOR_READS) r buf 0 used

/-- The C2 bits of the record at `off`. -/
def record_bits (c : Cfg) (buf : Mem) (off : Nat) : Nat :=
  popcount_buf (ptr buf (off + c.audio_len)) c.c2_len

structure Rescued where
  r : Rd
  buf : Mem
  best : Nat
  used : Nat

def c2_loop (c : Cfg) (lba off : Nat) (refs : List Ref) : List Nat → Rd → Mem → Nat → Nat → Rescued
  | [], r, buf, best, used => ⟨r, buf, best, used⟩
  | a :: as, r, buf, best, used =>
    if best = 0 then ⟨r, buf, best, used⟩
    else
      let w : Int := lba + context_start ((a - 1) % 3)
      let w0 := u32 (if w < 0 then lba else w.toNat)
      let (r, rc) := read_context c (cache_defeat c (ladder_speed c r a) lba) .c2 w0
      if rc ≠ ACCUDISC_OK then c2_loop c lba off refs as r buf best used
      else if !corroborated c r.context w0 lba refs then c2_loop c lba off refs as r.reread buf best a
      else
        let x := sub32 lba w0 * c.sector_len
        let b := record_bits c r.context x
        if b < best then
          c2_loop c lba off refs as
            (r.reread.emit (.accept .c2 lba (record c.sector_len (ptr r.context x) 0)))
            (memcpy buf off r.context x c.sector_len) b a
        else c2_loop c lba off refs as r.reread buf best a

def c2_rescue (c : Cfg) (r : Rd) (lba : Nat) (buf : Mem) (off bits : Nat) (refs : List Ref) : Rescued :=
  c2_loop c lba off refs (List.range' 1 c.req.c2_retries.toNat) r buf bits 0

/-- A reread against the `count` samples: is one of them its copy, and is the dispute a slip? -/
def consensus_scan (c : Cfg) (scratch samples : Mem) (count : Nat) (shifted : Bool) : Bool × Bool :=
  (List.range count).foldl
    (fun (matched, shifted) i =>
      let smp := ptr samples (i * c.sector_len)
      if adsc_audio_diff scratch smp = 0 then (true, shifted)
      else if !shifted && (adsc_shift_find scratch smp).isSome then (matched, true)
      else (matched, shifted))
    (false, shifted)

structure Consensus extends Settled where
  shifted : Bool

def consensus_loop (c : Cfg) (p : Pass) (lba off : Nat) :
    List Nat → Rd → Mem → Nat → Bool → Nat → Consensus
  | [], r, buf, _, shifted, used => ⟨⟨r, buf, used, false⟩, shifted⟩
  | a :: as, r, buf, count, shifted, used =>
    let (r, rc) := read_scratch c (cache_defeat c (ladder_speed c r a) lba) (.consensus p) lba
    if rc ≠ ACCUDISC_OK then consensus_loop c p lba off as r buf count shifted used
    else
      let (matched, shifted) := consensus_scan c r.scratch r.samples count shifted
      if matched ∧ !shifted then
        ⟨⟨r.reread.emit (.accept (.consensus p) lba (record c.sector_len r.scratch 0)),
          memcpy buf off r.scratch 0 c.sector_len, a, true⟩, shifted⟩
      else if matched then ⟨⟨r.reread, buf, a, false⟩, shifted⟩
      else if count < ADSC_SAMPLES_MAX then
        consensus_loop c p lba off as
          { r.reread with samples := memcpy r.samples (count * c.sector_len) r.scratch 0 c.sector_len }
          buf (count + 1) shifted a
      else consensus_loop c p lba off as r.reread buf count shifted a

/-- The copies a settlement begins with, and how many they are; `alt` is a pointer. -/
def consensus_start (c : Cfg) (p : Pass) (r : Rd) (lba : Nat) (buf : Mem) (off : Nat)
    (alt : Option Mem) : Rd × Nat :=
  let r := r.emit (.dispute p lba (record c.sector_len (ptr buf off) 0)
    (alt.map fun alt => record c.sector_len alt 0))
  let samples := memcpy r.samples 0 buf off c.sector_len
  match alt with
  | none => ({ r with samples }, 1)
  | some alt => ({ r with samples := memcpy samples c.sector_len alt 0 c.sector_len }, 2)

def consensus (c : Cfg) (p : Pass) (r : Rd) (lba : Nat) (buf : Mem) (off : Nat) (alt : Option Mem)
    (shifted : Bool) (refs : List Ref) : Settled :=
  let (r, count) := consensus_start c p r lba buf off alt
  let k := consensus_loop c p lba off (List.range' 1 (ADSC_SAMPLES_MAX - 2)) r buf count shifted 0
  if k.ok then k.toSettled
  else if !k.shifted then k.toSettled
  else anchor_position c p (ladder_restore c k.r) lba k.buf off refs k.used

/-! ## One witnessed pass -/

/-- `struct adsc_chunk_state`. -/
structure ChunkState where
  live : Bool
  witnessed : Bool
  lba : Nat
  n : Nat
  buf : Mem
  prim : Option Mem
  hard : Nat → Bool
  recov : Nat → Bool
  susp : Nat → Bool
  att : Nat → Nat
  bits : Nat → Nat
  diffb : Nat → Nat

/-- A chunk and the engine. -/
structure Work where
  r : Rd
  k : ChunkState

/-- The verdict of a settlement of sector `s`, with its difference. -/
def settle (w : Work) (s : Nat) (x : Settled) : Work :=
  { r := x.r
    k := { w.k with
      buf := x.buf
      recov := if x.ok then Function.update w.k.recov s true else w.k.recov
      att := if x.ok then Function.update w.k.att s (u32 (w.k.att s + x.used)) else w.k.att
      susp := if x.ok then w.k.susp else Function.update w.k.susp s true } }

/-- Sector `s` against the second transfer `sp`. -/
def witness_sector (c : Cfg) (p : Pass) (sp : Span) (w : Work) (s : Nat) : Work :=
  let k := w.k
  let off := s * c.sector_len
  if k.hard s ∨ k.susp s then w
  else
    let alt := ptr sp.buf off
    let diff := if sp.hard s then 0 else adsc_audio_diff (ptr k.buf off) alt
    if !sp.hard s ∧ diff = 0 then w
    else
      let shifted := !sp.hard s && (adsc_shift_find (ptr k.buf off) alt).isSome
      let r := if shifted then w.r.slip else w.r
      let x := consensus c p r (u32 (k.lba + s)) k.buf off (if sp.hard s then none else some alt) shifted
        [⟨k.lba, k.n, k.prim, k.hard⟩, ⟨k.lba, k.n, some sp.buf, sp.hard⟩]
      let w := settle { w with k := { k with diffb := Function.update k.diffb s diff } } s x
      if x.ok ∧ c.c2_len ≠ 0 then
        { w with k := { w.k with bits := Function.update w.k.bits s (record_bits c w.k.buf off) } }
      else w

def witness_pass (c : Cfg) (p : Pass) (w : Work) : Work :=
  let r := cache_defeat c (ladder_restore c w.r) w.k.lba
  let sp := read_span c r (.witness p) w.k.lba w.k.n r.buf2 0
  (List.range w.k.n).foldl (witness_sector c p sp) { w with r := { sp.r with buf2 := sp.buf } }

end Accudisc
