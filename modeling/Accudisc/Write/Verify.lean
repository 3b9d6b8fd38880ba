import Accudisc.Abi
import Accudisc.Drive.Census
import Accudisc.Lib.LeastTwo
import Accudisc.Read.Chunk
import Accudisc.Read.Engine

/-!
# Verification after a burn (`verify.c`)

The read-back is aligned with the file it was made from, then compared with it at that displacement. Audio
is counted in samples of four bytes, 588 to a sector. The displacement is searched for by a scan that
gives a shift up once it cannot matter.
-/

namespace Accudisc

def VERIFY_ANCHOR_SECTORS : Nat := 16
def SAMPLES_PER_SECTOR : Nat := 588
def BYTES_PER_SAMPLE : Nat := 4
def ANCHOR_MIN_DISTINCT : Nat := 64
def ANCHOR_MAX_BAD_PCT : Nat := 50
def ANCHOR_SEP_DIV : Nat := 10
def ACCUDISC_VERIFY_SHIFT_MAX : Nat := 4704
def ACCUDISC_VERIFY_COMPARE : Nat := 0
def ACCUDISC_VERIFY_C2 : Nat := 1
def ACCUDISC_VERIFY_COUNTERS : Nat := 2
def ACCUDISC_C2_SUPPORTED : Nat := 1

/-- One stereo frame, as its four bytes. -/
abbrev Sample := BitVec 8 × BitVec 8 × BitVec 8 × BitVec 8

/-- The sample at a byte of a buffer. -/
def sample_at (m : Mem) (a : Nat) : Sample := (m a, m (a + 1), m (a + 2), m (a + 3))

/-! ## The anchor -/

structure AnchorCtx where
  buf : Mem
  sectors : Nat
  got : Nat := 0
  lba0 : Nat

def anchor_sector (chunk : AccuChunk) (a : AnchorCtx) (k : Nat) : AnchorCtx :=
  let idx := sub32 (u32 (chunk.lba + k)) a.lba0
  if a.sectors ≤ idx then a
  else
    { a with
      buf := memcpy a.buf (idx * SAMPLES_PER_SECTOR * BYTES_PER_SAMPLE) chunk.data (k * chunk.sector_len)
        (SAMPLES_PER_SECTOR * BYTES_PER_SAMPLE)
      got := u32 (a.got + 1) }

def anchor_sink (a : AnchorCtx) (chunk : AccuChunk) : AnchorCtx :=
  (List.range chunk.nsec).foldl (anchor_sector chunk) a

/-- Different samples, at most 64. -/
def distinct_samples (p : Mem) (n : Nat) : Nat :=
  ((List.range n).foldl (fun seen i =>
    if seen.length < ANCHOR_MIN_DISTINCT ∧ sample_at p (i * BYTES_PER_SAMPLE) ∉ seen then
      seen ++ [sample_at p (i * BYTES_PER_SAMPLE)]
    else seen) []).length

/-! ## The displacement -/

section
variable (disc src : Mem) (nsamp : Nat)

/-- The mismatches from sample `i` on, given up at `second`. -/
def count_bad (off second : Nat) : (n i bad : Nat) → Nat
  | 0, _, bad => bad
  | n + 1, i, bad =>
    if sample_at disc (i * BYTES_PER_SAMPLE) ≠ sample_at src ((off + i) * BYTES_PER_SAMPLE) then
      if second ≤ bad + 1 then bad + 1 else count_bad off second n (i + 1) (bad + 1)
    else count_bad off second n (i + 1) bad

/-- The shifts in the order they are tried. -/
def verify_shifts : List Int := (List.range (2 * ACCUDISC_VERIFY_SHIFT_MAX + 1)).map fun k :
    Nat => k - ACCUDISC_VERIFY_SHIFT_MAX

/-- The window reaches every sample that the shift needs. -/
def evaluable (src_samples : Nat) (src_base_shift s : Int) : Bool :=
  0 ≤ s - src_base_shift ∧ s - src_base_shift + nsamp ≤ src_samples

/-- The winning shift, or none for -1. -/
def score_shifts (src_samples : Nat) (src_base_shift : Int) : Option Int :=
  let limit := nsamp / 100 * ANCHOR_MAX_BAD_PCT
  let r := (verify_shifts.filter (evaluable nsamp src_samples src_base_shift)).foldl
    (LeastTwo.step fun second s => count_bad disc src (s - src_base_shift).toNat second nsamp 0 0)
    { best := 0xFFFFFFFF, second := 0xFFFFFFFF, pick := 0 }
  if r.best = 0xFFFFFFFF then none
  else if limit < r.best then none
  else if r.second ≠ 0xFFFFFFFF ∧ r.second < u32 (r.best + nsamp / ANCHOR_SEP_DIV) then none
  else some r.pick

end

/-! ## The calls of a verification -/

/-- The statistics of a read that are reported. -/
structure VerifyStats where
  c2_bits : Nat := 0
  sectors_flagged : Nat := 0
  hard_errors : Nat := 0
deriving DecidableEq

/-- What they answer. `bin` is what the file holds; the anchors are numbered as they are tried. -/
structure VerifyEnv where
  fopen : Bool
  /-- The file's size, or none where it cannot be had. -/
  size : Option Nat
  bin : Mem
  scan_begin : Int
  scan_read : Int
  /-- The code of `accudisc_probe_features`, and `c2_verdict`. -/
  probe_features : Int × Nat
  calloc_anchor : Nat → Bool
  anchor_read : Nat → ReadCall → List AccuChunk × Int
  malloc_window : Nat → Bool
  window_io : Nat → Bool
  malloc_scratch : Bool
  /-- The chunks of the compare read where its sink lets them all come, its code and its statistics. -/
  read : ReadCall → List AccuChunk × Int × VerifyStats
  /-- Whether the `i`-th sector that is wanted of the file is read. -/
  cmp_io : Nat → Bool
  census : CensusOpts → Int × CensusStats

section
variable (e : VerifyEnv) (src_samples start count : Nat)

/-- The candidates: the middle, a third in, the head. -/
def anchor_positions : List Nat :=
  [if 2 * VERIFY_ANCHOR_SECTORS < count then u32 (start + count / 2 - VERIFY_ANCHOR_SECTORS / 2) else start,
    if 3 * VERIFY_ANCHOR_SECTORS < count then u32 (start + count / 3) else start,
    start]

def anchor_sectors : Nat := if count < VERIFY_ANCHOR_SECTORS then count else VERIFY_ANCHOR_SECTORS

/-- The request of an anchor, and what of the disc it leaves in the buffer. -/
def anchor_req (c2 speed_x pos : Nat) : ReadCall :=
  { lba := pos, count := anchor_sectors count, c2, retries := 2, speed_x }

def anchor_filled (c2 speed_x p pos : Nat) : AnchorCtx :=
  (e.anchor_read p (anchor_req count c2 speed_x pos)).1.foldl anchor_sink
    { buf := fun _ => 0, sectors := anchor_sectors count, lba0 := pos }

/-- The anchor's first sample in the span, and the ends of the source's window. -/
def anchor_base (pos : Nat) : Nat := sub32 pos start * SAMPLES_PER_SECTOR

def win_lo (base : Nat) : Nat := if ACCUDISC_VERIFY_SHIFT_MAX < base then
    base - ACCUDISC_VERIFY_SHIFT_MAX else 0

def win_hi (base nsamp : Nat) : Nat :=
  if src_samples < base + nsamp + ACCUDISC_VERIFY_SHIFT_MAX then src_samples
  else base + nsamp + ACCUDISC_VERIFY_SHIFT_MAX

/-- The window of the source. -/
def anchor_window (base : Nat) : Mem := fun a => e.bin (win_lo base * BYTES_PER_SAMPLE + a)

/-- One candidate: none where the next is tried. -/
def align_anchor (c2 speed_x p pos : Nat) : Option (Except Int Int) :=
  let nsec := anchor_sectors count
  let nsamp := nsec * SAMPLES_PER_SECTOR
  if u32 (start + count) < u32 (pos + nsec) then none
  else if !e.calloc_anchor p then some (.error ACCUDISC_ERR_NOMEM)
  else
    let a := anchor_filled e count c2 speed_x p pos
    if (e.anchor_read p (anchor_req count c2 speed_x pos)).2 ≠ ACCUDISC_OK ∨ a.got ≠ nsec then none
    else if distinct_samples a.buf nsamp < ANCHOR_MIN_DISTINCT then none
    else
      let base := anchor_base start pos
      let lo := win_lo base
      let hi := win_hi src_samples base nsamp
      if hi ≤ lo + nsamp then none
      else if !e.malloc_window p then some (.error ACCUDISC_ERR_NOMEM)
      else if !e.window_io p then some (.error ACCUDISC_ERR_IO)
      else
        match score_shifts a.buf (anchor_window e base) nsamp (hi - lo) (lo - base) with
        | some s => some (.ok s)
        | none => none

def align_loop (c2 speed_x : Nat) : (p : Nat) → List Nat → Except Int Int
  | _, [] => .error ACCUDISC_ERR_UNSUPPORTED
  | p, pos :: rest =>
    match align_anchor e src_samples start count c2 speed_x p pos with
    | some r => r
    | none => align_loop c2 speed_x (p + 1) rest

def align_span (c2 speed_x : Nat) : Except Int Int :=
  align_loop e src_samples start count c2 speed_x 0 (anchor_positions start count)

end

/-! ## The comparison -/

/-- `struct cmp_ctx`. `reads` counts what was wanted of the file, and `reports` is what the progress
callback got. -/
structure CmpCtx where
  shift : Int
  lba0 : Nat
  src_samples : Nat
  compared : Nat := 0
  differing : Nat := 0
  first_diff : Int := -1
  io_err : Bool := false
  done : Nat := 0
  reads : Nat := 0
  reports : List Nat := []

section
variable (e : VerifyEnv)

/-- One sample: sample `skip + i` of the sector against sample `j0 + i` of the file. -/
def cmp_sample (audio : Mem) (lba skip j0 : Nat) (c : CmpCtx) (i : Nat) : CmpCtx :=
  let c := { c with compared := u64 (c.compared + 1) }
  if sample_at audio ((skip + i) * BYTES_PER_SAMPLE) ≠ sample_at e.bin ((j0 + i) * BYTES_PER_SAMPLE) then
    { c with
      differing := u64 (c.differing + 1)
      first_diff := if c.first_diff < 0 then lba else c.first_diff }
  else c

/-- One sector of a chunk, clipped to the source. -/
def cmp_sector (chunk : AccuChunk) (c : CmpCtx) (k : Nat) : CmpCtx :=
  if c.io_err then c
  else
    let lba := u32 (chunk.lba + k)
    let j0 := (sub32 lba c.lba0 * SAMPLES_PER_SECTOR : Nat) + c.shift
    if j0 < 0 ∧ (SAMPLES_PER_SECTOR : Int) ≤ -j0 then c
    else
      let skip := if j0 < 0 then (-j0).toNat else 0
      let n := SAMPLES_PER_SECTOR - skip
      let j0 := j0.toNat
      if c.src_samples < j0 + n ∧ c.src_samples ≤ j0 then c
      else
        let n := if c.src_samples < j0 + n then c.src_samples - j0 else n
        if n = 0 then c
        else if !e.cmp_io c.reads then { c with io_err := true, reads := c.reads + 1 }
        else
          (List.range n).foldl (cmp_sample e (fun a => chunk.data (k * chunk.sector_len + a)) lba skip j0)
            { c with reads := c.reads + 1 }

/-- After a read of the file that failed the sink answers 1, and no chunk comes any more. -/
def cmp_sink (c : CmpCtx) (chunk : AccuChunk) : CmpCtx :=
  if c.io_err then c
  else
    let c := (List.range chunk.nsec).foldl (cmp_sector e chunk) c
    if c.io_err then c
    else { c with done := u32 (c.done + chunk.nsec), reports := c.reports ++ [u32 (c.done + chunk.nsec)] }

end

/-! ## The tiers -/

/-- `accudisc_verify_opts`. -/
structure VerifyOpts where
  start : BitVec 32 := 0
  count : BitVec 32 := 0
  want_tier : BitVec 8 := 2
  require_tier : BitVec 8 := 0
  speed_x : BitVec 16 := 0

/-- `accudisc_verify_result`. -/
structure VerifyResult where
  tier : Nat := 0
  aligned : Nat := 0
  degraded : Bool := false
  shift_samples : Int := 0
  samples_compared : Nat := 0
  samples_differing : Nat := 0
  first_diff_lba : Int := -1
  c2_bits : Nat := 0
  sectors_flagged : Nat := 0
  hard_errors : Nat := 0
  census : CensusStats := {}
deriving DecidableEq

def sizeof_verify_result : Nat := 120

section
variable (e : VerifyEnv) (o : VerifyOpts)

/-- The tier once the counters were tried. -/
def counters_tier : Nat :=
  let tier := if ACCUDISC_VERIFY_COUNTERS < o.want_tier.toNat then ACCUDISC_VERIFY_COUNTERS
    else o.want_tier.toNat
  if ACCUDISC_VERIFY_COUNTERS ≤ tier then
    if e.scan_begin ≠ ACCUDISC_OK then ACCUDISC_VERIFY_C2
    else if e.scan_read ≠ ACCUDISC_OK then ACCUDISC_VERIFY_C2
    else tier
  else tier

/-- The tier once the C2 pointers were tried too. -/
def verify_tier : Nat :=
  if ACCUDISC_VERIFY_C2 ≤ counters_tier e o then
    if e.probe_features.1 ≠ ACCUDISC_OK ∨ e.probe_features.2 ≠ ACCUDISC_C2_SUPPORTED then
      ACCUDISC_VERIFY_COMPARE
    else counters_tier e o
  else counters_tier e o

/-- Where the probe lowers the tier it leaves it below C2. -/
def verify_c2mode : Nat := if ACCUDISC_VERIFY_C2 ≤ verify_tier e o then ACCUDISC_C2_PTRS
    else ACCUDISC_C2_NONE

/-- The sectors to verify, 0 where there are none. -/
def verify_count (src_samples : Nat) : Nat :=
  if o.count.toNat = 0 then u32 (src_samples / SAMPLES_PER_SECTOR) else o.count.toNat

/-- The request of the compare read, and its sink's state at the end. -/
def compare_req (src_samples : Nat) : ReadCall :=
  { lba := o.start.toNat, count := verify_count o src_samples, c2 := verify_c2mode e o, retries := 2,
    speed_x := o.speed_x.toNat }

def compare_pass (src_samples : Nat) (shift : Int) : CmpCtx :=
  (e.read (compare_req e o src_samples)).1.foldl (cmp_sink e) { shift, lba0 := o.start.toNat, src_samples }

def census_opts (src_samples : Nat) : CensusOpts :=
  { start := o.start, end_ := o.start + BitVec.ofNat 32 (verify_count o src_samples), speed_x := o.speed_x }

/-- What the compare pass fills in. -/
def compare_result (src_samples : Nat) (shift : Int) : VerifyResult :=
  let c := compare_pass e o src_samples shift
  let rs := (e.read (compare_req e o src_samples)).2.2
  let c2 := ACCUDISC_VERIFY_C2 ≤ verify_tier e o
  { tier := verify_tier e o
    aligned := 1
    degraded := verify_tier e o < o.want_tier.toNat
    shift_samples := shift
    samples_compared := c.compared
    samples_differing := c.differing
    first_diff_lba := c.first_diff
    c2_bits := if c2 then rs.c2_bits else 0
    sectors_flagged := if c2 then rs.sectors_flagged else 0
    hard_errors := if c2 then rs.hard_errors else 0 }

/-- The second pass, over the result of the first. -/
def census_result (src_samples : Nat) (r : VerifyResult) : VerifyResult :=
  if ACCUDISC_VERIFY_COUNTERS ≤ verify_tier e o then
    let census := e.census (census_opts o src_samples)
    if census.1 ≠ ACCUDISC_OK then { r with census := {}, tier := ACCUDISC_VERIFY_C2, degraded := true }
    else { r with census := census.2 }
  else r

/-- From the alignment on. -/
def verify_span (src_samples : Nat) : Except Int VerifyResult :=
  match align_span e src_samples o.start.toNat (verify_count o src_samples)
    (verify_c2mode e o) o.speed_x.toNat with
  | .error rc =>
    if rc = ACCUDISC_ERR_NOMEM ∨ rc = ACCUDISC_ERR_IO then .error rc
    else .ok { tier := verify_tier e o, degraded := verify_tier e o < o.want_tier.toNat }
  | .ok shift =>
    if !e.malloc_scratch then .error ACCUDISC_ERR_NOMEM
    else if (compare_pass e o src_samples shift).io_err then .error ACCUDISC_ERR_IO
    else if (e.read (compare_req e o src_samples)).2.1 ≠ ACCUDISC_OK then
      .error (e.read (compare_req e o src_samples)).2.1
    else .ok (census_result e o src_samples (compare_result e o src_samples shift))

/-- `args` says whether every argument is there, `abi` is what the import of the options answers, and
`size` is the caller's `out->size`. The result is given with the bytes of it that are written back. -/
def accudisc_verify (args : Bool) (abi : Int) (size : Nat) : Except Int (VerifyResult × Nat) := do
  if !args then .error ACCUDISC_ERR_INVAL
  else if abi ≠ ACCUDISC_OK then .error abi
  else
    let out_bytes ← adsc_abi_export size sizeof_verify_result
    if o.want_tier < o.require_tier then .error ACCUDISC_ERR_INVAL
    else if !e.fopen then .error ACCUDISC_ERR_IO
    else
      match e.size with
      | none => .error ACCUDISC_ERR_IO
      | some fsz =>
        let src_samples := fsz / BYTES_PER_SAMPLE
        if src_samples = 0 then .error ACCUDISC_ERR_INVAL
        else if verify_count o src_samples = 0 then .error ACCUDISC_ERR_INVAL
        else if verify_tier e o < o.require_tier.toNat then .error ACCUDISC_ERR_UNSUPPORTED
        else
          let r ← verify_span e o src_samples
          .ok (r, out_bytes)

end

end Accudisc
