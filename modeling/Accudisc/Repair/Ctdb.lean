import Accudisc.Repair.Sweep

/-!
# CTDB parity repair (`ctdb.c`)

`accudisc_ctdb_repair` on the process's memory: the PCM, the parity blob, the erasure bitmap and the output
buffer are addresses (0 is NULL) and may overlap; the two work arrays are the function's own. The
geometry is in unbounded integers, which the checks keep inside the C types.
-/

namespace Accudisc

abbrev WORDS_PER_FRAME : Nat := 1176

def ACCUDISC_CTDB_UNVERIFIED : Int := 2

structure CtdbReq where
  size : UInt32
  npar : UInt32
  wire_stride : UInt32
  image_first_frame : UInt32
  image_frames : UInt32
  offset_pairs : Int32
  pcm : Nat
  pcm_bytes : UInt64
  parity : Nat
  parity_bytes : UInt64
  pcm_erasures : Nat
  pcm_erasures_bytes : UInt64

structure CtdbReport where
  size : UInt32
  offset_pairs : Int32
  dirty_columns : UInt32
  repaired_columns : UInt32
  refused_columns : UInt32
  erasure_columns : UInt32
  corrections : UInt32
  crc32_before : UInt32
  crc32_after : UInt32
  unverified_columns : UInt32

/-- `sizeof(accudisc_ctdb_req)`. -/
def sizeof_ctdb_req : UInt32 := 72

/-- `sizeof(accudisc_ctdb_report)`. -/
def sizeof_ctdb_report : UInt32 := 40

namespace CtdbReq

variable (req : CtdbReq)

/-- The internal stride in words. -/
def S : Nat := req.wire_stride.toNat * 2

def base : Nat := req.image_first_frame.toNat * WORDS_PER_FRAME

def W : Nat := req.image_frames.toNat * WORDS_PER_FRAME

def pcm_words : Nat := req.pcm_bytes.toNat / 2

def delta : Int := req.offset_pairs.toInt * 2

/-- `stridecount`: row 0 and the partial last row are no codeword symbols. -/
def sc : Nat := req.W / req.S - 2

/-- The codeword region's first word. -/
def first : Int := req.base + req.S + req.delta

def fix_cap : Nat := req.S * req.npar.toNat

/-- The word of row `p` of column `c`. -/
def word (c p : Nat) : Nat := (req.base + req.S + c + p * req.S + req.delta : Int).toNat

end CtdbReq

/-- The last word of the codeword region. -/
def CtdbReq.last (req : CtdbReq) : Int := req.first + req.sc * req.S - 1

/-- The checks, in order. -/
def ctdb_validate (req : CtdbReq) (out_pcm : Nat) (report : Option CtdbReport) : Except Int Unit :=
  if out_pcm = 0 then .error ACCUDISC_ERR_INVAL
  else if req.size ≠ sizeof_ctdb_req then .error ACCUDISC_ERR_ABI
  else if report.any (fun r => r.size ≠ sizeof_ctdb_report) then .error ACCUDISC_ERR_ABI
  else if req.pcm = 0 ∨ req.parity = 0 then .error ACCUDISC_ERR_INVAL
  else if (req.pcm ||| req.parity ||| out_pcm) &&& 1 ≠ 0 then .error ACCUDISC_ERR_INVAL
  else if req.npar = 0 ∨ req.npar.toNat > ADSC_RS16_MAX_NPAR then .error ACCUDISC_ERR_INVAL
  else if req.wire_stride = 0 ∨ req.wire_stride > 0x40000000 then .error ACCUDISC_ERR_INVAL
  else if req.image_frames = 0 then .error ACCUDISC_ERR_INVAL
  else if req.parity_bytes.toNat ≠ req.S * req.npar.toNat * 2 then .error ACCUDISC_ERR_INVAL
  else if req.W / req.S < 3 ∨ req.W / req.S - 2 > ADSC_GF16_ORDER then .error ACCUDISC_ERR_INVAL
  else if req.base + req.W > req.pcm_words then .error ACCUDISC_ERR_INVAL
  else if req.first < 0 ∨ req.last < 0 ∨ req.last.toNat ≥ req.pcm_words then
    .error ACCUDISC_ERR_INVAL
  else if req.pcm_erasures ≠ 0 ∧ req.pcm_erasures_bytes.toNat < (req.pcm_words + 7) / 8 then
    .error ACCUDISC_ERR_INVAL
  else if req.fix_cap > 0xFFFFFFFF then .error ACCUDISC_ERR_INVAL
  else .ok ()

/-! ## Pass 2 -/

structure Pass2 where
  /-- Corrections held until every column has decoded: word of the PCM, new value. -/
  fixes : List (Nat × BitVec 16)
  dirty : Nat
  repaired : Nat
  refused : Nat
  erasure_cols : Nat
  unverified : Nat

section
variable (m : Mem) (req : CtdbReq)

/-- What the column's computed syndrome and the published one leave. -/
def column_error (acc : Nat → Gf16) (c r : Nat) : Gf16 :=
  acc (r * req.S + c) ^^^ symbol (load16 m (req.parity + 2 * (r * req.S + c)))

/-- The bit of word `w` in the erasure bitmap. -/
def erased (w : Nat) : Bool := (m (req.pcm_erasures + w / 8)).getLsbD (w % 8)

/-- The column's flagged rows; the scan stops one past `npar`. -/
def erasure_scan (c : Nat) : List Nat :=
  if req.pcm_erasures = 0 then []
  else (List.range req.sc).foldl (fun erasures p =>
    if erasures.length ≤ req.npar.toNat ∧ erased m req (req.word c p) then erasures ++ [p]
    else erasures) []

/-- `positions[0..n)` and `values[0..n)` of a decode. -/
structure ColumnDecode where
  n : Int
  positions : Nat → Nat
  values : Nat → Gf16

/-- One call of the decoder. -/
def column_decode (E : Nat → Gf16) (erasures : List Nat) : ColumnDecode :=
  let out := adsc_rs16_decode req.npar.toNat (some E) req.sc
    (if erasures.length ≠ 0 then some fun i => erasures.getD i 0 else none) erasures.length
    (some fun _ => 0) (some fun _ => 0) (ADSC_RS16_MAX_NPAR + 1)
  ⟨out.1, out.2.1.getD fun _ => 0, out.2.2.getD fun _ => 0⟩

/-- Hold one correction. -/
def ctdb_fix (c : Nat) (d : ColumnDecode) (st : Pass2) (i : Nat) : Except Int Pass2 :=
  let w := req.word c (d.positions i)
  if st.fixes.length ≥ req.fix_cap then .error ACCUDISC_ERR_NOMEM
  else .ok { st with fixes := st.fixes ++ [(w, load16 m (req.pcm + 2 * w) ^^^ (d.values i).bits)] }

/-- Decode column `c` if it disagrees. -/
def ctdb_column (acc : Nat → Gf16) (st : Pass2) (c : Nat) : Except Int Pass2 :=
  let E := column_error m req acc c
  if (List.range req.npar.toNat).all (fun r => E r = 0) then .ok st
  else
    let erasures := erasure_scan m req c
    let nera := erasures.length
    let d := column_decode req E erasures
    let st := { st with
      dirty := st.dirty + 1
      erasure_cols := st.erasure_cols + if nera ≠ 0 then 1 else 0
      -- determined, not verified: the erasures consumed every check equation
      unverified := st.unverified + if d.n > 0 ∧ nera = req.npar.toNat then 1 else 0 }
    -- erasures are a hint: retry without them
    let d := if d.n ≤ 0 ∧ nera ≠ 0 then column_decode req E [] else d
    if d.n ≤ 0 then .ok { st with refused := st.refused + 1 }
    else
      (List.range d.n.toNat).foldlM (ctdb_fix m req c d) { st with repaired := st.repaired + 1 }

end

/-! ## The call -/

def memmove (m : Mem) (dst src n : Nat) : Mem := fun a =>
  if dst ≤ a ∧ a < dst + n then m (src + (a - dst)) else m a

/-- Write the corrections. -/
def ctdb_apply (m : Mem) (out_pcm : Nat) (fixes : List (Nat × BitVec 16)) : Mem :=
  fixes.foldl (fun m f => store16 m (out_pcm + 2 * f.1) f.2) m

/-- What the call does not decide: the sweep's kernel and the two allocations. -/
structure CtdbEnv where
  kernel : Kernel
  acc : Bool
  fixes : Bool

/-- The caller's report of a run. -/
def fill_report (req : CtdbReq) (st : Pass2) (before after : BitVec 32) (r : CtdbReport) :
    CtdbReport :=
  { r with
    offset_pairs := req.offset_pairs
    dirty_columns := UInt32.ofNat st.dirty
    repaired_columns := UInt32.ofNat st.repaired
    refused_columns := UInt32.ofNat st.refused
    erasure_columns := UInt32.ofNat st.erasure_cols
    corrections := if st.refused ≠ 0 then 0 else UInt32.ofNat st.fixes.length
    crc32_before := ⟨before⟩
    crc32_after := ⟨after⟩
    unverified_columns := if st.refused ≠ 0 then 0 else UInt32.ofNat st.unverified }

/-- Everything after the checks and the allocations. -/
def ctdb_run (kernel : Kernel) (m : Mem) (req : CtdbReq) (out_pcm : Nat) (report : Option CtdbReport) :
    Int × Mem × Option CtdbReport :=
  let first := req.first.toNat
  let sweep := adsc_ctdb_sweep kernel m req.pcm first req.S req.sc req.npar.toNat fun _ => 0
  let before := sweep.crc
  match (List.range req.S).foldlM (ctdb_column m req sweep.acc) ⟨[], 0, 0, 0, 0, 0⟩ with
  | .error rc => (rc, m, report)
  | .ok st =>
    if st.refused ≠ 0 then
      (ACCUDISC_ERR_NOTFOUND, m, report.map (fill_report req st before before))
    else
      let copied := if out_pcm ≠ req.pcm then memmove m out_pcm req.pcm req.pcm_bytes.toNat else m
      let out := ctdb_apply copied out_pcm st.fixes
      let after := if st.fixes.length ≠ 0 then
        adsc_ctdb_crc32_words out (out_pcm + 2 * first) (req.sc * req.S) else before
      (if st.unverified ≠ 0 then ACCUDISC_CTDB_UNVERIFIED else ACCUDISC_OK, out,
        report.map (fill_report req st before after))

def accudisc_ctdb_repair (env : CtdbEnv) (m : Mem) (req : Option CtdbReq) (out_pcm : Nat)
    (report : Option CtdbReport) : Int × Mem × Option CtdbReport :=
  match req with
  | none => (ACCUDISC_ERR_INVAL, m, report)
  | some req =>
    match ctdb_validate req out_pcm report with
    | .error rc => (rc, m, report)
    | .ok () =>
      if ¬(env.acc ∧ env.fixes) then (ACCUDISC_ERR_NOMEM, m, report)
      else ctdb_run env.kernel m req out_pcm report

end Accudisc
