import Accudisc.Repair.Proof.CtdbFrame

/-!
# The repair stays inside its arrays and its types

The geometry as the code computes it, an operation at a time in its C type, is the model's, so that
nothing overflows (`geometry_checked_eq`, `word_checked_eq` and the others). With the frames of the passes
this is the safety of a request that is not refused.
-/

namespace Accudisc

/-! ## The types -/

inductive CType where
  | unsigned
  | uint64
  | long
deriving DecidableEq

/-- The value is one of the type's, `long` of 64 bits. -/
def CType.holds : CType → Int → Prop
  | .unsigned, x => 0 ≤ x ∧ x < 2 ^ 32
  | .uint64, x => 0 ≤ x ∧ x < 2 ^ 64
  | .long, x => -2 ^ 63 ≤ x ∧ x < 2 ^ 63

instance (t : CType) (x : Int) : Decidable (t.holds x) := by
  cases t <;> exact inferInstanceAs (Decidable (_ ∧ _))

/-- The result of an operation, none where it overflows its type. -/
def CType.check (t : CType) (x : Int) : Option Int := if t.holds x then some x else none

section
variable {α : Type} {x : Int}

theorem CType.check_bind {t : CType} (h : t.holds x) (f : Int → Option α) : (t.check x).bind f = f x := by
  rw [CType.check, if_pos h, Option.bind_some]

theorem unsigned_bind (h0 : 0 ≤ x) (h1 : x < 2 ^ 32) (f : Int → Option α) :
    (CType.unsigned.check x).bind f = f x := CType.check_bind (t := .unsigned) ⟨h0, h1⟩ f

theorem uint64_bind (h0 : 0 ≤ x) (h1 : x < 2 ^ 64) (f : Int → Option α) :
    (CType.uint64.check x).bind f = f x := CType.check_bind (t := .uint64) ⟨h0, h1⟩ f

theorem long_bind (h0 : -2 ^ 63 ≤ x) (h1 : x < 2 ^ 63) (f : Int → Option α) :
    (CType.long.check x).bind f = f x := CType.check_bind (t := .long) ⟨h0, h1⟩ f

end

/-! ## The geometry in its types -/

/-- What the checks compute. -/
structure Geometry where
  S : Int
  base : Int
  W : Int
  delta : Int
  blob_bytes : Int
  sc : Int
  window_end : Int
  first : Int
  last : Int
  fix_cap : Int
deriving DecidableEq

section
variable (req : CtdbReq)

/-- `(long)base + (long)S`. -/
def origin_checked : Option Int :=
  (CType.long.check req.base).bind fun base =>
  (CType.long.check req.S).bind fun S => CType.long.check (base + S)

/-- The checks' arithmetic, with each cast and each operation in its type. -/
def geometry_checked : Option Geometry :=
  (CType.unsigned.check (req.wire_stride.toNat * 2)).bind fun S =>
  (CType.uint64.check (req.image_first_frame.toNat * WORDS_PER_FRAME)).bind fun base =>
  (CType.uint64.check (req.image_frames.toNat * WORDS_PER_FRAME)).bind fun W =>
  (CType.long.check (req.offset_pairs.toInt * 2)).bind fun delta =>
  -- (uint64_t)S * npar * 2u
  (CType.uint64.check (S * req.npar.toNat)).bind fun blob =>
  (CType.uint64.check (blob * 2)).bind fun blob_bytes =>
  -- W / S - 2u in 64 bits, then (unsigned)(W / S) - 2u
  (CType.uint64.check (W / S - 2)).bind fun _ =>
  (CType.unsigned.check (W / S)).bind fun rows =>
  (CType.unsigned.check (rows - 2)).bind fun sc =>
  (CType.uint64.check (base + W)).bind fun window_end =>
  -- (long)base + (long)S + delta
  (origin_checked req).bind fun origin =>
  (CType.long.check (origin + delta)).bind fun first =>
  -- first + (long)sc * (long)S - 1
  (CType.long.check sc).bind fun sc' =>
  (CType.long.check S).bind fun S' =>
  (CType.long.check (sc' * S')).bind fun region =>
  (CType.long.check (first + region)).bind fun region_end =>
  (CType.long.check (region_end - 1)).bind fun last =>
  (CType.uint64.check last).bind fun _ =>
  (CType.uint64.check (req.pcm_bytes.toNat / 2 + 7)).bind fun _ =>
  (CType.uint64.check (S * req.npar.toNat)).bind fun fix_cap =>
  -- the cast of `first` for the sweep
  (CType.uint64.check first).bind fun first =>
  some ⟨S, base, W, delta, blob_bytes, sc, window_end, first, last, fix_cap⟩

/-- `first + (uint64_t)j * S`, and the row's bytes `(uint64_t)S * 2u`. -/
def row_checked (j : Nat) : Option (Int × Int) :=
  (CType.uint64.check req.first).bind fun first =>
  (CType.uint64.check (j * req.S)).bind fun offset =>
  (CType.uint64.check (first + offset)).bind fun v =>
  (CType.uint64.check (req.S * 2)).bind fun bytes => some (v, bytes)

/-- `(size_t)r * S + c`, the symbol of the parity and of the accumulator. -/
def symbol_checked (r c : Nat) : Option Int :=
  (CType.uint64.check (r * req.S)).bind fun plane => CType.uint64.check (plane + c)

/-- `(uint64_t)((long)base + (long)S + (long)c + (long)p * (long)S + delta)`. -/
def word_checked (c p : Nat) : Option Int :=
  (origin_checked req).bind fun origin =>
  (CType.long.check (origin + c)).bind fun column =>
  (CType.long.check (p * req.S)).bind fun row =>
  (CType.long.check (column + row)).bind fun sum =>
  (CType.long.check (sum + req.delta)).bind fun w => CType.uint64.check w

/-- `(uint64_t)sc * S` words, `n * 2u` bytes. -/
def crc_checked : Option (Int × Int) :=
  (CType.uint64.check (req.sc * req.S)).bind fun words =>
  (CType.uint64.check (words * 2)).bind fun bytes => some (words, bytes)

end

/-! ## The bounds the checks leave -/

/-- What the checks bound, beside `Accepted`. -/
structure GeometryBounds (req : CtdbReq) : Prop where
  S_le : req.S ≤ 2 ^ 31
  base_le : req.base < 2 ^ 43
  W_le : req.W < 2 ^ 43
  delta_lo : -2 ^ 32 ≤ req.delta
  delta_hi : req.delta < 2 ^ 32
  rows_lo : 3 ≤ req.W / req.S
  rows_hi : req.W / req.S ≤ 65537
  words : req.pcm_words < 2 ^ 63
  region : req.sc * req.S ≤ req.W
  blob : req.parity_bytes.toNat = req.S * req.npar.toNat * 2
  bitmap : req.pcm_erasures ≠ 0 → (req.pcm_words + 7) / 8 ≤ req.pcm_erasures_bytes.toNat

theorem bounds_of_validate {req : CtdbReq} {out_pcm : Nat} {report : Option CtdbReport}
    (h : ctdb_validate req out_pcm report = .ok ()) : GeometryBounds req := by
  simp only [ctdb_validate, check_eq_ok] at h
  obtain ⟨-, -, -, -, -, -, hstride, -, hblob, hrows, -, -, hbitmap, -, -⟩ := h
  have hwire : req.wire_stride.toNat ≤ 0x40000000 := by
    have hle := UInt32.not_lt.1 fun h => hstride (.inr h)
    exact UInt32.le_iff_toNat_le.1 hle
  have hfirst := req.image_first_frame.toNat_lt
  have hframes := req.image_frames.toNat_lt
  have hpcm := req.pcm_bytes.toNat_lt
  have hlo := req.offset_pairs.le_toInt
  have hhi := req.offset_pairs.toInt_lt
  have horder : ADSC_GF16_ORDER = 65535 := rfl
  have hregion : req.sc * req.S ≤ req.W :=
    (Nat.mul_le_mul_right req.S (Nat.sub_le _ 2)).trans (Nat.div_mul_le_self req.W req.S)
  refine ⟨?_, ?_, ?_, ?_, ?_, by omega, by omega, ?_, hregion, by omega, by omega⟩
  · rw [CtdbReq.S]; omega
  · rw [CtdbReq.base, WORDS_PER_FRAME]; omega
  · rw [CtdbReq.W, WORDS_PER_FRAME]; omega
  · rw [CtdbReq.delta]; omega
  · rw [CtdbReq.delta]; omega
  · rw [CtdbReq.pcm_words]; omega

section
variable {req : CtdbReq}

theorem row_le {j : Nat} (hj : j < req.sc) : j * req.S + req.S ≤ req.sc * req.S := by
  have h := Nat.mul_le_mul_right req.S (show j + 1 ≤ req.sc from hj)
  rwa [Nat.succ_mul] at h

variable (hacc : Accepted req) (hb : GeometryBounds req)

include hb in
theorem origin_checked_eq : origin_checked req = some ((req.base : Int) + req.S) := by
  obtain ⟨hS, hbase⟩ := hb
  have hsum : CType.long.holds ((req.base : Int) + req.S) := ⟨by omega, by omega⟩
  rw [origin_checked, long_bind (by omega) (by omega), long_bind (by omega) (by omega),
    CType.check, if_pos hsum]

include hacc hb in
/-- **The checks' arithmetic** is the model's. -/
theorem geometry_checked_eq : geometry_checked req = some ⟨req.S, req.base, req.W, req.delta,
    req.parity_bytes.toNat, req.sc, (req.base + req.W : Nat), req.first, req.last, req.fix_cap⟩ := by
  have horigin := origin_checked_eq hb
  obtain ⟨hS, hbase, hW, hdlo, hdhi, hrlo, hrhi, hwords, hregion, hblob, -⟩ := hb
  have hcap := hacc.cap
  have hfirst := hacc.first_nonneg
  have hfits := hacc.fits
  have hfirst_eq : req.first = req.base + req.S + req.delta := rfl
  have hlast_eq : req.last = req.first + (req.sc : Int) * req.S - 1 := rfl
  have hcap_eq : req.fix_cap = req.S * req.npar.toNat := rfl
  have hS_eq : (req.wire_stride.toNat : Int) * 2 = req.S := rfl
  have hbase_eq : (req.image_first_frame.toNat : Int) * WORDS_PER_FRAME = req.base := rfl
  have hW_eq : (req.image_frames.toNat : Int) * WORDS_PER_FRAME = req.W := rfl
  have hdelta_eq : req.offset_pairs.toInt * 2 = req.delta := rfl
  have hwords_eq : (req.pcm_bytes.toNat : Int) / 2 = req.pcm_words := rfl
  have hrows_eq : (req.W : Int) / req.S = (req.W / req.S : Nat) := rfl
  have hsc_eq : ((req.W / req.S : Nat) : Int) - 2 = req.sc := by
    rw [CtdbReq.sc]
    omega
  have hblob_eq : (req.S : Int) * req.npar.toNat = req.fix_cap := by rw [hcap_eq, Nat.cast_mul]
  have hbytes_eq : (req.fix_cap : Int) * 2 = req.parity_bytes.toNat := by
    rw [hcap_eq, hblob]
    omega
  have hend_eq : (req.base : Int) + req.W = (req.base + req.W : Nat) := rfl
  have hregion_eq : (req.sc : Int) * req.S = (req.sc * req.S : Nat) := rfl
  have hregion_pos : req.S ≤ req.sc * req.S := Nat.le_mul_of_pos_left _ hacc.sc_pos
  have hS_pos := hacc.S_pos
  have hsc_le : req.sc ≤ 65535 := hacc.sc_le
  unfold geometry_checked
  rw [hS_eq, unsigned_bind (by omega) (by omega), hbase_eq, uint64_bind (by omega) (by omega), hW_eq,
    uint64_bind (by omega) (by omega), hdelta_eq, long_bind (by omega) (by omega), hblob_eq,
    uint64_bind (by omega) (by omega), hbytes_eq, uint64_bind (by omega) (by omega), hrows_eq, hsc_eq,
    uint64_bind (by omega) (by omega), unsigned_bind (by omega) (by omega), hsc_eq,
    unsigned_bind (by omega) (by omega), hend_eq, uint64_bind (by omega) (by omega), horigin,
      Option.bind_some,
    ← hfirst_eq, long_bind (by omega) (by omega), long_bind (by omega) (by omega),
    long_bind (by omega) (by omega), hregion_eq, long_bind (by omega) (by omega),
    long_bind (by omega) (by omega), ← hregion_eq, ← hlast_eq, long_bind (by omega) (by omega),
    uint64_bind (by omega) (by omega), hwords_eq, uint64_bind (by omega) (by omega),
    uint64_bind (by omega) (by omega), uint64_bind (by omega) (by omega)]

include hacc hb in
/-- The rows of the sweep. -/
theorem row_checked_eq {j : Nat} (hj : j < req.sc) :
    row_checked req j = some (((req.first.toNat + j * req.S : Nat) : Int), ((req.S * 2 : Nat) : Int)) := by
  have hle := row_le hj
  have hfits := hacc.fits
  have hfirst := hacc.first_nonneg
  obtain ⟨hS, -, -, -, -, -, -, hwords, -⟩ := hb
  have hoffset : (j : Int) * req.S = (j * req.S : Nat) := rfl
  have hv : req.first + ((j * req.S : Nat) : Int) = (req.first.toNat + j * req.S : Nat) := by omega
  unfold row_checked
  rw [uint64_bind (by omega) (by omega), hoffset, uint64_bind (by omega) (by omega), hv,
    uint64_bind (by omega) (by omega), uint64_bind (by omega) (by omega)]
  rfl

include hacc in
/-- The symbols of the parity and of the accumulator. -/
theorem symbol_checked_eq {r c : Nat} (hr : r < req.npar.toNat) (hc : c < req.S) :
    symbol_checked req r c = some ((r * req.S + c : Nat) : Int) := by
  have hlt := plane_index_lt hr hc
  have hcap := hacc.cap
  rw [CtdbReq.fix_cap] at hcap
  have hplane : (r : Int) * req.S = (r * req.S : Nat) := rfl
  have hsum : ((r * req.S : Nat) : Int) + c = (r * req.S + c : Nat) := rfl
  have hholds : CType.uint64.holds ((r * req.S + c : Nat) : Int) := ⟨by omega, by omega⟩
  unfold symbol_checked
  rw [hplane, uint64_bind (by omega) (by omega), hsum, CType.check, if_pos hholds]

include hacc hb in
/-- The words of a column. -/
theorem word_checked_eq {c p : Nat} (hc : c < req.S) (hp : p < req.sc) :
    word_checked req c p = some (req.word c p : Int) := by
  have hle := row_le hp
  have horigin := origin_checked_eq hb
  have hfits := hacc.fits
  have hfirst := hacc.first_nonneg
  have hfirst_eq : req.first = req.base + req.S + req.delta := rfl
  obtain ⟨hS, hbase, hW, hdlo, hdhi, -, -, hwords, hregion, -⟩ := hb
  have hrow : (p : Int) * req.S = (p * req.S : Nat) := rfl
  have hword : (req.base : Int) + req.S + c + (p * req.S : Nat) + req.delta = (req.word c p : Nat) := by
    have hnonneg : 0 ≤ (req.base : Int) + req.S + c + (p * req.S : Nat) + req.delta := by omega
    exact (Int.toNat_of_nonneg hnonneg).symm
  have hholds : CType.uint64.holds (req.word c p : Nat) := ⟨by omega, by omega⟩
  unfold word_checked
  rw [horigin, Option.bind_some, long_bind (by omega) (by omega), hrow, long_bind (by omega) (by omega),
    long_bind (by omega) (by omega), long_bind (by omega) (by omega), hword, CType.check, if_pos hholds]

include hb in
/-- The CRC's length. -/
theorem crc_checked_eq : crc_checked req = some (((req.sc * req.S : Nat) : Int),
    ((req.sc * req.S * 2 : Nat) : Int)) := by
  obtain ⟨-, -, hW, -, -, -, -, -, hregion, -⟩ := hb
  have hwords : (req.sc : Int) * req.S = (req.sc * req.S : Nat) := rfl
  unfold crc_checked
  rw [hwords, uint64_bind (by omega) (by omega), uint64_bind (by omega) (by omega)]
  rfl

end

/-! ## Safety -/

/-- No intermediate overflows: the arithmetic in its types goes through, with the values the passes use. -/
structure GeometrySafe (req : CtdbReq) : Prop where
  checks : geometry_checked req = some ⟨req.S, req.base, req.W, req.delta, req.parity_bytes.toNat, req.sc,
    (req.base + req.W : Nat), req.first, req.last, req.fix_cap⟩
  row : ∀ j < req.sc, row_checked req j = some (((req.first.toNat + j * req.S : Nat) : Int),
    ((req.S * 2 : Nat) : Int))
  symbol : ∀ r < req.npar.toNat, ∀ c < req.S, symbol_checked req r c = some ((r * req.S + c : Nat) : Int)
  word : ∀ c < req.S, ∀ p < req.sc, word_checked req c p = some (req.word c p : Int)
  crc : crc_checked req = some (((req.sc * req.S : Nat) : Int), ((req.sc * req.S * 2 : Nat) : Int))

/-- The sweep of the request. -/
abbrev request_sweep (kernel : Kernel) (m : Mem) (req : CtdbReq) (acc : Nat → Gf16) : SweepState :=
  adsc_ctdb_sweep kernel m req.pcm req.first.toNat req.S req.sc req.npar.toNat acc

/-- What the passes compute comes from their arrays only, and what they write lies in them: `m'` and
`acc'` are any memory and accumulator that agree with `m` and `acc` there. -/
structure PassesSafe (req : CtdbReq) (out_pcm : Nat) : Prop where
  sweep_reads : ∀ kernel m m' acc acc', SameBytes m m' req.pcm (2 * req.pcm_words) →
    (∀ i < req.S * req.npar.toNat, acc' i = acc i) →
    (request_sweep kernel m' req acc').crc = (request_sweep kernel m req acc).crc ∧
      ∀ i < req.S * req.npar.toNat, (request_sweep kernel m' req acc').acc i =
        (request_sweep kernel m req acc).acc i
  sweep_writes : ∀ kernel m acc i, req.S * req.npar.toNat ≤ i →
    (request_sweep kernel m req acc).acc i = acc i
  error_reads : ∀ m m' acc acc', SameBytes m m' req.parity req.parity_bytes.toNat →
    (∀ i < req.S * req.npar.toNat, acc' i = acc i) → ∀ c < req.S, ∀ r < req.npar.toNat,
    column_error m' req acc' c r = column_error m req acc c r
  scan_words : ∀ m m', (∀ w < req.pcm_words, erased m' req w = erased m req w) → ∀ c < req.S,
    erasure_scan m' req c = erasure_scan m req c
  scan_bytes : ∀ m m', SameBytes m m' req.pcm_erasures req.pcm_erasures_bytes.toNat → ∀ c < req.S,
    erasure_scan m' req c = erasure_scan m req c
  scan_length : ∀ m c, (erasure_scan m req c).length ≤ req.npar.toNat + 1
  column_reads : ∀ m m' acc acc', SameColumns req m m' acc acc' → ∀ c < req.S, ∀ st,
    ctdb_column m' req acc' st c = ctdb_column m req acc st c
  -- no column leaves the loop, and what it holds fits and lies in the PCM
  fixes : ∀ m acc, ∀ n ≤ req.S, ∃ st,
    (List.range n).foldlM (ctdb_column m req acc) ⟨[], 0, 0, 0, 0, 0⟩ = .ok st ∧
      st.fixes.length ≤ req.fix_cap ∧ ∀ f ∈ st.fixes, f.1 < req.pcm_words
  writes : ∀ m acc st, (List.range req.S).foldlM (ctdb_column m req acc) ⟨[], 0, 0, 0, 0, 0⟩ = .ok st →
    ∀ m' a, a < out_pcm ∨ out_pcm + 2 * req.pcm_words ≤ a → ctdb_apply m' out_pcm st.fixes a = m' a

/-- The same of a whole call: it reads the arrays of the request and writes the output. -/
structure CallSafe (req : CtdbReq) (out_pcm : Nat) (report : Option CtdbReport) : Prop where
  reads : ∀ kernel m m', SameArrays req m m' →
    (ctdb_run kernel m' req out_pcm report).1 = (ctdb_run kernel m req out_pcm report).1 ∧
    (ctdb_run kernel m' req out_pcm report).2.2 = (ctdb_run kernel m req out_pcm report).2.2 ∧
    (0 ≤ (ctdb_run kernel m req out_pcm report).1 → SameBytes (ctdb_run kernel m req out_pcm report).2.1
      (ctdb_run kernel m' req out_pcm report).2.1 out_pcm req.pcm_bytes.toNat)
  writes : ∀ kernel m a, a < out_pcm ∨ out_pcm + req.pcm_bytes.toNat ≤ a →
    (ctdb_run kernel m req out_pcm report).2.1 a = m a

section
variable {req : CtdbReq} {m : Mem} {acc : Nat → Gf16} {n : Nat}

/-- The corrections of the first `n` columns. -/
theorem gathered (hacc : Accepted req) (hn : n ≤ req.S) :
    ∃ st, (List.range n).foldlM (ctdb_column m req acc) ⟨[], 0, 0, 0, 0, 0⟩ = .ok st ∧
      st.fixes.length ≤ req.fix_cap ∧ ∀ f ∈ st.fixes, f.1 < req.pcm_words := by
  obtain ⟨st, hst, hinv⟩ := pass2_inv_le hn
  refine ⟨st, hst, ?_, fun f hf => ?_⟩
  · rw [hinv.fixes]
    exact (length_fixes_le m req acc n).trans (Nat.mul_le_mul_right _ hn)
  · rw [hinv.fixes] at hf
    obtain ⟨c, hc, hf⟩ := List.mem_flatMap.1 hf
    have hc' : c < req.S := (List.mem_range.1 hc).trans_le hn
    exact fix_lt hacc (List.mem_flatMap.2 ⟨c, List.mem_range.2 hc', hf⟩)

theorem passes_safe (hacc : Accepted req) (hb : GeometryBounds req) (out_pcm : Nat) :
    PassesSafe req out_pcm where
  sweep_reads kernel m m' acc acc' hpcm hsame :=
    adsc_ctdb_sweep_congr hacc.fits hacc.npar_le hpcm hsame kernel
  sweep_writes kernel m acc i hi := adsc_ctdb_sweep_frame m hacc.npar_pos hi hacc.npar_le kernel acc
  error_reads m m' acc acc' hparity hsame c hc r hr := column_error_congr hb.blob hparity hsame hc hr
  scan_words m m' h c hc := erasure_scan_congr hacc hc fun _ => h
  scan_bytes m m' h c hc := erasure_scan_congr hacc hc fun he w hw => erased_congr (hb.bitmap he) h hw
  scan_length m c := by
    rw [erasure_scan_eq, List.length_take]
    exact Nat.min_le_left _ _
  column_reads m m' acc acc' h c hc st := ctdb_column_congr hacc hb.blob hb.bitmap h hc st
  fixes m acc n hn := gathered hacc hn
  writes m acc st hst m' a ha := by
    obtain ⟨st', hst', -, hlt⟩ := @gathered req m acc _ hacc (Nat.le_refl _)
    rw [hst] at hst'
    cases hst'
    exact ctdb_apply_outside hlt ha m'

end

/-- **Index safety**: for a request that is not refused no intermediate of the geometry overflows, and the
passes and the call as a whole read and write inside their arrays. -/
theorem ctdb_index_safety {req : CtdbReq} {out_pcm : Nat} {report : Option CtdbReport}
    (h : ctdb_validate req out_pcm report = .ok ()) :
    GeometrySafe req ∧ PassesSafe req out_pcm ∧ CallSafe req out_pcm report := by
  have hacc := accepted_of_validate h
  have hb := bounds_of_validate h
  refine ⟨⟨geometry_checked_eq hacc hb, fun j hj => row_checked_eq hacc hb hj, fun r hr c hc =>
    symbol_checked_eq hacc hr hc, fun c hc p hp => word_checked_eq hacc hb hc hp, crc_checked_eq hb⟩,
    passes_safe hacc hb out_pcm, ?_, fun kernel m a ha => ctdb_run_outside hacc kernel out_pcm report ha⟩
  exact fun kernel m m' hsame => ctdb_run_congr hacc hb.blob hb.bitmap hsame kernel out_pcm report

/-- A flipped bit in one frame, with noise below the arrays. -/
theorem ctdb_index_safety_oneFrame :
    let noisy : Mem := fun a => if a < 10000 then 0xFF else oneBit a
    geometry_checked oneFrame = some ⟨392, 0, 1176, 0, 1568, 1, 1176, 392, 783, 784⟩ ∧
    (ctdb_run scalarEnv.kernel noisy oneFrame oneFrame.pcm none).1 =
      (ctdb_run scalarEnv.kernel oneBit oneFrame oneFrame.pcm none).1 ∧
    (ctdb_run scalarEnv.kernel noisy oneFrame oneFrame.pcm none).2.1 9999 = 0xFF := by
  intro noisy
  have hvalid : ctdb_validate oneFrame oneFrame.pcm none = .ok () := by decide +kernel
  obtain ⟨hgeometry, -, hcall⟩ := ctdb_index_safety hvalid
  have habove : ∀ a, 10000 ≤ a → noisy a = oneBit a := fun a ha => if_neg (by omega)
  have hsame : SameArrays oneFrame oneBit noisy :=
    ⟨fun i _ => habove _ (by simp only [oneFrame]; omega), fun i _ =>
      habove _ (by simp only [oneFrame]; omega),
      fun h => absurd (show oneFrame.pcm_erasures = 0 from rfl) h⟩
  refine ⟨hgeometry.checks.trans (by decide +kernel), (hcall.reads scalarEnv.kernel _ _ hsame).1, ?_⟩
  exact hcall.writes scalarEnv.kernel noisy 9999 (.inl (by decide))

end Accudisc
