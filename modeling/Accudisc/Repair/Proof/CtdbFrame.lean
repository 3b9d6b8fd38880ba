import Accudisc.Repair.Proof.Ctdb

/-!
# What the repair reads and writes

Two runs of a pass whose memories agree on the request's arrays agree (`adsc_ctdb_sweep_congr`,
`ctdb_column_congr`, `repaired_congr`), so a pass reads nothing else that counts. What a pass writes is
framed (`adsc_ctdb_sweep_frame`, `ctdb_apply_outside`, `repaired_outside`).
-/

namespace Accudisc

/-! ## Agreement -/

/-- The memories agree on the `n` bytes at `p`. -/
def SameBytes (m m' : Mem) (p n : Nat) : Prop := ∀ i < n, m' (p + i) = m (p + i)

section
variable {m m' : Mem} {p n : Nat}

theorem SameBytes.mono (h : SameBytes m m' p n) {k : Nat} (hk : k ≤ n) : SameBytes m m' p k :=
  fun i hi => h i (hi.trans_le hk)

theorem SameBytes.load16 (h : SameBytes m m' p n) {w : Nat} (hw : 2 * w + 1 < n) :
    load16 m' (p + 2 * w) = load16 m (p + 2 * w) := by
  rw [Accudisc.load16, Accudisc.load16, h _ (by omega), Nat.add_assoc, h _ hw]

theorem SameBytes.wordAt {words : Nat} (h : SameBytes m m' p (2 * words)) {w : Nat} (hw : w < words) :
    wordAt m' p w = wordAt m p w :=
  congrArg symbol (h.load16 (by omega))

end

/-! ## Pass 1 -/

/-- The syndromes of a column depend on its own words. -/
theorem columnSyndrome_congr {x y : Nat → Gf16} {c S n : Nat} (h : ∀ j < n, y (c + j * S) = x (c + j * S))
    (r : Nat) : columnSyndrome y c S n r = columnSyndrome x c S n r :=
  Finset.sum_congr rfl fun j hj => by rw [h j (Finset.mem_range.1 hj)]

section
variable {m m' : Mem} {pcm first S sc npar words : Nat} {acc acc' : Nat → Gf16}
variable (hfit : first + sc * S ≤ words) (hnpar : npar ≤ 32) (hw : SameBytes m m' pcm (2 * words))
variable (hacc : ∀ i < S * npar, acc' i = acc i)

/-- An index of the accumulator is a column of a plane. -/
theorem plane_index {i : Nat} (hi : i < S * npar) : ∃ r < npar, ∃ c < S, i = r * S + c := by
  have hS : 0 < S := Nat.pos_of_ne_zero fun h => by simp [h] at hi
  exact ⟨i / S, Nat.div_lt_of_lt_mul hi, i % S, Nat.mod_lt i hS, (Nat.div_add_mod' i S).symm⟩

theorem plane_index_lt {r c : Nat} (hr : r < npar) (hc : c < S) : r * S + c < S * npar := by
  have h := Nat.mul_le_mul_right S (show r + 1 ≤ npar from hr)
  rw [Nat.succ_mul, Nat.mul_comm npar] at h
  omega

include hfit hw in
theorem column_words_congr {c : Nat} (hc : c < S) (r : Nat) :
    columnSyndrome (wordAt m' pcm) (first + c) S sc r = columnSyndrome (wordAt m pcm)
      (first + c) S sc r := by
  refine columnSyndrome_congr (fun j hj => hw.wordAt ?_) r
  have h := Nat.mul_le_mul_right S (show j + 1 ≤ sc from hj)
  rw [Nat.succ_mul] at h
  omega

include hfit hw in
theorem region_bytes_congr (crc : BitVec 32) : crcBytes m' crc (pcm + 2 * first) (sc * (S * 2)) =
    crcBytes m crc (pcm + 2 * first) (sc * (S * 2)) := by
  refine crcBytes_congr (fun i hi => ?_) crc
  have hspan : sc * (S * 2) = 2 * (sc * S) := by rw [← Nat.mul_assoc, Nat.mul_comm]
  rw [Nat.add_assoc]
  exact hw _ (by omega)

include hacc in
/-- The split form of a symbol of the accumulator comes from its own planes. -/
theorem planeSym_accBytes_congr {r c : Nat} (hr : r < npar) (hc : c < S) :
    planeSym (accBytes acc') S r c = planeSym (accBytes acc) S r c := by
  have hplane := Nat.mul_le_mul_right (2 * S) (show r + 1 ≤ npar from hr)
  have htotal : npar * (2 * S) = 2 * (S * npar) := by rw [Nat.mul_left_comm, Nat.mul_comm npar]
  rw [Nat.succ_mul] at hplane
  have hbyte : ∀ a < 2 * (S * npar), accBytes acc' a = accBytes acc a := fun a ha => by
    rw [accBytes, accBytes, hacc (a / 2) (by omega)]
  rw [planeSym, planeSym, hbyte _ (by omega), hbyte _ (by omega)]

include hfit hnpar hw hacc in
/-- **The sweep reads** words of the PCM and symbols of the accumulator only. -/
theorem adsc_ctdb_sweep_congr (k : Kernel) :
    (adsc_ctdb_sweep k m' pcm first S sc npar acc').crc =
      (adsc_ctdb_sweep k m pcm first S sc npar acc).crc ∧
    ∀ i < S * npar, (adsc_ctdb_sweep k m' pcm first S sc npar acc').acc i =
      (adsc_ctdb_sweep k m pcm first S sc npar acc).acc i := by
  unfold adsc_ctdb_sweep
  split
  · refine ⟨?_, fun i hi => ?_⟩
    · rw [sweep_avx2_crc _ _ _ _ hnpar, sweep_avx2_crc _ _ _ _ hnpar, region_bytes_congr hfit hw]
    · obtain ⟨r, hr, c, hc, rfl⟩ := plane_index hi
      rw [sweep_avx2_acc_from _ _ _ _ hnpar _ _ _ hr hc, sweep_avx2_acc_from _ _ _ _ hnpar _ _ _ hr hc,
        planeSym_accBytes_congr hacc hr hc, column_words_congr hfit hw hc]
  · refine ⟨?_, fun i hi => ?_⟩
    · rw [sweep_scalar_crc _ _ _ _ hnpar, sweep_scalar_crc _ _ _ _ hnpar, region_bytes_congr hfit hw]
    · obtain ⟨r, hr, c, hc, rfl⟩ := plane_index hi
      rw [sweep_scalar_acc_from _ _ _ _ hnpar _ _ hr hc, sweep_scalar_acc_from _ _ _ _ hnpar _ _ hr hc,
        hacc _ hi, column_words_congr hfit hw hc]

end

section
variable (m : Mem) {pcm first S sc npar i : Nat} (hpos : 0 < npar) (hi : S * npar ≤ i)
include hpos hi

theorem sweep_row_frame (v : Nat) (st : SweepState) (hnpar : npar ≤ 32) :
    (sweep_row m S npar v st).acc i = st.acc i := by
  rw [Nat.mul_comm] at hi
  have hplane : ∀ r < npar, ¬(r * S ≤ i ∧ i < r * S + S) := fun r hr h => by
    have hle := Nat.mul_le_mul_right S (show r + 1 ≤ npar from hr)
    rw [Nat.succ_mul] at hle
    omega
  refine Loop.foldl_range_inv (fun _ (acc : Nat → Gf16) => acc i = st.acc i) ?_ fun k hk acc h => ?_
  · have h0 := hplane 0 hpos
    rw [plane_xor_get, if_neg (by omega)]
  · rw [plane_step_get _ _ _ _ _ (show k + 1 < 65535 by omega), if_neg (hplane (k + 1) (by omega))]
    exact h

omit hi in
/-- The split kernel's bytes beyond its planes. -/
theorem split_sweep_row_frame (v : Nat) (st : SplitState) (hnpar : npar ≤ 32) {a : Nat}
    (ha : npar * (2 * S) ≤ a) :
    (split_sweep_row m S npar v st).alt a = st.alt a := by
  refine Loop.foldl_range_inv (fun _ (alt : Mem) => alt a = st.alt a) rfl fun r hr alt h => ?_
  have hle := Nat.mul_le_mul_right (2 * S) (show r + 1 ≤ npar from hr)
  rw [Nat.succ_mul] at hle
  have hord : r < 65535 := by omega
  rw [(@plane_split_spec m v S r alt _ (split_row_spec m v S st.scratch) hord).frame a (.inr (by omega))]
  exact h

theorem sweep_avx2_frame (hnpar : npar ≤ 32) (acc : Nat → Gf16) (scratch : Mem) :
    (sweep_avx2 m pcm first S sc npar acc scratch).acc i = acc i := by
  have htotal : npar * (2 * S) = 2 * (S * npar) := by rw [Nat.mul_left_comm, Nat.mul_comm npar]
  have hrows : ∀ a, npar * (2 * S) ≤ a → ((List.range sc).foldl
      (fun st j => split_sweep_row m S npar (pcm + 2 * (first + j * S)) st)
      (⟨accBytes acc, scratch, 0xFFFFFFFF#32⟩ : SplitState)).alt a = accBytes acc a := fun a ha =>
    Loop.foldl_range_inv (fun _ (st : SplitState) => st.alt a = accBytes acc a) rfl fun j _ st h =>
      (split_sweep_row_frame m hpos _ st hnpar ha).trans h
  have hback : ∀ (alt : Mem) a, npar * (2 * S) ≤ a →
      (List.range npar).foldl (fun alt r => unsplit_plane S r alt) alt a = alt a := fun alt a ha => by
    refine Loop.foldl_range_inv (fun _ (alt' : Mem) => alt' a = alt a) rfl fun r hr alt' h => ?_
    have hle := Nat.mul_le_mul_right (2 * S) (show r + 1 ≤ npar from hr)
    rw [Nat.succ_mul] at hle
    rw [(unsplit_plane_spec S r alt').2 a (.inr (by omega))]
    exact h
  have hlo : accBytes acc (2 * i) = (acc i).bits.setWidth 8 := by
    rw [accBytes, if_pos (by omega), Nat.mul_div_cancel_left i Nat.two_pos]
  have hhi : accBytes acc (2 * i + 1) = ((acc i).bits >>> 8).setWidth 8 := by
    rw [accBytes, if_neg (by omega), show (2 * i + 1) / 2 = i by omega]
  change symbol (load16 _ (2 * i)) = acc i
  rw [load16, hback _ _ (by omega), hback _ _ (by omega)]
  refine (congrArg symbol (congrArg₂ _ (hrows _ (by omega)) (hrows _ (by omega)))).trans ?_
  rw [hlo, hhi, append_bytes]
  rfl

/-- **The sweep writes** symbols of the accumulator only. -/
theorem adsc_ctdb_sweep_frame (hnpar : npar ≤ 32) (k : Kernel) (acc : Nat → Gf16) :
    (adsc_ctdb_sweep k m pcm first S sc npar acc).acc i = acc i := by
  unfold adsc_ctdb_sweep
  split
  · exact sweep_avx2_frame m hpos hi hnpar acc _
  · exact Loop.foldl_range_inv (fun _ (st : SweepState) => st.acc i = acc i) rfl fun j _ st h =>
      (sweep_row_frame m hpos hi _ st hnpar).trans h

end

/-! ## The decoder -/

theorem poly_mul_congr {a b b' : Nat → Gf16} {da db limit n : Nat} (h : ∀ j < limit, b' j = b j) :
    poly_mul a da b' db limit n = poly_mul a da b db limit n := by
  unfold poly_mul
  refine List.foldl_ext _ _ _ fun product i _ => ?_
  refine if_congr Iff.rfl rfl (List.foldl_ext _ _ _ fun product j hj => ?_)
  have := List.mem_range.1 hj
  rw [h j (by omega)]

section
variable {npar n_data : Nat} {E E' : Nat → Gf16} (hE : ∀ r < npar, E' r = E r)
include hE

theorem rs16_locate_congr (degree_lambda : Nat) (lambda : Nat → Gf16) :
    rs16_locate npar E' n_data degree_lambda lambda = rs16_locate npar E n_data degree_lambda lambda := by
  have hverify : ∀ errata : List (Nat × Gf16),
      (List.range npar).any (fun r => errata_syndrome errata r ≠ E' r) =
        (List.range npar).any (fun r => errata_syndrome errata r ≠ E r) := fun errata => by
    rw [Bool.eq_iff_iff, List.any_eq_true, List.any_eq_true]
    exact exists_congr fun r => and_congr_right fun hr => by rw [hE r (List.mem_range.1 hr)]
  unfold rs16_locate
  simp only [poly_mul_congr hE, hverify]

theorem rs16_errata_congr (era : Nat → Nat) (nerasures : Nat) :
    rs16_errata npar E' n_data era nerasures = rs16_errata npar E n_data era nerasures := by
  unfold rs16_errata
  simp only [poly_mul_congr hE, rs16_locate_congr hE]

theorem all_zero_congr : (List.range npar).all (fun r => E' r = 0) =
    (List.range npar).all (fun r => E r = 0) := by
  rw [Bool.eq_iff_iff, List.all_eq_true, List.all_eq_true]
  exact forall₂_congr fun r hr => by rw [hE r (List.mem_range.1 hr)]

/-- **The decoder reads** the `npar` syndromes only. -/
theorem adsc_rs16_decode_congr (erasures : Option (Nat → Nat)) (nerasures : Nat)
    (positions : Option (Nat → Nat))
    (values : Option (Nat → Gf16)) (out_cap : Nat) :
    adsc_rs16_decode npar (some E') n_data erasures nerasures positions values out_cap =
      adsc_rs16_decode npar (some E) n_data erasures nerasures positions values out_cap := by
  cases positions with
  | none => rfl
  | some pos =>
    cases values with
    | none => rfl
    | some val =>
      unfold adsc_rs16_decode
      simp only [all_zero_congr hE, rs16_errata_congr hE]

end

/-! ## Pass 2 -/

/-- What a column reads is the same. -/
structure SameColumns (req : CtdbReq) (m m' : Mem) (acc acc' : Nat → Gf16) : Prop where
  pcm : SameBytes m m' req.pcm (2 * req.pcm_words)
  parity : SameBytes m m' req.parity req.parity_bytes.toNat
  bitmap : req.pcm_erasures ≠ 0 → SameBytes m m' req.pcm_erasures req.pcm_erasures_bytes.toNat
  acc : ∀ i < req.S * req.npar.toNat, acc' i = acc i

section
variable {req : CtdbReq} {m m' : Mem} {acc acc' : Nat → Gf16}

theorem word_lt_pcm (hacc : Accepted req) {c p : Nat} (hc : c < req.S) (hp : p < req.sc) :
    req.word c p < req.pcm_words :=
  (word_lt hacc hc hp).trans_le hacc.fits

/-- **The erasure scan** asks about words of the PCM only. -/
theorem erasure_scan_congr (hacc : Accepted req) {c : Nat} (hc : c < req.S)
    (h : req.pcm_erasures ≠ 0 → ∀ w < req.pcm_words, erased m' req w = erased m req w) :
    erasure_scan m' req c = erasure_scan m req c := by
  unfold erasure_scan
  by_cases he : req.pcm_erasures = 0
  · rw [if_pos he, if_pos he]
  · rw [if_neg he, if_neg he]
    refine List.foldl_ext _ _ _ fun erasures p hp => ?_
    rw [h he _ (word_lt_pcm hacc hc (List.mem_range.1 hp))]

/-- The bits of the words of the PCM are in the bitmap. -/
theorem erased_congr (hbytes : (req.pcm_words + 7) / 8 ≤ req.pcm_erasures_bytes.toNat)
    (h : SameBytes m m' req.pcm_erasures req.pcm_erasures_bytes.toNat) {w : Nat} (hw : w < req.pcm_words) :
    erased m' req w = erased m req w := by
  rw [erased, erased, h _ (by omega)]

theorem column_error_congr (hblob : req.parity_bytes.toNat = req.S * req.npar.toNat * 2)
    (hparity : SameBytes m m' req.parity req.parity_bytes.toNat)
    (hsame : ∀ i < req.S * req.npar.toNat, acc' i = acc i) {c r : Nat} (hc : c < req.S)
    (hr : r < req.npar.toNat) : column_error m' req acc' c r = column_error m req acc c r := by
  have hlt := plane_index_lt hr hc
  rw [column_error, column_error, hsame _ hlt, hparity.load16 (by omega)]

theorem column_decode_congr {E E' : Nat → Gf16} (hE : ∀ r < req.npar.toNat, E' r = E r)
    (erasures : List Nat) :
    column_decode req E' erasures = column_decode req E erasures := by
  unfold column_decode
  rw [adsc_rs16_decode_congr hE]

/-- A decode's positions are rows. -/
theorem position_lt {E : Nat → Gf16} {erasures : List Nat} {i : Nat}
    (hi : i < (column_decode req E erasures).n.toNat) :
      (column_decode req E erasures).positions i < req.sc := by
  have hpos : 0 < (column_decode req E erasures).n := by omega
  exact (column_decode_spec E erasures hpos).lt _ (List.mem_map_of_mem (List.mem_range.2 hi))

/-- **The gather** reads the words of its decode's rows. -/
theorem ctdb_fix_congr (hacc : Accepted req) (h : SameBytes m m' req.pcm (2 * req.pcm_words)) {c : Nat}
    (hc : c < req.S) {d : ColumnDecode} {i : Nat} (hi : d.positions i < req.sc) (st : Pass2) :
    ctdb_fix m' req c d st i = ctdb_fix m req c d st i := by
  have hw := word_lt_pcm hacc hc hi
  rw [ctdb_fix, ctdb_fix, h.load16 (by omega)]

/-- **A column reads** the PCM, the parity, the bitmap and its symbols of the accumulator only. -/
theorem ctdb_column_congr (hacc : Accepted req)
    (hblob : req.parity_bytes.toNat = req.S * req.npar.toNat * 2)
    (hbitmap : req.pcm_erasures ≠ 0 → (req.pcm_words + 7) / 8 ≤ req.pcm_erasures_bytes.toNat)
    (h : SameColumns req m m' acc acc') {c : Nat} (hc : c < req.S) (st : Pass2) :
    ctdb_column m' req acc' st c = ctdb_column m req acc st c := by
  have hE : ∀ r < req.npar.toNat, column_error m' req acc' c r = column_error m req acc c r :=
    fun r hr => column_error_congr hblob h.parity h.acc hc hr
  have hscan : erasure_scan m' req c = erasure_scan m req c :=
    erasure_scan_congr hacc hc fun he w hw => erased_congr (hbitmap he) (h.bitmap he) hw
  have hloop : ∀ (E : Nat → Gf16) (erasures : List Nat) (st : Pass2),
      (List.range (column_decode req E erasures).n.toNat).foldlM
          (ctdb_fix m' req c (column_decode req E erasures)) st =
        (List.range (column_decode req E erasures).n.toNat).foldlM
          (ctdb_fix m req c (column_decode req E erasures)) st := fun E erasures st =>
    Loop.foldlM_range_congr st fun i hi st => ctdb_fix_congr hacc h.pcm hc (position_lt hi) st
  unfold ctdb_column
  simp only [all_zero_congr hE, column_decode_congr hE, hscan]
  by_cases hretry : (column_decode req (column_error m req acc c) (erasure_scan m req c)).n ≤ 0 ∧
      (erasure_scan m req c).length ≠ 0
  · simp only [if_pos hretry, hloop]
  · simp only [if_neg hretry, hloop]

end

/-! ## The call -/

/-- A stored word makes the memories agree where it lies, and leaves them as they are elsewhere. -/
theorem store16_congr {m m' : Mem} {a : Nat} (h : m' a = m a) (p : Nat) (x : BitVec 16) :
    store16 m' p x a = store16 m p x a := by
  simp only [store16, Function.update_apply, h]

theorem ctdb_apply_congr {m m' : Mem} {a : Nat} (h : m' a = m a) (out : Nat)
    (fixes : List (Nat × BitVec 16)) :
    ctdb_apply m' out fixes a = ctdb_apply m out fixes a := by
  induction fixes generalizing m m' with
  | nil => exact h
  | cons f fs ih => exact ih (store16_congr h _ _)

/-- **The write loop writes** the words it is given only. -/
theorem ctdb_apply_outside {fixes : List (Nat × BitVec 16)} {words out a : Nat}
    (hlt : ∀ f ∈ fixes, f.1 < words)
    (ha : a < out ∨ out + 2 * words ≤ a) (m : Mem) : ctdb_apply m out fixes a = m a := by
  induction fixes generalizing m with
  | nil => rfl
  | cons f fs ih =>
    have hf := hlt f List.mem_cons_self
    rw [ctdb_apply_cons, ih fun g hg => hlt g (List.mem_cons_of_mem f hg), store16,
      Function.update_of_ne (by omega), Function.update_of_ne (by omega)]

/-- The memories agree on the arrays of the request. -/
structure SameArrays (req : CtdbReq) (m m' : Mem) : Prop where
  pcm : SameBytes m m' req.pcm req.pcm_bytes.toNat
  parity : SameBytes m m' req.parity req.parity_bytes.toNat
  bitmap : req.pcm_erasures ≠ 0 → SameBytes m m' req.pcm_erasures req.pcm_erasures_bytes.toNat

section
variable {req : CtdbReq} {m m' : Mem}

theorem pcm_words_le : 2 * req.pcm_words ≤ req.pcm_bytes.toNat := by
  rw [CtdbReq.pcm_words]
  omega

theorem SameArrays.columns (h : SameArrays req m m') {acc acc' : Nat → Gf16}
    (hacc : ∀ i < req.S * req.npar.toNat, acc' i = acc i) : SameColumns req m m' acc acc' :=
  ⟨h.pcm.mono pcm_words_le, h.parity, h.bitmap, hacc⟩

/-- The corrections held are words of the PCM. -/
theorem fix_lt (hacc : Accepted req) {acc : Nat → Gf16} {f : Nat × BitVec 16}
    (hf : f ∈ allFixes m req acc) :
    f.1 < req.pcm_words := by
  obtain ⟨c, hc, e, he, rfl⟩ := mem_allFixes.1 hf
  exact word_lt_pcm hacc hc (lt_columnCorrections he)

theorem ctdb_copy_outside {out_pcm a : Nat} (ha : a < out_pcm ∨ out_pcm + req.pcm_bytes.toNat ≤ a) :
    ctdb_copy m req out_pcm a = m a := by
  unfold ctdb_copy
  split
  · exact if_neg (by omega)
  · rfl

/-- **The call writes** the output only. -/
theorem ctdb_run_outside (hacc : Accepted req) (kernel : Kernel) (out_pcm : Nat)
    (report : Option CtdbReport)
    {a : Nat} (ha : a < out_pcm ∨ out_pcm + req.pcm_bytes.toNat ≤ a) :
    (ctdb_run kernel m req out_pcm report).2.1 a = m a := by
  have hwords : 2 * req.pcm_words ≤ req.pcm_bytes.toNat := pcm_words_le
  obtain ⟨st, -, hrun⟩ := ctdb_run_eq hacc kernel (m := m) out_pcm report
  rw [hrun]
  by_cases hr : st.refused ≠ 0
  · rw [if_pos hr]
  · rw [if_neg hr]
    exact (ctdb_apply_outside (fun f hf => fix_lt hacc hf) (by omega) _).trans (ctdb_copy_outside ha)

/-- The output's CRC comes from the region's bytes. -/
theorem output_crc_congr (hacc : Accepted req) {p : Nat} (h : SameBytes m m' p req.pcm_bytes.toNat) :
    adsc_ctdb_crc32_words m' (p + 2 * req.first.toNat) (req.sc * req.S) =
      adsc_ctdb_crc32_words m (p + 2 * req.first.toNat) (req.sc * req.S) := by
  have hfits := hacc.fits
  have hwords : 2 * req.pcm_words ≤ req.pcm_bytes.toNat := pcm_words_le
  rw [crc32_words_eq, crc32_words_eq, regionCrc, regionCrc]
  refine congrArg (· ^^^ 0xFFFFFFFF#32) (crcBytes_congr (fun i hi => ?_) _)
  rw [Nat.add_assoc]
  exact h _ (by omega)

/-- **The call reads** the arrays of the request only. -/
theorem ctdb_run_congr (hacc : Accepted req) (hblob : req.parity_bytes.toNat = req.S * req.npar.toNat * 2)
    (hbitmap : req.pcm_erasures ≠ 0 → (req.pcm_words + 7) / 8 ≤ req.pcm_erasures_bytes.toNat)
    (h : SameArrays req m m') (kernel : Kernel) (out_pcm : Nat) (report : Option CtdbReport) :
    (ctdb_run kernel m' req out_pcm report).1 = (ctdb_run kernel m req out_pcm report).1 ∧
    (ctdb_run kernel m' req out_pcm report).2.2 = (ctdb_run kernel m req out_pcm report).2.2 ∧
    (0 ≤ (ctdb_run kernel m req out_pcm report).1 → SameBytes (ctdb_run kernel m req out_pcm report).2.1
      (ctdb_run kernel m' req out_pcm report).2.1 out_pcm req.pcm_bytes.toNat) := by
  obtain ⟨hcrc, hsame⟩ := @adsc_ctdb_sweep_congr m m' req.pcm req.first.toNat req.S req.sc req.npar.toNat
    req.pcm_words (fun _ => 0) (fun _ => 0) hacc.fits hacc.npar_le (h.pcm.mono pcm_words_le)
      (fun _ _ => rfl) kernel
  have hpass2 := fun st => @Loop.foldlM_range_congr _ _
    (ctdb_column m' req
      (adsc_ctdb_sweep kernel m' req.pcm req.first.toNat req.S req.sc req.npar.toNat fun _ => 0).acc)
    (ctdb_column m req
      (adsc_ctdb_sweep kernel m req.pcm req.first.toNat req.S req.sc req.npar.toNat fun _ => 0).acc)
    req.S st fun c hc st => ctdb_column_congr hacc hblob hbitmap (h.columns hsame) hc st
  have hout : ∀ fixes, SameBytes (ctdb_apply (ctdb_copy m req out_pcm) out_pcm fixes)
      (ctdb_apply (ctdb_copy m' req out_pcm) out_pcm fixes) out_pcm req.pcm_bytes.toNat := fun fixes i hi =>
    ctdb_apply_congr (by rw [ctdb_copy_byte _ _ _ hi, ctdb_copy_byte _ _ _ hi, h.pcm i hi]) _ _
  have hafter := fun fixes => output_crc_congr hacc (hout fixes)
  unfold ctdb_copy at hout hafter
  unfold ctdb_run
  dsimp only
  rw [hpass2, hcrc]
  cases hst : (List.range req.S).foldlM (ctdb_column m req _) ⟨[], 0, 0, 0, 0, 0⟩ with
  | error rc =>
    obtain ⟨st, hok, -⟩ := pass2_inv m req
      (adsc_ctdb_sweep kernel m req.pcm req.first.toNat req.S req.sc req.npar.toNat fun _ => 0).acc
    rw [hst] at hok
    cases hok
  | ok st =>
    dsimp only
    by_cases hr : st.refused ≠ 0
    · rw [if_pos hr, if_pos hr]
      exact ⟨rfl, rfl, fun h0 => absurd h0 (show ¬0 ≤ ACCUDISC_ERR_NOTFOUND by decide)⟩
    · rw [if_neg hr, if_neg hr, hafter]
      exact ⟨rfl, rfl, fun _ => hout st.fixes⟩

end

end Accudisc
