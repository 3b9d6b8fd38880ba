import Accudisc.Repair.Proof.Rs16Decode

/-!
# `adsc_rs16_decode` is complete

The syndromes of a word within the capacity give the word's non-zero symbols back: Berlekamp-Massey
finds the locator of the errors outside the erasures (`massey_errors`), so the product has exactly
the errata as its roots (`rootsBelow_errata`) and Forney's formula gives their symbols.
-/

namespace Accudisc

open Polynomial Finset ErrorLocator

/-- The non-zero symbols of a word with their data indices. -/
def wordErrata (n_data : Nat) (err : Nat → Gf16) : List (Nat × Gf16) :=
  ((List.range n_data).filter fun j => err j ≠ 0).map fun j => (j, err j)

theorem mem_wordErrata {n_data : Nat} {err : Nat → Gf16} {e : Nat × Gf16} :
    e ∈ wordErrata n_data err ↔ e.1 < n_data ∧ err e.1 ≠ 0 ∧ e.2 = err e.1 := by
  simp only [wordErrata, List.mem_map, List.mem_filter, List.mem_range, decide_eq_true_eq]
  constructor
  · rintro ⟨j, ⟨hj, hne⟩, rfl⟩
    exact ⟨hj, hne, rfl⟩
  · rintro ⟨hj, hne, he⟩
    exact ⟨e.1, ⟨hj, hne⟩, Prod.ext rfl he.symm⟩

theorem asc_wordErrata (n_data : Nat) (err : Nat → Gf16) :
    (wordErrata n_data err).Pairwise fun a b => a.1 < b.1 := by
  rw [wordErrata, List.pairwise_map]
  exact List.pairwise_lt_range.filter _

/-- Ascending lists with the same members are equal. -/
theorem eq_of_asc {l m : List (Nat × Gf16)} (hl : l.Pairwise fun a b => a.1 < b.1)
    (hm : m.Pairwise fun a b => a.1 < b.1) (h : ∀ e, e ∈ l ↔ e ∈ m) : l = m := by
  have hnd : ∀ {l : List (Nat × Gf16)}, (l.Pairwise fun a b => a.1 < b.1) → l.Nodup :=
    fun hl => hl.imp fun {a b} hab h => by rw [h] at hab; exact absurd hab (Nat.lt_irrefl _)
  refine List.Perm.eq_of_pairwise (fun a b _ _ hab hba => absurd hab (Nat.lt_asymm hba)) hl hm ?_
  exact (List.perm_ext_iff_of_nodup (hnd hl) (hnd hm)).2 h

/-- The erasures as a set. -/
def erasureSet (era : Nat → Nat) (ne : Nat) : Finset Nat := (range ne).image era

/-- The errors outside the erasures. -/
def errorSet (n_data ne : Nat) (era : Nat → Nat) (err : Nat → Gf16) : Finset Nat :=
  (range n_data).filter fun j => err j ≠ 0 ∧ j ∉ erasureList era ne

/-- The positions that the decoder has to find. -/
def errataSet (n_data ne : Nat) (era : Nat → Nat) (err : Nat → Gf16) : Finset Nat :=
  errorSet n_data ne era err ∪ erasureSet era ne

/-- The errors' magnitudes in the modified syndromes. -/
noncomputable def modifiedErr (n_data ne : Nat) (era : Nat → Nat) (err : Nat → Gf16) (j : Nat) :
    Gf16 :=
  err j * (erasureLocator n_data ne era).eval (loc n_data j)⁻¹ * loc n_data j ^ ne

section
variable {npar n_data ne : Nat} {E : Nat → Gf16} {era : Nat → Nat} {err : Nat → Gf16}
  (hnpar : npar ≤ 32) (hn : n_data ≤ ADSC_GF16_ORDER)
  (hera : ∀ i < ne, era i < n_data) (hnd : (erasureList era ne).Nodup)
  (hE : ∀ r < npar, E r = ∑ j ∈ range n_data, err j * alpha ^ (r * (n_data - 1 - j)))
  (hcap : ne + 2 * (errorSet n_data ne era err).card ≤ npar)

theorem mem_erasureSet {j : Nat} : j ∈ erasureSet era ne ↔ j ∈ erasureList era ne := by
  simp [erasureSet, erasureList]

theorem errorSet_subset : errorSet n_data ne era err ⊆ range n_data := filter_subset _ _

theorem loc_ne_zero (n_data j : Nat) : loc n_data j ≠ 0 := alpha_pow_ne_zero _

include hn in
theorem loc_injOn : Set.InjOn (loc n_data) (range n_data) := by
  intro i hi j hj h
  rw [mem_coe, mem_range] at hi hj
  have := alpha_pow_inj (by omega) (by omega) h
  omega

include hera in
theorem erasureSet_subset : erasureSet era ne ⊆ range n_data := by
  intro j hj
  obtain ⟨i, hi, rfl⟩ := mem_image.1 hj
  exact mem_range.2 (hera i (mem_range.1 hi))

theorem disjoint_error_erasure :
    Disjoint (errorSet n_data ne era err) (erasureSet era ne) := by
  rw [disjoint_left]
  intro j hj hj'
  exact (mem_filter.1 hj).2.2 (mem_erasureSet.1 hj')

include hnd in
theorem erasure_injOn : Set.InjOn era (range ne) := by
  intro i hi j hj h
  rw [mem_coe, mem_range] at hi hj
  exact List.inj_on_of_nodup_map hnd (List.mem_range.2 hi) (List.mem_range.2 hj) h

include hnd in
theorem card_erasureSet : (erasureSet era ne).card = ne := by
  rw [erasureSet, card_image_of_injOn (erasure_injOn hnd), card_range]

include hnd in
theorem erasureLocator_eq :
    erasureLocator n_data ne era = locator (erasureSet era ne) (loc n_data) := by
  rw [erasureLocator, locator, locator, erasureSet, prod_image (erasure_injOn hnd)]

include hera in
theorem errataSet_subset : errataSet n_data ne era err ⊆ range n_data :=
  union_subset (filter_subset _ _) (erasureSet_subset hera)

theorem mem_errataSet_of_ne_zero {j : Nat} (hj : j < n_data) (h : err j ≠ 0) :
    j ∈ errataSet n_data ne era err := by
  rw [errataSet, mem_union, mem_erasureSet]
  by_cases he : j ∈ erasureList era ne
  · exact .inr he
  · exact .inl (mem_filter.2 ⟨mem_range.2 hj, h, he⟩)

include hera hE in
/-- The syndromes are the power sums of the errata. -/
theorem syndrome_eq_powerSum {r : Nat} (hr : r < npar) :
    E r = powerSum (errataSet n_data ne era err) (loc n_data) err r := by
  rw [hE r hr, powerSum, ← sum_subset (@errataSet_subset _ _ _ err hera)]
  · refine sum_congr rfl fun j _ => ?_
    rw [loc, ← pow_mul, Nat.mul_comm]
  · intro j hj hj'
    have h0 : err j = 0 := by
      by_contra h
      exact hj' (mem_errataSet_of_ne_zero (mem_range.1 hj) h)
    rw [h0, zero_mul]

include hera hE in
theorem series_syndrome : series E npar =
    series (powerSum (errataSet n_data ne era err) (loc n_data) err) npar := by
  refine Polynomial.ext fun k => ?_
  rw [coeff_series, coeff_series]
  exact if_ctx_congr Iff.rfl (fun hk => syndrome_eq_powerSum hera hE hk) fun _ => rfl

include hera hE hnd in
/-- The modified syndromes are power sums of the errors alone. -/
theorem modifiedSyndrome_eq {i : Nat} (hi : ne + i < npar) :
    modifiedSyndrome npar n_data ne E era i =
      powerSum (errorSet n_data ne era err) (loc n_data) (modifiedErr n_data ne era err) i := by
  have hdeg : (erasureLocator n_data ne era).natDegree ≤ ne + i :=
    ((natDegree_locator_le _ _).trans (card_range ne).le).trans (Nat.le_add_right _ _)
  rw [modifiedSyndrome, series_syndrome hera hE,
    coeff_mul_series_powerSum (fun j _ => loc_ne_zero n_data j) err hdeg hi, powerSum, powerSum,
    errataSet, sum_union disjoint_error_erasure, add_eq_left.2]
  · refine sum_congr rfl fun j _ => ?_
    rw [modifiedErr, pow_add, mul_assoc, mul_assoc, mul_assoc]
  · -- the locator vanishes at the erasures
    refine sum_eq_zero fun j hj => ?_
    rw [erasureLocator_eq hnd, (eval_inv_locator (loc_ne_zero n_data j)).2 ⟨j, hj, rfl⟩, mul_zero,
      zero_mul]

include hn hnd hera in
theorem modifiedErr_ne_zero {j : Nat} (hj : j ∈ errorSet n_data ne era err) :
    modifiedErr n_data ne era err j ≠ 0 := by
  obtain ⟨hjn, hje, hj'⟩ := mem_filter.1 hj
  refine mul_ne_zero (mul_ne_zero hje fun h => ?_) (pow_ne_zero _ (loc_ne_zero n_data j))
  rw [erasureLocator_eq hnd] at h
  obtain ⟨i, hi, hij⟩ := (eval_inv_locator (loc_ne_zero n_data j)).1 h
  have := loc_injOn hn (erasureSet_subset hera hi) hjn hij
  exact hj' (mem_erasureSet.1 (this ▸ hi))

include hn hnd hera hE hcap in
/-- **Berlekamp-Massey finds the errors' locator.** -/
theorem massey_errors {st : Massey.State Gf16}
    (hst : Massey.Inv (series (modifiedSyndrome npar n_data ne E era) (npar - ne)) (npar - ne) st) :
    st.C = locator (errorSet n_data ne era err) (loc n_data) ∧
      st.L = (errorSet n_data ne era err).card := by
  have hs : series (modifiedSyndrome npar n_data ne E era) (npar - ne) =
      series (powerSum (errorSet n_data ne era err) (loc n_data) (modifiedErr n_data ne era err))
        (npar - ne) := by
    refine Polynomial.ext fun k => ?_
    rw [coeff_series, coeff_series]
    exact if_ctx_congr Iff.rfl (fun hk => modifiedSyndrome_eq hera hnd hE (by omega)) fun _ => rfl
  rw [hs] at hst
  have hinj : Set.InjOn (loc n_data) (errorSet n_data ne era err) :=
    (loc_injOn hn).mono (coe_subset.2 errorSet_subset)
  have hlen : 2 * (errorSet n_data ne era err).card ≤ npar - ne := by omega
  exact massey_locator hinj (fun j _ => loc_ne_zero n_data j)
    (fun j hj => modifiedErr_ne_zero hn hera hnd hj) hlen hst

/-! ## The errata -/

include hnd in
theorem locator_errataSet :
    locator (errorSet n_data ne era err) (loc n_data) * erasureLocator n_data ne era =
      locator (errataSet n_data ne era err) (loc n_data) := by
  rw [erasureLocator_eq hnd, errataSet, locator_union disjoint_error_erasure]

include hnd in
theorem card_errataSet :
    (errataSet n_data ne era err).card = (errorSet n_data ne era err).card + ne := by
  rw [errataSet, card_union_of_disjoint disjoint_error_erasure, card_erasureSet hnd]

include hn hera in
theorem mem_rootsBelow_errata {k : Nat} :
    k ∈ rootsBelow (locator (errataSet n_data ne era err) (loc n_data)) n_data ↔
      k < n_data ∧ n_data - 1 - k ∈ errataSet n_data ne era err := by
  rw [mem_rootsBelow]
  refine and_congr_right fun hk => ?_
  have hkey : loc n_data (n_data - 1 - k) = alpha ^ k := by
    rw [loc, show n_data - 1 - (n_data - 1 - k) = k by omega]
  rw [IsRoot, eval_inv_locator (alpha_pow_ne_zero k), ← hkey]
  constructor
  · rintro ⟨j, hj, h⟩
    rw [loc_injOn hn (errataSet_subset hera hj) (mem_range.2 (by omega)) h] at hj
    exact hj
  · exact fun h => ⟨_, h, rfl⟩

include hn hera in
/-- The errata are the roots, read from the end of the word. -/
theorem rootsBelow_toFinset :
    (rootsBelow (locator (errataSet n_data ne era err) (loc n_data)) n_data).toFinset =
      (errataSet n_data ne era err).image fun j => n_data - 1 - j := by
  ext k
  rw [List.mem_toFinset, mem_rootsBelow_errata hn hera, mem_image]
  constructor
  · exact fun h => ⟨_, h.2, by omega⟩
  · rintro ⟨j, hj, rfl⟩
    have := mem_range.1 (errataSet_subset hera hj)
    refine ⟨by omega, ?_⟩
    rwa [show n_data - 1 - (n_data - 1 - j) = j by omega]

include hera in
theorem reflect_injOn : Set.InjOn (fun j => n_data - 1 - j) (errataSet n_data ne era err) := by
  intro i hi j hj h
  have := mem_range.1 (errataSet_subset hera hi)
  have := mem_range.1 (errataSet_subset hera hj)
  dsimp only at h
  omega

include hn hera in
theorem length_rootsBelow_errata :
    (rootsBelow (locator (errataSet n_data ne era err) (loc n_data)) n_data).length =
      (errataSet n_data ne era err).card := by
  rw [← List.toFinset_card_of_nodup (nodup_rootsBelow _ _), rootsBelow_toFinset hn hera,
    card_image_of_injOn (reflect_injOn hera)]

include hera hnd hE hcap in
/-- The evaluator the code computes. -/
theorem series_evaluator :
    series (fun i => (locator (errataSet n_data ne era err) (loc n_data) * series E npar).coeff i)
      npar = evaluator (errataSet n_data ne era err) (loc n_data) err := by
  have hd := dvd_locator_mul_series (errataSet n_data ne era err) (loc n_data) err npar
  rw [← series_syndrome hera hE] at hd
  have hdeg := degree_evaluator_lt (errataSet n_data ne era err) (loc n_data) err
  have hcard : (errataSet n_data ne era err).card ≤ npar := by
    rw [card_errataSet hnd]; omega
  refine Polynomial.ext fun k => ?_
  rw [coeff_series]
  split
  · rename_i hk
    have := X_pow_dvd_iff.1 hd k hk
    rwa [coeff_sub, sub_eq_zero] at this
  · exact ((degree_lt_iff_coeff_zero _ _).1 hdeg k (by omega)).symm

include hn hera hnd hE hcap in
/-- **Forney's magnitudes** are the word's symbols. -/
theorem errataAt_eq :
    errataAt npar n_data E (locator (errataSet n_data ne era err) (loc n_data)) =
      (rootsBelow (locator (errataSet n_data ne era err) (loc n_data)) n_data).map
        fun k => (k, err (n_data - 1 - k)) := by
  rw [errataAt, series_evaluator hera hnd hE hcap]
  refine List.map_congr_left fun k hk => ?_
  obtain ⟨hk, hj⟩ := (mem_rootsBelow_errata hn hera).1 hk
  have hkey : loc n_data (n_data - 1 - k) = alpha ^ k := by
    rw [loc, show n_data - 1 - (n_data - 1 - k) = k by omega]
  have h := forney ((loc_injOn hn).mono (coe_subset.2 (errataSet_subset hera)))
    (fun j _ => loc_ne_zero n_data j) err hj
  rw [hkey, CharTwo.neg_eq] at h
  rw [h]

include hn hera hE in
/-- The word's symbols at the roots reproduce the syndromes. -/
theorem errata_syndrome_roots {r : Nat} (hr : r < npar) :
    errata_syndrome ((rootsBelow (locator (errataSet n_data ne era err) (loc n_data)) n_data).map
      fun k => (k, err (n_data - 1 - k))) r = E r := by
  rw [errata_syndrome_eq, List.map_map, syndrome_eq_powerSum hera hE hr, powerSum,
    ← List.sum_toFinset _ (nodup_rootsBelow _ _), rootsBelow_toFinset hn hera,
    sum_image (reflect_injOn hera)]
  refine sum_congr rfl fun j hj => ?_
  have := mem_range.1 (errataSet_subset hera hj)
  simp only [Function.comp]
  rw [show n_data - 1 - (n_data - 1 - j) = j by omega, loc, ← pow_mul, Nat.mul_comm]

include hn hera hnd hE hcap in
/-- **The decoder finds the word's errata.** -/
theorem found_word (hne0 : ∃ r < npar, E r ≠ 0) {st : Massey.State Gf16}
    (hst : Massey.Inv (series (modifiedSyndrome npar n_data ne E era) (npar - ne)) (npar - ne) st) :
    Found npar n_data ne E era st
      ((rootsBelow (locator (errataSet n_data ne era err) (loc n_data)) n_data).map
        fun k => (k, err (n_data - 1 - k))) := by
  obtain ⟨hC, hL⟩ := massey_errors hn hera hnd hE hcap hst
  have hΛ : st.C * erasureLocator n_data ne era =
      locator (errataSet n_data ne era err) (loc n_data) := by rw [hC, locator_errataSet hnd]
  have hcard : st.L + ne = (errataSet n_data ne era err).card := by rw [hL, card_errataSet hnd]
  refine ⟨by omega, ?_, ?_, ?_, ?_, fun r hr => errata_syndrome_roots hn hera hE hr, ?_⟩
  · rw [hΛ, hcard]
    exact coeff_card_locator_ne_zero fun j _ => loc_ne_zero n_data j
  · -- with no errata the syndromes would be zero
    rw [hcard]
    intro h0
    obtain ⟨r, hr, hne⟩ := hne0
    rw [syndrome_eq_powerSum hera hE hr, card_eq_zero.1 h0, powerSum, sum_empty] at hne
    exact hne rfl
  · rw [hΛ, hcard, length_rootsBelow_errata hn hera]
  · rw [hΛ]
    intro k hk
    obtain ⟨hk, hj⟩ := (mem_rootsBelow_errata hn hera).1 hk
    have h := eval_derivative_ne_zero
      ((loc_injOn hn).mono (coe_subset.2 (errataSet_subset hera)))
      (fun j _ => loc_ne_zero n_data j) hj
    rwa [loc, show n_data - 1 - (n_data - 1 - k) = k by omega] at h
  · rw [hΛ, errataAt_eq hn hera hnd hE hcap]

include hn hera in
/-- What the output loop writes for them. -/
theorem nonzeroErrata_word :
    nonzeroErrata n_data ((rootsBelow (locator (errataSet n_data ne era err) (loc n_data))
      n_data).map fun k => (k, err (n_data - 1 - k))).reverse = wordErrata n_data err := by
  refine eq_of_asc (asc_nonzeroErrata (fun k => err (n_data - 1 - k))
    (List.pairwise_lt_range.filter _) fun k => rootsBelow_lt) (asc_wordErrata n_data err)
    fun e => ?_
  rw [mem_nonzeroErrata, mem_wordErrata]
  constructor
  · rintro ⟨k, hk, hne, rfl⟩
    have := rootsBelow_lt hk
    exact ⟨by dsimp only; omega, hne, rfl⟩
  · rintro ⟨hlt, hne, he⟩
    have hk : n_data - 1 - (n_data - 1 - e.1) = e.1 := by omega
    refine ⟨n_data - 1 - e.1, (mem_rootsBelow_errata hn hera).2 ⟨by omega, ?_⟩, ?_, ?_⟩
    · rw [hk]
      exact mem_errataSet_of_ne_zero hlt hne
    · rwa [hk]
    · rw [hk, ← he]

include hn hera hnd hE hcap in
/-- Only the zero word has zero syndromes. -/
theorem word_eq_zero (hz : ∀ r < npar, E r = 0) {j : Nat} (hj : j < n_data) : err j = 0 := by
  by_contra h
  have hcard : (errataSet n_data ne era err).card ≤ npar := by
    rw [card_errataSet hnd]; omega
  refine h (powerSum_inj ((loc_injOn hn).mono (coe_subset.2 (errataSet_subset hera)))
    (fun j _ => loc_ne_zero n_data j) hcard (fun r hr => ?_) j (mem_errataSet_of_ne_zero hj h))
  rw [← syndrome_eq_powerSum hera hE hr, hz r hr]

end

section
variable {npar n_data ne : Nat} {E : Nat → Gf16} {erasures : Option (Nat → Nat)} {err : Nat → Gf16}
  (hargs : DecodeArgs npar n_data erasures ne)
  (hnd : (erasureList (erasure_at erasures) ne).Nodup)
  (hE : ∀ r < npar, E r = ∑ j ∈ range n_data, err j * alpha ^ (r * (n_data - 1 - j)))
  (hcap : ne + 2 * (errorSet n_data ne (erasure_at erasures) err).card ≤ npar)

include hargs hnd hE hcap in
/-- **Completeness**: the decoder returns the word's non-zero symbols. -/
theorem adsc_rs16_decode_word (pos : Nat → Nat) (val : Nat → Gf16) {out_cap : Nat}
    (hout : (wordErrata n_data err).length ≤ out_cap) :
    adsc_rs16_decode npar (some E) n_data erasures ne (some pos) (some val) out_cap =
      (((wordErrata n_data err).length : Int),
        some (writeList ((wordErrata n_data err).map Prod.fst) pos),
        some (writeList ((wordErrata n_data err).map Prod.snd) val)) := by
  rw [adsc_rs16_decode_eq, if_neg (not_not.2 hargs)]
  obtain ⟨hpos, hnpar, -, hn, -, hera⟩ := hargs
  by_cases hz : ∀ r < npar, E r = 0
  · have hnil : wordErrata n_data err = [] := List.eq_nil_iff_forall_not_mem.2 fun e he => by
      obtain ⟨hlt, hne, -⟩ := mem_wordErrata.1 he
      exact hne (word_eq_zero hn hera hnd hE hcap hz hlt)
    rw [if_pos hz, hnil]
    rfl
  · have hne : ne ≤ npar := by omega
    obtain ⟨st, hst, hfound, -⟩ :=
      @rs16_errata_spec _ _ _ E (erasure_at erasures) hnpar hne hn hpos
    have hok := (hfound _).2 (found_word hn hera hnd hE hcap (by simpa using hz) hst)
    rw [if_neg hz, if_neg (Nat.not_lt.2 hne), if_neg (not_not.2 hnd), hok]
    dsimp only
    rw [nonzeroErrata_word hn hera, if_neg (Nat.not_lt.2 hout)]

end

/-! ## Syndromes of a word -/

theorem rs16_syndrome_eq (v : Nat → Gf16) (n r : Nat) :
    rs16_syndrome v n r = ∑ j ∈ range n, v j * alpha ^ (r * (n - 1 - j)) := by
  rw [rs16_syndrome, Loop.foldl_range_add (fun j => v j * alpha ^ (r * (n - 1 - j))), zero_add]
  intro j _ a
  by_cases hv : v j = 0
  · simp [hv]
  · by_cases hr : r = 0
    · simp [hv, hr]
    · simp [hv, hr]

/-- **From a received word to its errors**: the syndromes that the code computes of a codeword with errors
in it decode to these errors, within the capacity. -/
theorem adsc_rs16_syndromes_decode {npar n_data ne out_cap : Nat} {erasures : Option (Nat → Nat)}
    {code err : Nat → Gf16} (hargs : DecodeArgs npar n_data erasures ne)
    (hnd : (erasureList (erasure_at erasures) ne).Nodup)
    (hcode : ∀ r < npar, rs16_syndrome code n_data r = 0)
    (hcap : ne + 2 * (errorSet n_data ne (erasure_at erasures) err).card ≤ npar)
    (syn : Nat → Gf16) (pos : Nat → Nat) (val : Nat → Gf16)
      (hout : (wordErrata n_data err).length ≤ out_cap) :
    ∃ E, adsc_rs16_syndromes (some fun j => code j + err j) n_data npar (some syn) = (ACCUDISC_OK, some E) ∧
      adsc_rs16_decode npar (some E) n_data erasures ne (some pos) (some val) out_cap =
        (((wordErrata n_data err).length : Int),
          some (writeList ((wordErrata n_data err).map Prod.fst) pos),
          some (writeList ((wordErrata n_data err).map Prod.snd) val)) := by
  have hpos := hargs.npar_pos
  have hdata := hargs.data_pos
  refine ⟨fun r => if r < npar then rs16_syndrome (fun j => code j + err j) n_data r else syn r, ?_,
    adsc_rs16_decode_word hargs hnd (fun r hr => ?_) hcap pos val hout⟩
  · unfold adsc_rs16_syndromes
    simp only
    rw [if_neg (by have := hargs.data_le; omega), if_neg (by have := hargs.npar_le; omega)]
  · have hzero := hcode r hr
    rw [rs16_syndrome_eq] at hzero
    rw [if_pos hr, rs16_syndrome_eq]
    simp only [add_mul, Finset.sum_add_distrib, hzero, zero_add]

theorem length_wordErrata (n_data : Nat) (err : Nat → Gf16) :
    (wordErrata n_data err).length = ((range n_data).filter fun j => err j ≠ 0).card := by
  rw [wordErrata, List.length_map, ← List.toFinset_card_of_nodup (List.nodup_range.filter _),
    List.toFinset_filter, List.toFinset_range]
  simp

/-- **Errors-and-erasures completeness**: the syndromes of a word with `e` erasures and `t` errors
outside them decode, for `e + 2 t ≤ npar`, to the word's non-zero symbols in ascending order. -/
theorem adsc_rs16_decode_complete {npar n_data nerasures out_cap : Nat}
    {erasures : Option (Nat → Nat)} {err E : Nat → Gf16}
    (hargs : DecodeArgs npar n_data erasures nerasures)
    (hdistinct : ∀ i < nerasures, ∀ j < nerasures, erasure_at erasures i = erasure_at erasures j →
      i = j)
    (hE : ∀ r < npar, E r = ∑ j ∈ range n_data, err j * alpha ^ (r * (n_data - 1 - j)))
    (hcap : nerasures + 2 * ((range n_data).filter fun j =>
      err j ≠ 0 ∧ ∀ i < nerasures, erasure_at erasures i ≠ j).card ≤ npar)
    (hout : ((range n_data).filter fun j => err j ≠ 0).card ≤ out_cap)
    (positions : Nat → Nat) (values : Nat → Gf16) :
    ∃ (n : Nat) (positions' : Nat → Nat) (values' : Nat → Gf16),
      adsc_rs16_decode npar (some E) n_data erasures nerasures (some positions) (some values)
        out_cap = ((n : Int), some positions', some values') ∧
      n = ((range n_data).filter fun j => err j ≠ 0).card ∧
      (∀ i j, i < j → j < n → positions' i < positions' j) ∧
      (∀ j, (∃ i < n, positions' i = j) ↔ j < n_data ∧ err j ≠ 0) ∧
      ∀ i < n, values' i = err (positions' i) := by
  have hnd : (erasureList (erasure_at erasures) nerasures).Nodup := by
    refine (List.nodup_map_iff_inj_on List.nodup_range).2 fun i hi j hj h => ?_
    exact hdistinct i (List.mem_range.1 hi) j (List.mem_range.1 hj) h
  have hset : errorSet n_data nerasures (erasure_at erasures) err = (range n_data).filter
      fun j => err j ≠ 0 ∧ ∀ i < nerasures, erasure_at erasures i ≠ j := by
    refine filter_congr fun j _ => and_congr_right fun _ => ?_
    simp [mem_erasureList]
  rw [← length_wordErrata] at hout
  refine ⟨_, _, _, adsc_rs16_decode_word hargs hnd hE (by rwa [hset]) positions values hout,
    length_wordErrata n_data err, fun i j hij hj => ?_, fun j => ?_, fun i hi => ?_⟩
  · rw [writeList_fst positions (hij.trans hj), writeList_fst positions hj]
    exact mem_asc_getElem (asc_wordErrata n_data err) hij hj
  · constructor
    · rintro ⟨i, hi, rfl⟩
      rw [writeList_fst positions hi]
      obtain ⟨hlt, hne, -⟩ := mem_wordErrata.1 (List.getElem_mem hi)
      exact ⟨hlt, hne⟩
    · rintro ⟨hlt, hne⟩
      obtain ⟨i, hi, h⟩ := List.getElem_of_mem
        (mem_wordErrata.2 ⟨hlt, hne, rfl⟩ : (j, err j) ∈ wordErrata n_data err)
      exact ⟨i, hi, by rw [writeList_fst positions hi, h]⟩
  · rw [writeList_fst positions hi, writeList_snd values hi]
    exact (mem_wordErrata.1 (List.getElem_mem hi)).2.2

/-- A word of three symbols with one error. -/
def oneError (j : Nat) : Gf16 := if j = 1 then ⟨5#16⟩ else 0

/-- With its intact first symbol erased. -/
theorem adsc_rs16_decode_complete_three :
    ∃ (n : Nat) (positions' : Nat → Nat) (values' : Nat → Gf16),
      adsc_rs16_decode 3 (some fun r => ∑ j ∈ range 3, oneError j * alpha ^ (r * (3 - 1 - j))) 3
        (some fun _ => 0) 1 (some fun _ => 0) (some fun _ => 0) 1 =
          ((n : Int), some positions', some values') ∧
      n = ((range 3).filter fun j => oneError j ≠ 0).card ∧
      (∀ i j, i < j → j < n → positions' i < positions' j) ∧
      (∀ j, (∃ i < n, positions' i = j) ↔ j < 3 ∧ oneError j ≠ 0) ∧
      ∀ i < n, values' i = oneError (positions' i) :=
  adsc_rs16_decode_complete
    ⟨by decide, by decide, by decide, by decide, fun _ => rfl, fun _ _ => Nat.zero_lt_succ 2⟩
    (fun i hi j hj _ => by omega) (fun _ _ => rfl) (by decide) (by decide) _ _

end Accudisc
