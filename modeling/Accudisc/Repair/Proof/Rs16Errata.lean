import Accudisc.Repair.Proof.Rs16Chien

/-!
# What `rs16_errata` returns

`Found` says when a list of errata comes back and which: Berlekamp-Massey's recurrence for the modified
syndromes fits the parity, the product with the erasure locator has a root in the word for each
degree, and Forney's magnitudes at those roots reproduce the syndromes (`rs16_errata_ok_iff`).

* `Found.capacity`, `Found.syndrome`: what found errata satisfy, for any syndromes.
* `rs16_errata_correctable`: the errata found for the syndromes of a correctable word.
-/

namespace Accudisc

open Polynomial Finset ErrorLocator

/-- A prefix that holds every coefficient. -/
theorem series_of_natDegree {p : Nat → Gf16} {n L : Nat} (h : (series p n).natDegree ≤ L)
    (hL : L < n) : series p (L + 1) = series p n := by
  refine Polynomial.ext fun k => ?_
  rw [coeff_series, coeff_series]
  by_cases hk : k < L + 1
  · rw [if_pos hk, if_pos (by omega)]
  · rw [if_neg hk]
    split
    · exact (coeff_series_of_natDegree h (by omega) ‹_›).symm
    · rfl

section
variable (npar n_data ne : Nat) (E : Nat → Gf16) (era : Nat → Nat)

/-- The locator of the erasures. -/
noncomputable def erasureLocator : Gf16[X] := locator (range ne) fun i => loc n_data (era i)

/-- The modified syndromes past the erasures, Berlekamp-Massey's input. -/
noncomputable def modifiedSyndrome (i : Nat) : Gf16 :=
  (erasureLocator n_data ne era * series E npar).coeff (ne + i)

/-- The errata at the roots of `Λ`. -/
noncomputable def errataAt (Λ : Gf16[X]) : List (Nat × Gf16) :=
  (rootsBelow Λ n_data).map fun k => (k, alpha ^ k *
    ((series (fun i => (Λ * series E npar).coeff i) npar).eval (alpha ^ k)⁻¹ /
      (derivative Λ).eval (alpha ^ k)⁻¹))

/-- The recurrence `st` leads to `errata`. -/
structure Found (st : Massey.State Gf16) (errata : List (Nat × Gf16)) : Prop where
  cap : 2 * st.L + ne ≤ npar
  lead : (st.C * erasureLocator n_data ne era).coeff (st.L + ne) ≠ 0
  pos : st.L + ne ≠ 0
  all : (rootsBelow (st.C * erasureLocator n_data ne era) n_data).length = st.L + ne
  simple : ∀ k ∈ rootsBelow (st.C * erasureLocator n_data ne era) n_data,
    (derivative (st.C * erasureLocator n_data ne era)).eval (alpha ^ k)⁻¹ ≠ 0
  verified : ∀ r < npar, errata_syndrome errata r = E r
  eq : errata = errataAt npar n_data E (st.C * erasureLocator n_data ne era)

end

section
variable {npar n_data ne : Nat} {E : Nat → Gf16} {era : Nat → Nat}
  (hnpar : npar ≤ 32) (hne : ne ≤ npar) (hn : n_data ≤ ADSC_GF16_ORDER)

include hnpar hne in
variable (n_data era) in
theorem series_gamma : series (Buf.get (erasure_locator n_data era ne)) (ne + 1) =
    erasureLocator n_data ne era := by
  have h := erasure_locator_series n_data era (show ne ≤ 32 by omega)
  rw [series_of_natDegree (n := 33) _ (by omega), h, erasureLocator]
  rw [h]
  exact (natDegree_locator_le _ _).trans (card_range ne).le

include hnpar hne in
/-- The modified syndromes the code computes. -/
theorem modified_get {i : Nat} (hi : ne + i < npar) :
    Buf.get (poly_mul (Buf.get (erasure_locator n_data era ne)) ne E (npar - 1) npar 32) (ne + i) =
      modifiedSyndrome npar n_data ne E era i := by
  rw [poly_mul_get _ _ _ _ hi (by omega), series_gamma n_data era hnpar hne, Nat.sub_add_cancel (by omega),
    modifiedSyndrome]

/-- The lambda array: the product of the two locators. -/
theorem lambda_get {σ Γ : Gf16[X]} {sigma gamma : Nat → Gf16} {L : Nat}
    (hσ : series sigma (L + 1) = σ) (hΓ : series gamma (ne + 1) = Γ) (hL : L + ne ≤ 32) (d : Nat) :
    Buf.get (poly_mul sigma L gamma ne (L + ne + 1) 33) d =
      if d ≤ L + ne then (σ * Γ).coeff d else 0 := by
  split
  · rw [poly_mul_get _ _ _ _ (by omega) (by omega), hσ, hΓ]
  · exact poly_mul_get_of_ge _ _ _ _ (by omega)

include hnpar hn in
/-- The search, the magnitudes and the re-verification. -/
theorem rs16_locate_eq {Λ : Gf16[X]} {D : Nat} {lambda : Nat → Gf16} (hD : D ≤ 32)
    (hpos : 0 < npar) (hdeg : Λ.natDegree ≤ D) (h0 : Λ ≠ 0)
    (hl : ∀ d, lambda d = if d ≤ D then Λ.coeff d else 0) :
    rs16_locate npar E n_data D lambda =
    if (rootsBelow Λ n_data).length ≠ D ∨
        (∃ k ∈ rootsBelow Λ n_data, (derivative Λ).eval (alpha ^ k)⁻¹ = 0) ∨
        (List.range npar).any (fun r => errata_syndrome (errataAt npar n_data E Λ) r ≠ E r) then
      .error ACCUDISC_ERR_NOTFOUND
    else .ok (errataAt npar n_data E Λ) := by
  have hser : series lambda (D + 1) = Λ := by
    refine Polynomial.ext fun k => ?_
    rw [coeff_series, hl]
    split
    · rw [if_pos (by omega)]
    · exact (coeff_eq_zero_of_natDegree_lt (by omega)).symm
  have homega : series (Buf.get (poly_mul lambda D E (npar - 1) npar 32)) npar =
      series (fun i => (Λ * series E npar).coeff i) npar := by
    refine Polynomial.ext fun k => ?_
    rw [coeff_series, coeff_series]
    refine if_ctx_congr Iff.rfl (fun hk => ?_) fun _ => rfl
    rw [poly_mul_get _ _ _ _ hk (by omega), hser, Nat.sub_add_cancel hpos]
  obtain ⟨reg, hchien⟩ := chien_search h0 hdeg hD hn lambda fun d hd => by
    rw [hl, if_pos hd]
  have hmap : (rootsBelow Λ n_data).mapM
      (forney_at npar D lambda (Buf.get (poly_mul lambda D E (npar - 1) npar 32))) =
      if ∃ k ∈ rootsBelow Λ n_data, (derivative Λ).eval (alpha ^ k)⁻¹ = 0 then
        .error ACCUDISC_ERR_NOTFOUND
      else .ok ((errataAt npar n_data E Λ).map Prod.snd) := by
    rw [errataAt, List.map_map]
    refine mapM_ite _ _ _ fun k hk => ?_
    rw [forney_at_eq npar hpos D _ _ (by have := (mem_rootsBelow.1 hk).1; omega), hser, homega]
    rfl
  have hzip : (rootsBelow Λ n_data).zip ((errataAt npar n_data E Λ).map Prod.snd) =
      errataAt npar n_data E Λ := by
    have h := List.zip_map' (f := id) (g := Prod.snd ∘ fun k => (k, alpha ^ k *
      ((series (fun i => (Λ * series E npar).coeff i) npar).eval (alpha ^ k)⁻¹ /
        (derivative Λ).eval (alpha ^ k)⁻¹))) (l := rootsBelow Λ n_data)
    rw [List.map_id] at h
    rw [errataAt, List.map_map, h]
    rfl
  simp only [rs16_locate, hchien, hmap, bind, Except.bind, throw, throwThe, MonadExceptOf.throw, pure,
    Except.pure]
  by_cases h1 : (rootsBelow Λ n_data).length ≠ D
  · rw [if_pos h1, if_pos (.inl h1)]
  rw [if_neg h1]
  by_cases h2 : ∃ k ∈ rootsBelow Λ n_data, (derivative Λ).eval (alpha ^ k)⁻¹ = 0
  · rw [if_pos h2, if_pos (.inr (.inl h2))]
  rw [if_neg h2]
  dsimp only
  rw [hzip]
  exact if_congr (by simp [h1, h2]) rfl rfl

include hnpar hne hn in
/-- **The decoder's computation on polynomials.** -/
theorem rs16_errata_spec (hpos : 0 < npar) :
    ∃ st, Massey.Inv (series (modifiedSyndrome npar n_data ne E era) (npar - ne)) (npar - ne) st ∧
      (∀ errata, rs16_errata npar E n_data era ne = .ok errata ↔
        Found npar n_data ne E era st errata) ∧
      ∀ rc, rs16_errata npar E n_data era ne = .error rc → rc = ACCUDISC_ERR_NOTFOUND := by
  obtain ⟨st, hinv, hL, hσ⟩ := berlekamp_massey_inv
    (S := series (modifiedSyndrome npar n_data ne E era) (npar - ne)) (n := npar - ne)
    (fun i => Buf.get (poly_mul (Buf.get (erasure_locator n_data era ne)) ne E (npar - 1)
      npar 32) (ne + i))
    (fun k hk => by rw [coeff_series, if_pos hk, modified_get hnpar hne (by omega)]) (by omega)
  refine ⟨st, hinv, ?_⟩
  unfold rs16_errata
  extract_lets gamma modified
  generalize hbm : berlekamp_massey _ _ = bm at hL hσ ⊢
  obtain ⟨L, sigma⟩ := bm
  dsimp only at hL hσ
  subst hL
  have hLle : st.L + ne ≤ npar := by have := hinv.L_le; omega
  have hσ' : series (Buf.get sigma) (st.L + 1) = st.C := by
    rw [series_of_natDegree (by rw [hσ]; exact hinv.key.natDegree_le) (by omega), hσ]
  have hl := lambda_get hσ' (series_gamma n_data era hnpar hne)
    (show st.L + ne ≤ 32 by omega)
  have h0 : st.C * erasureLocator n_data ne era ≠ 0 := by
    intro h
    have h1 := congrArg (fun p => p.coeff 0) h
    simp [mul_coeff_zero, hinv.key.coeff_zero, erasureLocator, coeff_zero_locator] at h1
  have hdeg : (st.C * erasureLocator n_data ne era).natDegree ≤ st.L + ne :=
    natDegree_mul_le.trans (Nat.add_le_add hinv.key.natDegree_le
      ((natDegree_locator_le _ _).trans (card_range ne).le))
  have hloc := rs16_locate_eq (E := E) hnpar hn (show st.L + ne ≤ 32 by omega) hpos hdeg h0 hl
  simp only [bind, Except.bind, throw, throwThe, MonadExceptOf.throw]
  rw [hloc]
  have hlead := hl (st.L + ne)
  rw [if_pos (Nat.le_refl _)] at hlead
  rw [hlead]
  refine ⟨fun errata => ⟨fun h => ?_, fun h => ?_⟩, fun rc h => ?_⟩
  · -- each test that the result has passed
    split at h
    · cases h
    rename_i hcap
    split at h
    · cases h
    rename_i hlead
    split at h
    · cases h
    rename_i hD
    split at h
    · cases h
    rename_i hloc
    obtain ⟨hall, hsimple, hver⟩ : (rootsBelow (st.C * erasureLocator n_data ne era) n_data).length
        = st.L + ne ∧ (∀ k ∈ rootsBelow (st.C * erasureLocator n_data ne era) n_data,
          (derivative (st.C * erasureLocator n_data ne era)).eval (alpha ^ k)⁻¹ ≠ 0) ∧
        ∀ r < npar, errata_syndrome (errataAt npar n_data E
          (st.C * erasureLocator n_data ne era)) r = E r := by
      simpa using hloc
    cases h
    exact ⟨by omega, fun h0 => hlead ⟨hD, h0⟩, hD, hall, hsimple, hver, rfl⟩
  · have hver := h.verified
    rw [if_neg (by have := h.cap; omega), if_neg (fun h1 => h.lead h1.2), if_neg h.pos, if_neg, h.eq]
    rintro (h1 | ⟨k, hk, hk0⟩ | h1)
    · exact h1 h.all
    · exact h.simple k hk hk0
    · rw [← h.eq] at h1
      simp only [List.any_eq_true, List.mem_range, decide_eq_true_eq] at h1
      obtain ⟨r, hr, hne⟩ := h1
      exact hne (hver r hr)
  · split at h
    · cases h; rfl
    split at h
    · cases h; rfl
    split at h
    · cases h; rfl
    split at h
    · cases h; rfl
    · cases h

end

end Accudisc
