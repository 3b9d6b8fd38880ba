import Accudisc.Lib.BerlekampMassey
import Mathlib.Algebra.Polynomial.Derivative
import Mathlib.Algebra.Polynomial.Eval.Degree
import Mathlib.LinearAlgebra.Lagrange

/-!
# Error locators over a field

For a finite set `J` of positions with locators `x j` and magnitudes `y j`, the syndromes are the
power sums `∑ y j * x j ^ r` (`powerSum`), the locator polynomial is `∏ (1 - x j X)` (`locator`)
and the evaluator is what the key equation leaves (`evaluator`, `dvd_locator_mul_series`).

* `forney`: the magnitude at `j` from the evaluator and the locator's derivative.
* `powerSum_inj`: as many syndromes as positions determine the magnitudes.
* `coeff_locator_mul_series`: multiplying the series by the locator of some of the positions leaves
  the power sums of the others, reweighted.
* `KeyEq.eq_locator`: a recurrence no longer than the number of positions that generates twice as
  many power sums is the locator; so `massey_locator`, what Berlekamp-Massey finds.
-/

namespace ErrorLocator

open Polynomial Finset Massey

variable {F : Type*} [Field F] {ι : Type*}

/-- The locator polynomial of the positions `J`. -/
noncomputable def locator (J : Finset ι) (x : ι → F) : F[X] := ∏ j ∈ J, (1 - C (x j) * X)

/-- The `r`-th power sum of the locators, weighted with the magnitudes. -/
def powerSum (J : Finset ι) (x y : ι → F) (r : ℕ) : F := ∑ j ∈ J, y j * x j ^ r

/-- The polynomial whose first `n` coefficients are those of `s`. -/
noncomputable def series (s : ℕ → F) (n : ℕ) : F[X] := ∑ r ∈ range n, C (s r) * X ^ r

theorem coeff_series (s : ℕ → F) (n k : ℕ) :
    (series s n).coeff k = if k < n then s k else 0 := by
  simp [series, coeff_C_mul, coeff_X_pow]

/-! ## The locator -/

theorem natDegree_factor_le (c : F) : (1 - C c * X : F[X]).natDegree ≤ 1 :=
  (natDegree_sub_le _ _).trans (max_le (by simp) (natDegree_C_mul_le c X |>.trans natDegree_X_le))

theorem natDegree_locator_le (J : Finset ι) (x : ι → F) : (locator J x).natDegree ≤ J.card := by
  refine (natDegree_prod_le _ _).trans ?_
  calc ∑ j ∈ J, (1 - C (x j) * X : F[X]).natDegree ≤ ∑ _j ∈ J, 1 :=
        sum_le_sum fun j _ => natDegree_factor_le (x j)
    _ = J.card := by simp

theorem eval_locator (J : Finset ι) (x : ι → F) (a : F) :
    (locator J x).eval a = ∏ j ∈ J, (1 - x j * a) := by
  simp [locator, eval_prod]

theorem coeff_zero_locator (J : Finset ι) (x : ι → F) : (locator J x).coeff 0 = 1 := by
  rw [coeff_zero_eq_eval_zero, eval_locator]; simp

theorem coeff_card_locator (J : Finset ι) (x : ι → F) :
    (locator J x).coeff J.card = ∏ j ∈ J, (-x j) := by
  rw [locator]
  have h := coeff_prod_of_natDegree_le J (fun j => (1 - C (x j) * X : F[X])) 1
    fun j _ => natDegree_factor_le (x j)
  rw [mul_one] at h
  rw [h]
  exact prod_congr rfl fun j _ => by simp [coeff_one]

theorem coeff_card_locator_ne_zero {J : Finset ι} {x : ι → F} (h0 : ∀ j ∈ J, x j ≠ 0) :
    (locator J x).coeff J.card ≠ 0 := by
  rw [coeff_card_locator]
  exact prod_ne_zero_iff.2 fun j hj => neg_ne_zero.2 (h0 j hj)

theorem locator_union [DecidableEq ι] {J K : Finset ι} (h : Disjoint J K) (x : ι → F) :
    locator (J ∪ K) x = locator J x * locator K x := prod_union h

theorem eval_inv_locator {J : Finset ι} {x : ι → F} {a : F} (ha : a ≠ 0) :
    (locator J x).eval a⁻¹ = 0 ↔ ∃ j ∈ J, x j = a := by
  rw [eval_locator, prod_eq_zero_iff]
  refine exists_congr fun j => and_congr_right fun _ => ?_
  rw [sub_eq_zero, eq_comm, mul_inv_eq_one₀ ha]

/-! ## The key equation -/

/-- A geometric series times its factor. -/
theorem factor_mul_series (c : F) (n : ℕ) :
    (1 - C c * X) * series (fun r => c ^ r) n = 1 - C (c ^ n) * X ^ n := by
  induction n with
  | zero => simp [series]
  | succ n ih =>
    rw [series, sum_range_succ, ← series, mul_add, ih]
    simp only [C_pow]
    ring

theorem series_powerSum (J : Finset ι) (x y : ι → F) (n : ℕ) :
    series (powerSum J x y) n = ∑ j ∈ J, C (y j) * series (fun r => x j ^ r) n := by
  simp only [series, powerSum, map_sum, sum_mul, mul_sum]
  rw [sum_comm]
  exact sum_congr rfl fun j _ => sum_congr rfl fun r _ => by rw [C_mul, mul_assoc]

/-- Past its degree, a polynomial times a geometric series is its value at the inverse ratio. -/
theorem coeff_mul_series {p : F[X]} {a : F} (ha : a ≠ 0) {k n : ℕ} (hp : p.natDegree ≤ k)
    (hk : k < n) : (p * series (fun r => a ^ r) n).coeff k = a ^ k * p.eval a⁻¹ := by
  rw [coeff_mul, Finset.Nat.sum_antidiagonal_eq_sum_range_succ
    (fun i j => p.coeff i * (series (fun r => a ^ r) n).coeff j),
    eval_eq_sum_range' (n := k + 1) (by omega), mul_sum]
  refine sum_congr rfl fun i hi => ?_
  have hi := mem_range.1 hi
  rw [coeff_series, if_pos (by omega), inv_pow, ← pow_sub_mul_pow a (show i ≤ k by omega)]
  field_simp

/-- **Modified syndromes**: past the degree of `p`, the series of the power sums times `p` has the
power sums with the magnitudes weighted by the values of `p` at the inverse locators. -/
theorem coeff_mul_series_powerSum {J : Finset ι} {x : ι → F} (h0 : ∀ j ∈ J, x j ≠ 0) (y : ι → F)
    {p : F[X]} {k n : ℕ} (hp : p.natDegree ≤ k) (hk : k < n) :
    (p * series (powerSum J x y) n).coeff k =
      powerSum J x (fun j => y j * p.eval (x j)⁻¹) k := by
  rw [series_powerSum, mul_sum, finsetSum_coeff, powerSum]
  refine sum_congr rfl fun j hj => ?_
  rw [mul_left_comm, coeff_C_mul, coeff_mul_series (h0 j hj) hp hk]
  ring

variable [DecidableEq ι]

/-- The evaluator polynomial of the positions `J`. -/
noncomputable def evaluator (J : Finset ι) (x y : ι → F) : F[X] :=
  ∑ j ∈ J, C (y j) * locator (J.erase j) x

theorem locator_eq_erase {J : Finset ι} {j : ι} (hj : j ∈ J) (x : ι → F) :
    locator J x = (1 - C (x j) * X) * locator (J.erase j) x := (mul_prod_erase J _ hj).symm

theorem degree_evaluator_lt (J : Finset ι) (x y : ι → F) :
    (evaluator J x y).degree < (J.card : WithBot ℕ) := by
  refine (degree_sum_le _ _).trans_lt ((Finset.sup_lt_iff (WithBot.bot_lt_coe _)).2 fun j hj => ?_)
  refine lt_of_le_of_lt degree_le_natDegree ?_
  have h := (natDegree_C_mul_le (y j) _).trans (natDegree_locator_le (J.erase j) x)
  rw [card_erase_of_mem hj] at h
  have := card_pos.2 ⟨j, hj⟩
  exact_mod_cast (by omega : (C (y j) * locator (J.erase j) x).natDegree < J.card)

/-- **The key equation**: the locator turns the syndrome series into the evaluator. -/
theorem dvd_locator_mul_series (J : Finset ι) (x y : ι → F) (n : ℕ) :
    X ^ n ∣ locator J x * series (powerSum J x y) n - evaluator J x y := by
  rw [series_powerSum, mul_sum, evaluator, ← sum_sub_distrib]
  refine dvd_sum fun j hj => ?_
  refine ⟨-(C (y j * x j ^ n) * locator (J.erase j) x), ?_⟩
  have h := factor_mul_series (x j) n
  rw [locator_eq_erase hj, C_mul]
  linear_combination C (y j) * locator (J.erase j) x * h

/-! ## Magnitudes -/

section
variable {J : Finset ι} {x : ι → F} (hx : Set.InjOn x J) (h0 : ∀ j ∈ J, x j ≠ 0)
include hx h0

theorem eval_erase_ne_zero {j : ι} (hj : j ∈ J) : (locator (J.erase j) x).eval (x j)⁻¹ ≠ 0 := by
  intro h
  obtain ⟨i, hi, hij⟩ := (eval_inv_locator (h0 j hj)).1 h
  rw [mem_erase] at hi
  exact hi.1 (hx hi.2 hj hij)

omit hx in
theorem eval_evaluator (y : ι → F) {j : ι} (hj : j ∈ J) :
    (evaluator J x y).eval (x j)⁻¹ = y j * (locator (J.erase j) x).eval (x j)⁻¹ := by
  rw [evaluator, eval_finsetSum, sum_eq_single j]
  · simp
  · intro i hi hij
    have : (locator (J.erase i) x).eval (x j)⁻¹ = 0 :=
      (eval_inv_locator (h0 j hj)).2 ⟨j, mem_erase.2 ⟨hij.symm, hj⟩, rfl⟩
    simp [this]
  · exact fun h => absurd hj h

omit hx in
theorem eval_derivative_locator {j : ι} (hj : j ∈ J) :
    (derivative (locator J x)).eval (x j)⁻¹ = -x j * (locator (J.erase j) x).eval (x j)⁻¹ := by
  rw [locator_eq_erase hj, derivative_mul, eval_add, eval_mul, eval_mul]
  have h1 : (1 - C (x j) * X : F[X]).eval (x j)⁻¹ = 0 := by simp [mul_inv_cancel₀ (h0 j hj)]
  rw [h1, zero_mul, add_zero]
  simp

theorem eval_derivative_ne_zero {j : ι} (hj : j ∈ J) :
    (derivative (locator J x)).eval (x j)⁻¹ ≠ 0 := by
  rw [eval_derivative_locator h0 hj]
  exact mul_ne_zero (neg_ne_zero.2 (h0 j hj)) (eval_erase_ne_zero hx h0 hj)

/-- **Forney's formula.** -/
theorem forney (y : ι → F) {j : ι} (hj : j ∈ J) :
    -x j * ((evaluator J x y).eval (x j)⁻¹ / (derivative (locator J x)).eval (x j)⁻¹) = y j := by
  have hne := eval_erase_ne_zero hx h0 hj
  have hxj := h0 j hj
  rw [eval_evaluator h0 y hj, eval_derivative_locator h0 hj, mul_div_mul_right _ _ hne, neg_mul,
    mul_div_assoc', div_neg, neg_neg, mul_div_cancel_left₀ _ hxj]

/-- As many power sums as positions determine the magnitudes. -/
theorem powerSum_inj {y : ι → F} {n : ℕ} (hn : J.card ≤ n)
    (hy : ∀ r < n, powerSum J x y r = 0) : ∀ j ∈ J, y j = 0 := by
  have hs : series (powerSum J x y) n = 0 :=
    sum_eq_zero fun r hr => by rw [hy r (mem_range.1 hr)]; simp
  have hd := dvd_locator_mul_series J x y n
  rw [hs, mul_zero, zero_sub, dvd_neg] at hd
  have he := eq_zero_of_X_pow_dvd hd
    ((degree_evaluator_lt J x y).trans_le (by exact_mod_cast hn))
  intro j hj
  have h := eval_evaluator h0 y hj
  rw [he, eval_zero, eq_comm, mul_eq_zero] at h
  exact h.resolve_right (eval_erase_ne_zero hx h0 hj)

/-! ## What Berlekamp-Massey finds -/

omit hx h0 in
theorem keyEq_locator (y : ι → F) (n : ℕ) :
    KeyEq (series (powerSum J x y) n) n (locator J x) J.card where
  coeff_zero := coeff_zero_locator J x
  natDegree_le := natDegree_locator_le J x
  exists_eval := ⟨evaluator J x y, degree_evaluator_lt J x y, dvd_locator_mul_series J x y n⟩

/-- **Uniqueness of the locator** among the recurrences no longer than the number of positions. -/
theorem KeyEq.eq_locator {y : ι → F} (hy : ∀ j ∈ J, y j ≠ 0) {n L : ℕ} {A : F[X]}
    (hn : 2 * J.card ≤ n) (hL : L ≤ J.card) (hA : KeyEq (series (powerSum J x y) n) n A L) :
    A = locator J x := by
  obtain ⟨W, hW, hd⟩ := hA.exists_eval
  have hcross : A * evaluator J x y = locator J x * W :=
    Massey.KeyEq.cross (by omega) hA.natDegree_le hW hd (natDegree_locator_le J x)
      (degree_evaluator_lt J x y) (dvd_locator_mul_series J x y n)
  -- both have constant term 1 and the roots of the locator
  have hroot : ∀ j ∈ J, A.eval (x j)⁻¹ = 0 := by
    intro j hj
    have h := congrArg (eval (x j)⁻¹) hcross
    rw [eval_mul, eval_mul, (eval_inv_locator (h0 j hj)).2 ⟨j, hj, rfl⟩, zero_mul,
      eval_evaluator h0 y hj, mul_eq_zero] at h
    exact h.resolve_right (mul_ne_zero (hy j hj) (eval_erase_ne_zero hx h0 hj))
  classical
  have hinj : Set.InjOn (fun j => (x j)⁻¹) J := fun i hi j hj h => hx hi hj (inv_injective h)
  have hcard : (insert 0 (J.image fun j => (x j)⁻¹)).card = J.card + 1 := by
    rw [card_insert_of_notMem, card_image_of_injOn hinj]
    intro h
    obtain ⟨j, hj, h⟩ := mem_image.1 h
    exact h0 j hj (inv_eq_zero.1 h)
  refine eq_of_natDegree_lt_card_of_eval_eq' A (locator J x)
    (insert 0 (J.image fun j => (x j)⁻¹)) (fun a ha => ?_) ?_
  · rcases mem_insert.1 ha with rfl | ha
    · rw [← coeff_zero_eq_eval_zero, ← coeff_zero_eq_eval_zero, hA.coeff_zero, coeff_zero_locator]
    · obtain ⟨j, hj, rfl⟩ := mem_image.1 ha
      rw [hroot j hj, (eval_inv_locator (h0 j hj)).2 ⟨j, hj, rfl⟩]
  · rw [hcard]
    exact Nat.lt_succ_of_le (max_le (hA.natDegree_le.trans hL) (natDegree_locator_le J x))

/-- **Berlekamp-Massey finds the locator** from twice as many power sums as positions. -/
theorem massey_locator {y : ι → F} (hy : ∀ j ∈ J, y j ≠ 0) {n : ℕ} (hn : 2 * J.card ≤ n)
    {st : Massey.State F} (hst : Massey.Inv (series (powerSum J x y) n) n st) :
    st.C = locator J x ∧ st.L = J.card := by
  have hL : st.L ≤ J.card := hst.minimal (keyEq_locator y n)
  have hC := KeyEq.eq_locator hx h0 hy hn hL hst.key
  refine ⟨hC, Nat.le_antisymm hL ?_⟩
  have hdeg := hst.key.natDegree_le
  rw [hC] at hdeg
  exact (le_natDegree_of_ne_zero (coeff_card_locator_ne_zero h0)).trans hdeg

end

end ErrorLocator
