import Accudisc.Lib.ErrorLocator
import Accudisc.Lib.Loop
import Accudisc.Repair.Gf16Field
import Accudisc.Repair.Rs16

/-!
# The coefficient arrays are polynomials

`poly_mul`, `poly_eval` and `poly_deriv_eval` on coefficient arrays are the product, the value and
the derivative's value of the polynomials (`poly_mul_get`, `poly_eval_eq`, `poly_deriv_eval_eq`),
and the erasure loop builds the locator of the erasures (`erasure_locator_series`). The polynomial of
the first `n` entries of an array is `series`.
-/

namespace Accudisc

open Polynomial Finset ErrorLocator

instance : CharP Gf16 2 :=
  CharTwo.of_one_ne_zero_of_two_eq_zero one_ne_zero (by rw [← one_add_one_eq_two]; rfl)

/-! ## Products -/

/-- One row of the product loop. -/
theorem poly_mul_row {n : Nat} (a : Nat → Gf16) (b : Nat → Gf16) (i N k : Nat) (c : Buf Gf16 n) :
    Buf.get (if a i = 0 then c
      else (List.range N).foldl (fun product j => Buf.set product (i + j)
        (Buf.get product (i + j) ^^^ adsc_gf16_mul (a i) (b j))) c) k =
      Buf.get c k + if i ≤ k ∧ k - i < N ∧ k < n then a i * b (k - i) else 0 := by
  split
  · rename_i h; simp [h]
  · simp only [adsc_gf16_mul_eq, BinField.xor_eq_add]
    rw [Buf.get_foldl_add (fun j => if k = i + j ∧ k < n then a i * b j else 0)
      fun j _ c => Buf.get_set_add c (i + j) _ k]
    congr 1
    split
    · rename_i h
      rw [sum_eq_single (k - i)]
      · rw [if_pos ⟨by omega, h.2.2⟩]
      · exact fun j _ hj => if_neg fun h' => hj (by omega)
      · exact fun h' => absurd (mem_range.2 h.2.1) h'
    · rename_i h
      refine sum_eq_zero fun j hj => if_neg fun h' => h ?_
      have := mem_range.1 hj
      omega

/-- **The product loop**: the product's coefficients below `limit`. -/
theorem poly_mul_get (a : Nat → Gf16) (da : Nat) (b : Nat → Gf16) (db : Nat) {limit n k : Nat}
    (hk : k < limit) (hn : k < n) :
    Buf.get (poly_mul a da b db limit n) k =
      (series a (da + 1) * series b (db + 1)).coeff k := by
  unfold poly_mul
  rw [Buf.get_foldl_add (fun i => if i ≤ k ∧ k - i < min (db + 1) (limit - i) ∧ k < n
    then a i * b (k - i) else 0) fun i _ c => poly_mul_row a b i _ k c, Buf.get_zeros, zero_add,
    coeff_mul, Finset.Nat.sum_antidiagonal_eq_sum_range_succ
      (fun i j => (series a (da + 1)).coeff i * (series b (db + 1)).coeff j)]
  simp only [coeff_series]
  refine sum_congr_of_eq_on_inter (fun i _ hi => if_neg fun h => ?_) (fun i hi hi' => ?_)
    (fun i hi hi' => ?_)
  · exact hi (mem_range.2 (by omega))
  · rw [mem_range] at hi hi'
    rw [if_neg (by omega), zero_mul]
  · rw [mem_range] at hi hi'
    rw [if_pos (by omega : i < da + 1)]
    by_cases h : k - i < db + 1
    · rw [if_pos (by omega), if_pos h]
    · rw [if_neg (by omega), if_neg h, mul_zero]

theorem poly_mul_get_of_ge (a : Nat → Gf16) (da : Nat) (b : Nat → Gf16) (db : Nat)
    {limit n k : Nat} (hk : limit ≤ k) : Buf.get (poly_mul a da b db limit n) k = 0 := by
  unfold poly_mul
  rw [Buf.get_foldl_add (fun i => if i ≤ k ∧ k - i < min (db + 1) (limit - i) ∧ k < n
    then a i * b (k - i) else 0) fun i _ c => poly_mul_row a b i _ k c, Buf.get_zeros, zero_add]
  exact sum_eq_zero fun i _ => if_neg (by omega)

/-! ## Values -/

theorem series_succ (p : Nat → Gf16) (n : Nat) :
    series p (n + 1) = series p n + C (p n) * X ^ n := sum_range_succ _ n

theorem eval_series (p : Nat → Gf16) (n : Nat) (x : Gf16) :
    (series p n).eval x = ∑ i ∈ range n, p i * x ^ i := by
  simp [series, eval_finsetSum]

theorem poly_eval_eq (p : Nat → Gf16) (deg : Nat) (x : Gf16) :
    poly_eval p deg x = (series p (deg + 1)).eval x := by
  have key : ∀ (n : Nat) (a : Gf16),
      (List.range n).foldr (fun i acc => adsc_gf16_mul acc x ^^^ p i) a =
        a * x ^ n + ∑ i ∈ range n, p i * x ^ i := by
    intro n
    induction n with
    | zero => intro a; simp
    | succ n ih =>
      intro a
      rw [List.range_succ, List.foldr_append, List.foldr_cons, List.foldr_nil, ih,
        sum_range_succ, adsc_gf16_mul_eq, BinField.xor_eq_add]
      ring
  rw [poly_eval, key, eval_series, sum_range_succ, add_comm]

theorem poly_deriv_eval_eq (p : Nat → Gf16) (deg : Nat) (x : Gf16) :
    poly_deriv_eval p deg x = (derivative (series p (deg + 1))).eval x := by
  let P : Nat → Gf16 × Gf16 → Prop := fun n st =>
    st = ((derivative (series p (n + 1))).eval x, x ^ n)
  have key : P deg ((List.range deg).foldl (fun st k =>
      (if (k + 1) % 2 = 1 then st.1 ^^^ adsc_gf16_mul (p (k + 1)) st.2 else st.1,
        adsc_gf16_mul st.2 x)) ((0, 1) : Gf16 × Gf16)) := by
    refine Loop.foldl_range_inv P ?_ ?_
    · simp [P, series]
    · rintro k - _ rfl
      -- the coefficient `k + 1` of an odd-degree term is 1 in characteristic 2
      simp only [P, series_succ p (k + 1), derivative_add, derivative_C_mul_X_pow, eval_add,
        adsc_gf16_mul_eq, BinField.xor_eq_add, CharTwo.natCast_eq_ite, Prod.mk.injEq]
      refine ⟨?_, (pow_succ x k).symm⟩
      rcases Nat.mod_two_eq_zero_or_one (k + 1) with h | h
      · have he : Even (k + 1) := Nat.even_iff.2 h
        simp [h, he]
      · have he : ¬Even (k + 1) := fun he => by have := Nat.even_iff.1 he; omega
        simp [h, he]
  exact congrArg Prod.fst key

/-! ## The erasure locator -/

theorem gamma_step_get (n_data : Nat) (era : Nat → Nat) (g : Buf Gf16 33)
    (i k : Nat) : Buf.get (gamma_step n_data era g i) k = Buf.get g k +
      if 1 ≤ k ∧ k ≤ i + 1 ∧ k < 33 then Buf.get g (k - 1) * alpha ^ (n_data - 1 - era i)
      else 0 := by
  have key : ∀ (m : Nat) (g : Buf Gf16 33) (x : Gf16),
      Buf.get ((List.range m).foldr (fun k gamma => Buf.set gamma (k + 1)
        (Buf.get gamma (k + 1) ^^^ adsc_gf16_mul (Buf.get gamma k) x)) g) k =
      Buf.get g k + if 1 ≤ k ∧ k ≤ m ∧ k < 33 then Buf.get g (k - 1) * x else 0 := by
    intro m
    induction m with
    | zero => intro g x; rw [if_neg (by omega), add_zero]; rfl
    | succ m ih =>
      intro g x
      -- the top coefficient is updated first, so the ones below still read old values
      rw [List.range_succ, List.foldr_append, List.foldr_cons, List.foldr_nil, ih,
        BinField.xor_eq_add, adsc_gf16_mul_eq, Buf.get_set_add, Buf.get_set_add]
      rcases Nat.lt_trichotomy k (m + 1) with h | rfl | h
      · rw [if_neg (by omega : ¬(k = m + 1 ∧ k < 33)),
          if_neg (by omega : ¬(k - 1 = m + 1 ∧ k - 1 < 33)), add_zero, add_zero]
        congr 1
        exact if_congr (by omega) rfl rfl
      · rw [if_neg (by omega : ¬(1 ≤ m + 1 ∧ m + 1 ≤ m ∧ m + 1 < 33)), add_zero]
        congr 1
        exact if_congr (by omega) (by simp) rfl
      · rw [if_neg (by omega : ¬(k = m + 1 ∧ k < 33)),
          if_neg (by omega : ¬(1 ≤ k ∧ k ≤ m ∧ k < 33)), if_neg (by omega), add_zero]
  rw [gamma_step, key, adsc_gf16_pow_eq]

/-- The locator of a data index: `alpha` to its distance from the end of the word. -/
def loc (n_data j : Nat) : Gf16 := alpha ^ (n_data - 1 - j)

/-- **The erasure loop** builds the locator polynomial of the erasures. -/
theorem erasure_locator_series (n_data : Nat) (era : Nat → Nat) {ne : Nat} (hne : ne ≤ 32) :
    series (Buf.get (erasure_locator n_data era ne)) 33 =
      locator (range ne) fun i => loc n_data (era i) := by
  refine Loop.foldl_range_inv (P := fun i (g : Buf Gf16 33) =>
    series (Buf.get g) 33 = locator (range i) fun i => loc n_data (era i)) ?_ ?_
  · refine Polynomial.ext fun k => ?_
    rw [coeff_series, Buf.get_set, Buf.get_zeros]
    rcases k with _ | k
    · simp [locator]
    · simp [locator, coeff_one]
  · intro i hi g hg
    have hdeg : ∀ k, i < k → k < 33 → Buf.get g k = 0 := by
      intro k hk hk'
      have h := coeff_eq_zero_of_natDegree_lt
        ((natDegree_locator_le (range i) fun i => loc n_data (era i)).trans_lt
          (by rw [card_range]; exact hk))
      rwa [← hg, coeff_series, if_pos hk'] at h
    rw [locator, prod_range_succ, ← locator, ← hg]
    refine Polynomial.ext fun k => ?_
    rw [mul_sub, mul_one, coeff_sub, BinField.sub_eq_add, coeff_series, coeff_series,
      gamma_step_get]
    rcases k with _ | k
    · simp
    · rw [← mul_assoc, coeff_mul_X, coeff_mul_C, coeff_series]
      by_cases hk : k + 1 < 33
      · by_cases hi' : k ≤ i
        · simp [hk, hi', loc, show k < 33 by omega]
        · simp [hk, hi', show k < 33 by omega, hdeg k (by omega) (by omega)]
      · by_cases hk' : k < 33
        · simp [hk, hk', hdeg k (by omega) hk']
        · simp [hk, hk']

end Accudisc
