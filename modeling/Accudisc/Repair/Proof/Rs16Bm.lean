import Accudisc.Repair.Proof.Rs16Poly

/-!
# `berlekamp_massey` runs the algorithm

The code's state, its arrays read as polynomials and `prev` shifted by `m` (`BmState.toMassey`),
takes the steps of `Massey.step` (`bm_step_refine`); so what the code returns satisfies the
algorithm's invariant (`berlekamp_massey_inv`). The scratch arrays are long enough that no term is cut off.
-/

namespace Accudisc

open Polynomial Finset ErrorLocator

/-- The code's state as the algorithm's. -/
noncomputable def BmState.toMassey (st : BmState) : Massey.State Gf16 where
  C := series (Buf.get st.c) 66
  D := X ^ st.m * series (Buf.get st.prev) 66
  L := st.L
  b := st.b

theorem coeff_series_of_natDegree {p : Nat → Gf16} {n L k : Nat}
    (h : (series p n).natDegree ≤ L) (hk : L < k) (hn : k < n) : p k = 0 := by
  have := coeff_eq_zero_of_natDegree_lt (h.trans_lt hk)
  rwa [coeff_series, if_pos hn] at this

theorem toMassey_init : bm_init.toMassey = Massey.init := by
  have h1 : series (Buf.get (Buf.set (Buf.zeros Gf16 66) 0 1)) 66 = 1 := by
    refine Polynomial.ext fun k => ?_
    rw [coeff_series, Buf.get_set, Buf.get_zeros, coeff_one]
    rcases k with _ | k <;> simp
  simp only [BmState.toMassey, bm_init, Massey.init, h1, pow_one, mul_one]

section
variable {S : Gf16[X]} {syn : Nat → Gf16} {r : Nat} {st : BmState}
  (hS : ∀ k ≤ r, S.coeff k = syn k) (hr : r < 32) (h : Massey.Inv S r st.toMassey)

include hS hr h in
theorem bm_discrepancy_eq : bm_discrepancy syn st r = Massey.disc S st.toMassey r := by
  have hL : st.L ≤ r := h.L_le
  have h0 : Buf.get st.c 0 = 1 := by
    have := h.key.coeff_zero
    rwa [BmState.toMassey, coeff_series, if_pos (by omega)] at this
  unfold bm_discrepancy
  simp only [adsc_gf16_mul_eq, BinField.xor_eq_add]
  rw [Loop.foldl_range_add (fun k => Buf.get st.c (k + 1) * syn (r - (k + 1)))
    (fun _ _ _ => rfl), Massey.disc, coeff_mul,
    Finset.Nat.sum_antidiagonal_eq_sum_range_succ
      (fun i j => st.toMassey.C.coeff i * S.coeff j), sum_range_succ', BmState.toMassey]
  simp only [coeff_series, Nat.sub_zero, hS r (Nat.le_refl r)]
  rw [if_pos (by omega), h0, one_mul, add_comm]
  congr 1
  -- past the length the connection polynomial has no coefficients
  refine (sum_subset (range_subset_range.2 hL) fun k hk hk' => ?_).trans
    (sum_congr rfl fun k hk => ?_)
  · rw [mem_range] at hk hk'
    rw [coeff_series_of_natDegree h.key.natDegree_le (by show st.L < k + 1; omega) (by omega),
      zero_mul]
  · rw [mem_range] at hk
    rw [if_pos (by omega), hS _ (by omega)]

theorem bm_update_get (st : BmState) (a : Gf16) (k : Nat) :
    Buf.get (bm_update st a) k = Buf.get st.c k +
      if st.m ≤ k ∧ k < 66 then a * Buf.get st.prev (k - st.m) else 0 := by
  unfold bm_update
  rw [Buf.get_foldl_add (fun i => if k = i + st.m ∧ k < 66 then a * Buf.get st.prev i else 0)]
  · congr 1
    split
    · rename_i hk
      rw [sum_eq_single (k - st.m)]
      · rw [if_pos ⟨by omega, hk.2⟩]
      · exact fun i _ hi => if_neg fun h' => hi (by omega)
      · exact fun h' => absurd (mem_range.2 (by omega)) h'
    · exact sum_eq_zero fun i _ => if_neg (by omega)
  · intro i _ c
    split
    · rename_i hp
      simp [hp]
    · rw [adsc_gf16_mul_eq, BinField.xor_eq_add, Buf.get_set_add]

include hr h in
/-- The update loop subtracts the multiple of the shifted predecessor. -/
theorem bm_update_series (a : Gf16) :
    series (Buf.get (bm_update st a)) 66 = st.toMassey.C - C a * st.toMassey.D := by
  refine Polynomial.ext fun k => ?_
  rw [coeff_series, bm_update_get, coeff_sub, BinField.sub_eq_add, coeff_C_mul, BmState.toMassey,
    coeff_series, coeff_X_pow_mul', coeff_series]
  by_cases hk : k < 66
  · by_cases hm : st.m ≤ k
    · simp [hk, hm, show k - st.m < 66 by omega]
    · simp [hk, hm]
  · -- the predecessor's degree is at most `r + 1`
    have hD := coeff_eq_zero_of_natDegree_lt (n := k) (h.D_natDegree.trans_lt (by omega))
    rw [BmState.toMassey, coeff_X_pow_mul', coeff_series] at hD
    rw [if_neg hk, if_neg hk, hD]
    simp

include hS hr h in
/-- **One iteration of the code is one step of the algorithm.** -/
theorem bm_step_refine : (bm_step syn st r).toMassey = Massey.step S st.toMassey r := by
  unfold bm_step Massey.step
  rw [bm_discrepancy_eq hS hr h]
  generalize Massey.disc S st.toMassey r = d
  by_cases hd : d = 0
  · simp only [hd, ↓reduceIte]
    simp only [BmState.toMassey, pow_succ', mul_assoc]
  · have hu := bm_update_series hr h (d / st.b)
    simp only [hd, ↓reduceIte, adsc_gf16_div_eq]
    by_cases hL : 2 * st.L ≤ r
    · rw [if_pos hL, if_pos (show 2 * st.toMassey.L ≤ r from hL)]
      conv_lhs => simp only [BmState.toMassey, hu, pow_one]
      rfl
    · rw [if_neg hL, if_neg (show ¬2 * st.toMassey.L ≤ r from hL)]
      conv_lhs => simp only [BmState.toMassey, hu, pow_succ', mul_assoc]
      rfl

end

/-- **The code's result**: a state of the algorithm after all the syndromes. -/
theorem berlekamp_massey_inv {S : Gf16[X]} (syn : Nat → Gf16) {n : Nat}
    (hS : ∀ k < n, S.coeff k = syn k) (hn : n ≤ 32) :
    ∃ st, Massey.Inv S n st ∧ (berlekamp_massey syn n).1 = st.L ∧
      series (Buf.get (berlekamp_massey syn n).2) 33 = st.C := by
  have hinv := Loop.foldl_range_inv (fun r (st : BmState) => Massey.Inv S r st.toMassey)
    (f := bm_step syn) (n := n) (s := bm_init)
    (by rw [toMassey_init]; exact Massey.inv_init S)
    (fun r hr st h => by
      rw [bm_step_refine (fun k hk => hS k (by omega)) (by omega) h]; exact h.step)
  unfold berlekamp_massey
  generalize (List.range n).foldl (bm_step syn) bm_init = st at hinv ⊢
  refine ⟨_, hinv, rfl, Polynomial.ext fun k => ?_⟩
  have hLn : st.L ≤ n := hinv.L_le
  rw [coeff_series, Buf.get_fill]
  simp only [BmState.toMassey, coeff_series]
  by_cases hk : k ≤ st.L
  · simp [hk, show k < 33 by omega, show k < 66 by omega]
  · -- the entries past the length are zero
    have h0 : k < 66 → Buf.get st.c k = 0 :=
      coeff_series_of_natDegree hinv.key.natDegree_le (by show st.L < k; omega)
    simp only [hk, ↓reduceIte, ite_self]
    split
    · exact (h0 ‹_›).symm
    · rfl

end Accudisc
