import Mathlib.Algebra.Polynomial.Roots
import Mathlib.Tactic.LinearCombination

/-!
# Berlekamp-Massey over a field

`KeyEq S n C L`: the connection polynomial `C` (constant term 1, degree at most `L`) generates the
first `n` terms of the series `S` as a linear recurrence of length `L`, stated as a key equation:
`C * S` agrees with a polynomial of degree below `L` up to `X ^ n`.

`Massey.step` is one step of the algorithm, on the connection polynomial and on the shifted
predecessor. `Massey.Inv` is what it keeps (`Inv.step`); with the predecessor's part of
the invariant no shorter recurrence generates the same terms (`Inv.minimal`).
-/

namespace Massey

open Polynomial

variable {F : Type*} [Field F]

/-! ## Degrees -/

/-- A product with one factor of degree at most `a` and the other of degree below `b`. -/
theorem degree_mul_lt {p q : F[X]} {a b : ℕ} (hp : p.natDegree ≤ a) (hq : q.degree < b) :
    (p * q).degree < (a + b : ℕ) := by
  rw [degree_lt_iff_coeff_zero] at hq ⊢
  intro m hm
  rw [coeff_mul]
  refine Finset.sum_eq_zero fun x hx => ?_
  rw [Finset.HasAntidiagonal.mem_antidiagonal] at hx
  rcases Nat.lt_or_ge a x.1 with h | h
  · rw [coeff_eq_zero_of_natDegree_lt (by omega), zero_mul]
  · rw [hq _ (by omega), mul_zero]

/-- A polynomial of degree below `n` that `X ^ n` divides is zero. -/
theorem eq_zero_of_X_pow_dvd {p : F[X]} {n : ℕ} (h : X ^ n ∣ p) (hp : p.degree < n) : p = 0 := by
  ext k
  rcases Nat.lt_or_ge k n with hk | hk
  · exact X_pow_dvd_iff.1 h k hk
  · exact (degree_lt_iff_coeff_zero _ _).1 hp k hk

/-! ## Linear recurrences as key equations -/

/-- `C` generates the first `n` terms of `S` as a recurrence of length `L`. -/
structure KeyEq (S : F[X]) (n : ℕ) (C : F[X]) (L : ℕ) : Prop where
  coeff_zero : C.coeff 0 = 1
  natDegree_le : C.natDegree ≤ L
  exists_eval : ∃ W : F[X], W.degree < L ∧ X ^ n ∣ C * S - W

/-- The terms a key equation annuls: `C * S` has no coefficient from `L` up to `n`. -/
theorem KeyEq.coeff_mul {S C : F[X]} {n L k : ℕ} (h : KeyEq S n C L) (hL : L ≤ k) (hk : k < n) :
    (C * S).coeff k = 0 := by
  obtain ⟨W, hW, hd⟩ := h.exists_eval
  have h0 := X_pow_dvd_iff.1 hd k hk
  rw [coeff_sub, (degree_lt_iff_coeff_zero _ _).1 hW k hL, sub_zero] at h0
  exact h0

/-! ## The algorithm -/

/-- The algorithm's state: the connection polynomial `C` of length `L`, and the shifted predecessor
`D` with its discrepancy `b`. -/
structure State (F : Type*) [Field F] where
  C : F[X]
  D : F[X]
  L : ℕ
  b : F

/-- The initial state. -/
noncomputable def init : State F := ⟨1, X, 0, 1⟩

/-- The discrepancy at step `r`: what `C` gets wrong about term `r`. -/
noncomputable def disc (S : F[X]) (st : State F) (r : ℕ) : F := (st.C * S).coeff r

open Classical in
/-- One step: annul the discrepancy with the predecessor, and lengthen when `2 L ≤ r`. -/
noncomputable def step (S : F[X]) (st : State F) (r : ℕ) : State F :=
  let d := disc S st r
  if d = 0 then { st with D := X * st.D }
  else if 2 * st.L ≤ r then
    { C := st.C - Polynomial.C (d / st.b) * st.D, D := X * st.C, L := r + 1 - st.L, b := d }
  else { st with C := st.C - Polynomial.C (d / st.b) * st.D, D := X * st.D }

/-- The invariant before step `r`: `C` generates the first `r` terms, and the predecessor's key
equation fails exactly at term `r`. -/
structure Inv (S : F[X]) (r : ℕ) (st : State F) : Prop where
  key : KeyEq S r st.C st.L
  L_le : st.L ≤ r
  D_zero : st.D.coeff 0 = 0
  D_natDegree : st.D.natDegree ≤ r + 1 - st.L
  b_ne : st.b ≠ 0
  exists_pred : ∃ P : F[X], P.degree < (r + 1 - st.L : ℕ) ∧
    X ^ (r + 1) ∣ st.D * S - P - C st.b * X ^ r

theorem inv_init (S : F[X]) : Inv S 0 init where
  key := ⟨by simp [init], by simp [init], ⟨0, by simp, by simp⟩⟩
  L_le := Nat.le_refl 0
  D_zero := by simp [init]
  D_natDegree := by simp [init]
  b_ne := one_ne_zero
  exists_pred := ⟨-1, by
    refine lt_of_le_of_lt (b := 0) ?_ (by simp [init])
    rw [degree_neg]; exact degree_one_le, by simp [init]⟩

theorem X_pow_succ_dvd {p : F[X]} {r : ℕ} (h : X ^ r ∣ p) (h0 : p.coeff r = 0) :
    X ^ (r + 1) ∣ p := by
  rw [X_pow_dvd_iff] at h ⊢
  intro d hd
  rcases Nat.lt_succ_iff_lt_or_eq.1 hd with h' | rfl
  · exact h d h'
  · exact h0

/-- With its discrepancy, `C`'s key equation holds one term further. -/
theorem Inv.exists_eval_disc {S : F[X]} {r : ℕ} {st : State F} (h : Inv S r st) :
    ∃ W : F[X], W.degree < st.L ∧ X ^ (r + 1) ∣ st.C * S - W - C (disc S st r) * X ^ r := by
  obtain ⟨W, hW, hd⟩ := h.key.exists_eval
  refine ⟨W, hW, X_pow_succ_dvd (dvd_sub hd (dvd_mul_left _ _)) ?_⟩
  rw [coeff_sub, coeff_sub, (degree_lt_iff_coeff_zero _ _).1 hW r h.L_le, disc]
  simp

/-- The predecessor's key equation, one step later. -/
theorem shift_pred {S D P : F[X]} {b : F} {r : ℕ} (h : X ^ (r + 1) ∣ D * S - P - C b * X ^ r) :
    X ^ (r + 1 + 1) ∣ X * D * S - X * P - C b * X ^ (r + 1) := by
  obtain ⟨q, hq⟩ := h
  exact ⟨q, by linear_combination X * hq⟩

theorem degree_X_mul_lt {P : F[X]} {n : ℕ} (h : P.degree < n) :
    (X * P).degree < ((n + 1 : ℕ) : WithBot ℕ) := by
  rw [add_comm]; exact degree_mul_lt natDegree_X_le h

theorem natDegree_X_mul_le {p : F[X]} {n : ℕ} (h : p.natDegree ≤ n) : (X * p).natDegree ≤ n + 1 :=
  (natDegree_mul_le.trans (Nat.add_le_add natDegree_X_le h)).trans (by omega)

/-- Subtracting the multiple of the predecessor that annuls the discrepancy. -/
theorem Inv.key_update {S : F[X]} {r : ℕ} {st : State F} (h : Inv S r st) {L' : ℕ}
    (hL : st.L ≤ L') (hL' : r + 1 - st.L ≤ L') :
    KeyEq S (r + 1) (st.C - C (disc S st r / st.b) * st.D) L' where
  coeff_zero := by simp [h.key.coeff_zero, h.D_zero]
  natDegree_le := by
    refine (natDegree_sub_le _ _).trans (max_le (h.key.natDegree_le.trans hL) ?_)
    exact (natDegree_C_mul_le _ _).trans (h.D_natDegree.trans hL')
  exists_eval := by
    obtain ⟨W, hW, hWd⟩ := h.exists_eval_disc
    obtain ⟨P, hP, hPd⟩ := h.exists_pred
    refine ⟨W - C (disc S st r / st.b) * P, ?_, ?_⟩
    · refine lt_of_le_of_lt (degree_sub_le _ _) (max_lt ?_ ?_)
      · exact hW.trans_le (by exact_mod_cast hL)
      · refine (degree_mul_lt (natDegree_C _).le hP).trans_le ?_
        exact_mod_cast (by omega : 0 + (r + 1 - st.L) ≤ L')
    · obtain ⟨u, hu⟩ := hWd
      obtain ⟨v, hv⟩ := hPd
      have hd : C (disc S st r / st.b) * C st.b = C (disc S st r) := by
        rw [← C_mul, div_mul_cancel₀ _ h.b_ne]
      exact ⟨u - C (disc S st r / st.b) * v, by
        linear_combination hu - C (disc S st r / st.b) * hv - X ^ r * hd⟩

/-- **One step keeps the invariant.** -/
theorem Inv.step {S : F[X]} {r : ℕ} {st : State F} (h : Inv S r st) :
    Inv S (r + 1) (step S st r) := by
  obtain ⟨P, hP, hPd⟩ := h.exists_pred
  obtain ⟨W, hW, hWd⟩ := h.exists_eval_disc
  have hr : r + 1 + 1 - st.L = (r + 1 - st.L) + 1 := by have := h.L_le; omega
  unfold Massey.step
  by_cases hd : disc S st r = 0
  · simp only [hd, ↓reduceIte]
    refine ⟨⟨h.key.coeff_zero, h.key.natDegree_le, W, hW, ?_⟩, h.L_le.trans (Nat.le_succ r),
      by simp, ?_, h.b_ne, X * P, ?_, shift_pred hPd⟩
    · simpa [hd] using hWd
    · rw [hr]; exact natDegree_X_mul_le h.D_natDegree
    · rw [hr]; exact degree_X_mul_lt hP
  · by_cases hL : 2 * st.L ≤ r
    · have hL' : r + 1 + 1 - (r + 1 - st.L) = st.L + 1 := by omega
      simp only [hd, hL, ↓reduceIte]
      have hle : st.L ≤ r + 1 - st.L := by omega
      refine ⟨h.key_update hle (Nat.le_refl _), Nat.sub_le _ _, by simp, ?_, hd,
        X * W, ?_, shift_pred hWd⟩
      · dsimp only
        rw [hL']; exact natDegree_X_mul_le h.key.natDegree_le
      · dsimp only
        rw [hL']; exact degree_X_mul_lt hW
    · simp only [hd, hL, ↓reduceIte]
      have hle : r + 1 - st.L ≤ st.L := by omega
      refine ⟨h.key_update (Nat.le_refl _) hle, h.L_le.trans (Nat.le_succ r), by simp, ?_,
        h.b_ne, X * P, ?_, shift_pred hPd⟩
      · rw [hr]; exact natDegree_X_mul_le h.D_natDegree
      · rw [hr]; exact degree_X_mul_lt hP

/-! ## Minimality and uniqueness -/

/-- **Minimality**: no shorter recurrence generates the same terms. Multiplying the other
recurrence's key equation by the predecessor leaves no term at `X ^ r`, multiplying the
predecessor's by the other connection polynomial leaves `b`. -/
theorem Inv.minimal {S : F[X]} {r : ℕ} {st : State F} (h : Inv S r st) {A : F[X]} {l : ℕ}
    (hA : KeyEq S r A l) : st.L ≤ l := by
  by_contra hl
  obtain ⟨P, hP, hPd⟩ := h.exists_pred
  obtain ⟨W, hW, hWd⟩ := hA.exists_eval
  obtain ⟨D', hD'⟩ := X_dvd_iff.2 h.D_zero
  have hLr := h.L_le
  have hdvd : X ^ (r + 1) ∣ A * P + A * C st.b * X ^ r - st.D * W := by
    obtain ⟨u, hu⟩ := hPd
    obtain ⟨v, hv⟩ := hWd
    refine ⟨D' * v - A * u, ?_⟩
    linear_combination st.D * hv - A * hu + X ^ r * v * hD'
  have h0 := X_pow_dvd_iff.1 hdvd r (Nat.lt_succ_self r)
  have hAP : (A * P).coeff r = 0 :=
    (degree_lt_iff_coeff_zero _ _).1 (degree_mul_lt hA.natDegree_le hP) r (by omega)
  have hDW : (st.D * W).coeff r = 0 :=
    (degree_lt_iff_coeff_zero _ _).1 (degree_mul_lt h.D_natDegree hW) r (by omega)
  rw [coeff_sub, coeff_add, hAP, hDW, coeff_mul_X_pow', if_pos (Nat.le_refl r), Nat.sub_self,
    coeff_mul_C, hA.coeff_zero] at h0
  exact h.b_ne (by simpa using h0)

/-- **Cross multiplication**: two recurrences whose lengths fit into `n` terms have proportional
key equations. -/
theorem KeyEq.cross {S A B U V : F[X]} {n l m : ℕ} (hn : l + m ≤ n) (hAd : A.natDegree ≤ l)
    (hU : U.degree < l) (hA : X ^ n ∣ A * S - U) (hBd : B.natDegree ≤ m) (hV : V.degree < m)
    (hB : X ^ n ∣ B * S - V) : A * V = B * U := by
  rw [← sub_eq_zero]
  refine eq_zero_of_X_pow_dvd (n := n) ?_ ?_
  · obtain ⟨u, hu⟩ := hA
    obtain ⟨v, hv⟩ := hB
    exact ⟨B * u - A * v, by linear_combination B * hu - A * hv⟩
  · refine lt_of_le_of_lt (degree_sub_le _ _) (max_lt ?_ ?_)
    · exact (degree_mul_lt hAd hV).trans_le (by exact_mod_cast hn)
    · refine (degree_mul_lt hBd hU).trans_le ?_
      exact_mod_cast (by omega : m + l ≤ n)

end Massey
