import Accudisc.Lib.BinField
import Mathlib.Algebra.Polynomial.Div
import Mathlib.Algebra.Field.ZMod

/-!
# Words as polynomials over GF(2)

`wordPoly v` is the polynomial whose coefficients are the bits of `v`: exclusive or is addition
(`wordPoly_xor`) and the carry-less product of two words is the product of their polynomials. The
product of `BinField w p` is that product reduced modulo `x ^ w + p` (`wordPoly_mul`).
-/

open Polynomial

/-- The polynomial over GF(2) whose coefficients are the bits of a word. -/
noncomputable def wordPoly {n : Nat} (v : BitVec n) : (ZMod 2)[X] :=
  ∑ i ∈ Finset.range n, if v.getLsbD i then X ^ i else 0

@[simp] theorem coeff_wordPoly {n : Nat} (v : BitVec n) (k : Nat) :
    (wordPoly v).coeff k = if v.getLsbD k then 1 else 0 := by
  have hterm (i : Nat) : (if v.getLsbD i then (X : (ZMod 2)[X]) ^ i else 0).coeff k =
      if k = i then (if v.getLsbD i then 1 else 0) else 0 := by
    by_cases h : v.getLsbD i <;> simp [h, coeff_X_pow]
  rw [wordPoly, finsetSum_coeff, Finset.sum_congr rfl fun i _ => hterm i, Finset.sum_ite_eq]
  split
  · rfl
  · rename_i hk
    rw [BitVec.getLsbD_of_ge v k (by simpa using hk)]
    rfl

@[simp] theorem wordPoly_zero {n : Nat} : wordPoly (0#n) = 0 := by
  ext k; simp

theorem wordPoly_xor {n : Nat} (v u : BitVec n) : wordPoly (v ^^^ u) = wordPoly v + wordPoly u := by
  ext k
  rw [coeff_add, coeff_wordPoly, coeff_wordPoly, coeff_wordPoly, BitVec.getLsbD_xor]
  cases v.getLsbD k <;> cases u.getLsbD k <;> decide

theorem wordPoly_twoPow {n i : Nat} (h : i < n) : wordPoly (BitVec.twoPow n i) = X ^ i := by
  ext k
  rw [coeff_wordPoly, coeff_X_pow, BitVec.getLsbD_twoPow]
  by_cases hk : k = i
  · simp [hk, h]
  · simp [hk, Ne.symm hk]

theorem wordPoly_setWidth {n m : Nat} (h : n ≤ m) (v : BitVec n) :
    wordPoly (v.setWidth m) = wordPoly v := by
  ext k
  rw [coeff_wordPoly, coeff_wordPoly, BitVec.getLsbD_setWidth]
  rcases Nat.lt_or_ge k m with hk | hk
  · simp [hk]
  · simp [BitVec.getLsbD_of_ge v k (by omega)]

theorem degree_wordPoly_lt {n : Nat} (v : BitVec n) : (wordPoly v).degree < n := by
  rw [degree_lt_iff_coeff_zero]
  intro k hk
  rw [coeff_wordPoly, BitVec.getLsbD_of_ge v k hk]
  rfl

namespace BinField

variable {w : Nat} {p : BitVec w}

/-- The modulus `x ^ w + p`. -/
noncomputable def modulus (w : Nat) (p : BitVec w) : (ZMod 2)[X] := X ^ w + wordPoly p

theorem modulus_monic : (modulus w p).Monic := monic_X_pow_add (degree_wordPoly_lt p)

theorem degree_modulus : (modulus w p).degree = w := by
  have hlt : (wordPoly p).degree < (X ^ w : (ZMod 2)[X]).degree := by
    rw [degree_X_pow]; exact degree_wordPoly_lt p
  rw [modulus, degree_add_eq_left_of_degree_lt hlt, degree_X_pow]

/-- Multiplying by `x` takes the modulus off once when the top bit is set. -/
theorem wordPoly_step (a : BinField w p) :
    wordPoly (step a).bits = X * wordPoly a.bits + if a.bits.msb then modulus w p else 0 := by
  have hshift : wordPoly (a.bits <<< 1) =
      X * wordPoly a.bits + if a.bits.msb then X ^ w else 0 := by
    ext k
    have hx : (if a.bits.msb then (X : (ZMod 2)[X]) ^ w else 0).coeff k =
        if a.bits.msb ∧ k = w then 1 else 0 := by
      cases a.bits.msb <;> simp [coeff_X_pow]
    rw [coeff_add, hx, coeff_wordPoly, BitVec.getLsbD_shiftLeft]
    cases k with
    | zero =>
      rw [mul_comm, coeff_mul_X_zero]
      by_cases hw : w = 0
      · subst hw; simp [BitVec.msb_eq_getLsbD_last]
      · simp [Ne.symm hw]
    | succ k =>
      rw [coeff_X_mul, coeff_wordPoly]
      rcases Nat.lt_trichotomy (k + 1) w with h | h | h
      · simp [h, h.ne]
      · rw [BitVec.msb_eq_getLsbD_last, show w - 1 = k by omega]
        cases a.bits.getLsbD k with
        | false => simp [h]
        | true => simp [h, show (0 : ZMod 2) = 1 + 1 by decide]
      · simp [h.ne', BitVec.getLsbD_of_ge a.bits k (by omega), show ¬ k + 1 < w by omega]
  rw [step, wordPoly_xor, hshift, modulus]
  cases a.bits.msb <;> simp [add_assoc]

theorem modulus_dvd_step (a : BinField w p) :
    modulus w p ∣ X * wordPoly a.bits - wordPoly (step a).bits := by
  rw [wordPoly_step]
  cases a.bits.msb <;> simp

theorem modulus_dvd_iterate (a : BinField w p) (n : Nat) :
    modulus w p ∣ X ^ n * wordPoly a.bits - wordPoly (step^[n] a).bits := by
  induction n with
  | zero => simp
  | succ n ih =>
    rw [Function.iterate_succ_apply']
    have hsplit : X ^ (n + 1) * wordPoly a.bits - wordPoly (step (step^[n] a)).bits =
        X * (X ^ n * wordPoly a.bits - wordPoly (step^[n] a).bits) +
          (X * wordPoly (step^[n] a).bits - wordPoly (step (step^[n] a)).bits) := by
      ring
    rw [hsplit]
    exact dvd_add (Dvd.dvd.mul_left ih X) (modulus_dvd_step _)

/-- Shift and add is the carry-less product, up to multiples of the modulus. -/
theorem modulus_dvd_mulBits (a : BitVec w) (b : BinField w p) (n : Nat) :
    modulus w p ∣ (∑ i ∈ Finset.range n, if a.getLsbD i then X ^ i else 0) * wordPoly b.bits -
      wordPoly (mulBits a b n).bits := by
  induction n with
  | zero => simp [mulBits]
  | succ n ih =>
    rw [mulBits, bits_add, wordPoly_xor, Finset.sum_range_succ, add_mul, add_sub_add_comm]
    refine dvd_add ih ?_
    split
    · exact modulus_dvd_iterate b n
    · simp

/-- **The product** is the product of the polynomials, reduced modulo `x ^ w + p`. -/
theorem wordPoly_mul (a b : BinField w p) :
    wordPoly (a * b).bits = (wordPoly a.bits * wordPoly b.bits) %ₘ modulus w p := by
  have hdvd : modulus w p ∣ wordPoly a.bits * wordPoly b.bits - wordPoly (a * b).bits :=
    modulus_dvd_mulBits a.bits b w
  have hself : wordPoly (a * b).bits %ₘ modulus w p = wordPoly (a * b).bits := by
    rw [modByMonic_eq_self_iff modulus_monic, degree_modulus]
    exact degree_wordPoly_lt _
  rw [modByMonic_eq_of_dvd_sub modulus_monic hdvd, hself]

end BinField
