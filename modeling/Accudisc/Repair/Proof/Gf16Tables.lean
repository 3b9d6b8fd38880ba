import Accudisc.Repair.Gf16Field
import Accudisc.Lib.BinPoly

/-!
# What the table functions compute

The generator loop runs through the powers of `alpha`, so it meets every non-zero symbol once
(`loop_visits_once`), and the table functions are the arithmetic of polynomials over GF(2) modulo
`GF16_POLY` (`adsc_gf16_mul_poly`, `adsc_gf16_pow_poly`). `ExpIndex` lists where `gf16.c` reads and
writes the doubled table.
-/

namespace Accudisc

open BinField Polynomial

/-! ## The generator loop -/

/-- The accumulator after `n` iterations is `alpha ^ n`, widened. -/
theorem loop_acc {n : Nat} (hn : n ≤ ADSC_GF16_ORDER) :
    (gf16_init_loop n).2 = (alpha ^ n).bits.setWidth 32 := (initInv_loop hn).acc

theorem setWidth_gf16_inj {v u : BitVec 16} (h : v.setWidth 32 = u.setWidth 32) : v = u := by
  have ht := congrArg BitVec.toNat h
  rw [BitVec.toNat_setWidth, BitVec.toNat_setWidth, Nat.mod_eq_of_lt (by omega),
    Nat.mod_eq_of_lt (by omega)] at ht
  exact BitVec.eq_of_toNat_eq ht

/-- **Every non-zero symbol is met in exactly one of the 65535 iterations.** -/
theorem loop_visits_once {v : BitVec 16} (hv : v ≠ 0#16) :
    ∃! n, n < ADSC_GF16_ORDER ∧ (gf16_init_loop n).2 = v.setWidth 32 := by
  have hne : (⟨v⟩ : Gf16) ≠ 0 := fun h => hv (congrArg BinField.bits h)
  obtain ⟨n, hn, hpow⟩ := exists_pow_eq hne
  have hn' : n < ADSC_GF16_ORDER := hn
  refine ⟨n, ⟨hn', ?_⟩, fun m ⟨hm, hacc⟩ => ?_⟩
  · rw [loop_acc hn'.le, hpow]
  · rw [loop_acc hm.le] at hacc
    have hbits : alpha ^ m = alpha ^ n := by
      rw [hpow]; exact BinField.ext (setWidth_gf16_inj hacc)
    exact alpha_pow_inj hm hn' hbits

theorem loop_acc_symbol {n : Nat} (hn : n < ADSC_GF16_ORDER) :
    ∃ v : BitVec 16, v ≠ 0#16 ∧ (gf16_init_loop n).2 = v.setWidth 32 :=
  ⟨(alpha ^ n).bits, fun h => alpha_pow_ne_zero n (BinField.ext h), loop_acc hn.le⟩

theorem loop_acc_order : (gf16_init_loop ADSC_GF16_ORDER).2 = 1#32 := by
  rw [loop_acc (Nat.le_refl _), alpha_pow_order]
  decide

/-! ## The arithmetic of polynomials -/

theorem poly_getLsbD (k : Nat) :
    GF16_POLY.getLsbD k = decide (k = 16 ∨ k = 12 ∨ k = 3 ∨ k = 1 ∨ k = 0) := by
  have hlt : ∀ k < 32, GF16_POLY.getLsbD k = decide (k = 16 ∨ k = 12 ∨ k = 3 ∨ k = 1 ∨ k = 0) := by
    decide
  rcases Nat.lt_or_ge k 32 with h | h
  · exact hlt k h
  · rw [BitVec.getLsbD_of_ge _ _ h, eq_comm, decide_eq_false_iff_not]
    omega

theorem wordPoly_poly : wordPoly GF16_POLY = X ^ 16 + X ^ 12 + X ^ 3 + X + 1 := by
  ext k
  simp only [coeff_wordPoly, coeff_add, coeff_X_pow, coeff_X, coeff_one, poly_getLsbD]
  grind

/-- `GF16_POLY` is the low word the loop folds in, under the bit that falls off the top. -/
theorem modulus_poly : modulus 16 0x100B#16 = wordPoly GF16_POLY := by
  have hlow : GF16_POLY = BitVec.twoPow 32 16 ^^^ (0x100B#16).setWidth 32 := by decide
  rw [hlow, wordPoly_xor, wordPoly_twoPow (by decide), wordPoly_setWidth (by decide), modulus]

/-- The product is the carry-less product reduced modulo `GF16_POLY`. -/
theorem adsc_gf16_mul_poly (a b : Gf16) :
    wordPoly (adsc_gf16_mul a b).bits = (wordPoly a.bits * wordPoly b.bits) %ₘ wordPoly GF16_POLY := by
  rw [adsc_gf16_mul_eq, wordPoly_mul, modulus_poly]

theorem adsc_gf16_inv_eq (a : Gf16) (ha : a ≠ 0) : adsc_gf16_inv a = a⁻¹ := by
  obtain ⟨hla, hpa⟩ := alpha_pow_log ha
  rw [adsc_gf16_inv, if_neg ha, gf16_exp_eq (by omega)]
  refine eq_inv_of_mul_eq_one_left ?_
  calc alpha ^ (ADSC_GF16_ORDER - gf16_log a) * a
      = alpha ^ (ADSC_GF16_ORDER - gf16_log a) * alpha ^ gf16_log a := by rw [hpa]
    _ = alpha ^ ADSC_GF16_ORDER := by rw [← pow_add]; congr 1; omega
    _ = 1 := alpha_pow_order

theorem adsc_gf16_log_pow (e : Nat) :
    adsc_gf16_log (adsc_gf16_pow e) = ((e % ADSC_GF16_ORDER : Nat) : Int) := by
  rw [adsc_gf16_pow_eq, adsc_gf16_log, if_neg (alpha_pow_ne_zero e), ← alpha_pow_mod,
    gf16_log_pow (Nat.mod_lt _ (by decide))]

theorem adsc_gf16_pow_log {a : Gf16} (ha : a ≠ 0) :
    adsc_gf16_pow (adsc_gf16_log a).toNat = a := by
  rw [adsc_gf16_log, if_neg ha, Int.toNat_natCast, adsc_gf16_pow_eq]
  exact (alpha_pow_log ha).2

/-! ## The indices of the doubled table -/

/-- An index at which the doubled antilog table is written or read. -/
inductive ExpIndex : Nat → Prop
  | init_lo {i : Nat} : i < ADSC_GF16_ORDER → ExpIndex i
  | init_hi {i : Nat} : i < ADSC_GF16_ORDER → ExpIndex (i + ADSC_GF16_ORDER)
  | mul {a b : Gf16} : a ≠ 0 → b ≠ 0 → ExpIndex (gf16_log a + gf16_log b)
  | div {a b : Gf16} : a ≠ 0 → b ≠ 0 → ExpIndex (gf16_log a + ADSC_GF16_ORDER - gf16_log b)
  | inv {a : Gf16} : a ≠ 0 → ExpIndex (ADSC_GF16_ORDER - gf16_log a)
  | pow (e : Nat) : ExpIndex (e % ADSC_GF16_ORDER)
  | mul_pow {a : Gf16} (e : Nat) : a ≠ 0 → ExpIndex (gf16_log a + e % ADSC_GF16_ORDER)

theorem ExpIndex.le {i : Nat} (h : ExpIndex i) : i ≤ 2 * ADSC_GF16_ORDER - 1 := by
  cases h with
  | init_lo h => omega
  | init_hi h => omega
  | mul ha hb =>
    have := (alpha_pow_log ha).1
    have := (alpha_pow_log hb).1
    omega
  | div ha hb =>
    have := (alpha_pow_log ha).1
    omega
  | inv ha => omega
  | pow e =>
    have := Nat.mod_lt e (show 0 < ADSC_GF16_ORDER by decide)
    omega
  | mul_pow e ha =>
    have := (alpha_pow_log ha).1
    have := Nat.mod_lt e (show 0 < ADSC_GF16_ORDER by decide)
    omega

/-- **The tables implement the field.** 2 is primitive modulo `GF16_POLY`: the generator loop meets
every non-zero symbol in exactly one of its iterations. The table functions are the operations of
the field, powers and logarithms are inverse, and no index leaves the doubled table. -/
theorem gf16_tables_implement_field :
    (wordPoly GF16_POLY = X ^ 16 + X ^ 12 + X ^ 3 + X + 1 ∧ alpha.bits = 2#16 ∧
      orderOf alpha = ADSC_GF16_ORDER) ∧
    (∀ v : BitVec 16, v ≠ 0#16 →
      ∃! n, n < ADSC_GF16_ORDER ∧ (gf16_init_loop n).2 = v.setWidth 32) ∧
    (∀ n < ADSC_GF16_ORDER, ∃ v : BitVec 16, v ≠ 0#16 ∧ (gf16_init_loop n).2 = v.setWidth 32) ∧
    (gf16_init_loop ADSC_GF16_ORDER).2 = 1#32 ∧
    (∀ a b : Gf16, wordPoly (adsc_gf16_mul a b).bits =
      (wordPoly a.bits * wordPoly b.bits) %ₘ wordPoly GF16_POLY) ∧
    (∀ a b : Gf16, b ≠ 0 → adsc_gf16_div (adsc_gf16_mul a b) b = a) ∧
    (∀ a : Gf16, a ≠ 0 → adsc_gf16_mul a (adsc_gf16_inv a) = 1) ∧
    (∀ (a : Gf16) (e : Nat), adsc_gf16_mul_pow a e = adsc_gf16_mul a (adsc_gf16_pow e)) ∧
    (∀ e : Nat, adsc_gf16_pow e = (⟨2#16⟩ : Gf16) ^ e) ∧
    (∀ e : Nat, adsc_gf16_log (adsc_gf16_pow e) = ((e % ADSC_GF16_ORDER : Nat) : Int)) ∧
    (∀ a : Gf16, a ≠ 0 → adsc_gf16_pow (adsc_gf16_log a).toNat = a) ∧
    ∀ i, ExpIndex i → i ≤ 2 * ADSC_GF16_ORDER - 1 := by
  have halpha : alpha = ⟨2#16⟩ := by decide
  refine ⟨⟨wordPoly_poly, by decide, primitive_gf16.order⟩, fun v hv => loop_visits_once hv,
    fun n hn => loop_acc_symbol hn, loop_acc_order, adsc_gf16_mul_poly, fun a b hb => ?_,
    fun a ha => ?_, fun a e => ?_, fun e => ?_, adsc_gf16_log_pow, fun a ha => adsc_gf16_pow_log ha,
    fun i hi => hi.le⟩
  · rw [adsc_gf16_mul_eq, adsc_gf16_div_eq, mul_div_cancel_right₀ a hb]
  · rw [adsc_gf16_mul_eq, adsc_gf16_inv_eq a ha, mul_inv_cancel₀ ha]
  · rw [adsc_gf16_mul_pow_eq, adsc_gf16_mul_eq, adsc_gf16_pow_eq]
  · rw [adsc_gf16_pow_eq, halpha]

end Accudisc
