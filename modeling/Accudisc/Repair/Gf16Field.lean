import Accudisc.Repair.Gf16
import Mathlib.Tactic.NormNum.Prime

/-!
# The tables implement the field

`alpha` is primitive (`primitive_gf16`, from a few products), so the generator loop visits every
non-zero symbol once and the tables hold the powers and logarithms of `alpha` (`gf16_exp_eq`,
`gf16_exp_log`). The table functions are then the field's operations: `adsc_gf16_mul_eq`,
`adsc_gf16_div_eq`, `adsc_gf16_pow_eq`, `adsc_gf16_mul_pow_eq`.
-/

namespace Accudisc

open BinField

/-- The generator. -/
abbrev alpha : Gf16 := gen 16 0x100B#16

/-! ## The generator is primitive -/

theorem alpha_pow_order : alpha ^ ADSC_GF16_ORDER = 1 := by
  have h : powBits alpha (List.replicate 16 true) = 1 := by decide +kernel
  rw [powBits_eq] at h
  exact h

theorem alpha_pow_div_ne_one (bs : List Bool) (h : powBits alpha bs ≠ 1) :
    alpha ^ bitsVal bs ≠ 1 := by
  rwa [powBits_eq] at h

theorem prime_dvd_order {q : Nat} (hq : q.Prime) (h : q ∣ ADSC_GF16_ORDER) :
    q = 3 ∨ q = 5 ∨ q = 17 ∨ q = 257 := by
  rw [show ADSC_GF16_ORDER = 3 * 5 * 17 * 257 by rfl, hq.dvd_mul, hq.dvd_mul, hq.dvd_mul] at h
  rcases h with ((h | h) | h) | h
  · exact .inl ((Nat.prime_dvd_prime_iff_eq hq (by norm_num)).1 h)
  · exact .inr (.inl ((Nat.prime_dvd_prime_iff_eq hq (by norm_num)).1 h))
  · exact .inr (.inr (.inl ((Nat.prime_dvd_prime_iff_eq hq (by norm_num)).1 h)))
  · exact .inr (.inr (.inr ((Nat.prime_dvd_prime_iff_eq hq (by norm_num)).1 h)))

/-- The bits of a 16-bit exponent that repeats `bs`. -/
def repBits (k : Nat) (bs : List Bool) : List Bool := (List.replicate k bs).flatten

/-- **2 generates the field**: `0x1100B` is primitive. -/
instance primitive_gf16 : Primitive 16 0x100B#16 := by
  refine primitive_of_check (by decide) alpha_pow_order fun q hq h => ?_
  rcases prime_dvd_order hq h with rfl | rfl | rfl | rfl
  · exact alpha_pow_div_ne_one (repBits 8 [false, true]) (by decide +kernel)
  · exact alpha_pow_div_ne_one (repBits 4 [false, false, true, true]) (by decide +kernel)
  · exact alpha_pow_div_ne_one (repBits 2 [false, false, false, false, true, true, true, true])
      (by decide +kernel)
  · exact alpha_pow_div_ne_one (List.replicate 8 true) (by decide +kernel)

theorem alpha_pow_ne_zero (k : Nat) : alpha ^ k ≠ 0 := gen_pow_ne_zero k

theorem alpha_pow_inj {i j : Nat} (hi : i < ADSC_GF16_ORDER) (hj : j < ADSC_GF16_ORDER)
    (h : alpha ^ i = alpha ^ j) : i = j := gen_pow_inj hi hj h

theorem alpha_pow_mod (k : Nat) : alpha ^ (k % ADSC_GF16_ORDER) = alpha ^ k := gen_pow_mod k

theorem alpha_pow_add_order (k : Nat) : alpha ^ (k + ADSC_GF16_ORDER) = alpha ^ k := by
  rw [pow_add, alpha_pow_order, mul_one]

/-! ## The table loop -/

/-- Doubling a widened word: bit 15 moves to bit 16. -/
theorem shiftLeft_setWidth (a : BitVec 16) :
    a.setWidth 32 <<< 1 = (a <<< 1).setWidth 32 ^^^ (if a.msb then 0x10000#32 else 0#32) := by
  have h16 : 0x10000#32 = BitVec.twoPow 32 16 := by decide
  apply BitVec.eq_of_getLsbD_eq
  intro i hi
  rw [BitVec.msb_eq_getLsbD_last, h16]
  rcases Nat.lt_trichotomy i 16 with h | rfl | h
  · have hi1 : i - 1 < 16 := by omega
    have hi2 : i - 1 < 32 := by omega
    rw [BitVec.getLsbD_xor, BitVec.getLsbD_shiftLeft, BitVec.getLsbD_setWidth,
      BitVec.getLsbD_setWidth, BitVec.getLsbD_shiftLeft]
    split <;> simp [h, hi, h.ne, hi1, hi2]
  · rw [BitVec.getLsbD_xor, BitVec.getLsbD_shiftLeft, BitVec.getLsbD_setWidth]
    cases a.getLsbD 15 <;> simp
  · have : a.getLsbD (i - 1) = false := BitVec.getLsbD_of_ge _ _ (by omega)
    rw [BitVec.getLsbD_xor]
    split <;> simp [BitVec.getLsbD_twoPow, this]
    omega

/-- The widened accumulator holds a symbol, and doubling it multiplies by `alpha`. -/
theorem gf16_double_eq (a : Gf16) :
    gf16_double (a.bits.setWidth 32) = (step a).bits.setWidth 32 := by
  unfold gf16_double step
  rw [shiftLeft_setWidth]
  cases a.bits.msb with
  | false =>
    have h : (a.bits <<< 1).setWidth 32 &&& 0x10000#32 = 0#32 := by
      rw [show 0x10000#32 = BitVec.twoPow 32 16 by decide, BitVec.and_twoPow]
      simp
    simp [h]
  | true =>
    have h : ((a.bits <<< 1).setWidth 32 ^^^ 0x10000#32) &&& 0x10000#32 ≠ 0#32 := by
      rw [show 0x10000#32 = BitVec.twoPow 32 16 by decide, BitVec.and_twoPow]
      have hbit : ((a.bits <<< 1).setWidth 32 ^^^ BitVec.twoPow 32 16).getLsbD 16 = true := by
        rw [BitVec.getLsbD_xor, BitVec.getLsbD_setWidth, BitVec.getLsbD_twoPow]
        simp
      rw [if_pos hbit]
      decide
    simp only [↓reduceIte, h, ne_eq, not_false_eq_true, GF16_POLY, BitVec.setWidth_xor]
    rw [BitVec.xor_assoc]
    rfl

/-- The table loop's invariant after `n` iterations. -/
structure InitInv (n : Nat) (st : Gf16Tables × BitVec 32) : Prop where
  acc : st.2 = (alpha ^ n).bits.setWidth 32
  exp_lo : ∀ k < n, Buf.get st.1.exp_tab k = alpha ^ k
  exp_hi : ∀ k < n, Buf.get st.1.exp_tab (k + ADSC_GF16_ORDER) = alpha ^ k
  log : ∀ k < n, Buf.get st.1.log_tab (alpha ^ k).bits.toNat = k

theorem InitInv.step {n : Nat} {st : Gf16Tables × BitVec 32} (hn : n < ADSC_GF16_ORDER)
    (h : InitInv n st) : InitInv (n + 1) (gf16_init_step st n) := by
  have hn' : n < 65535 := hn
  have hx : (⟨st.2.setWidth 16⟩ : Gf16) = alpha ^ n := by
    rw [h.acc]; ext1; simp
  have hx' : st.2.toNat = (alpha ^ n).bits.toNat := by
    rw [h.acc, BitVec.toNat_setWidth]
    exact Nat.mod_eq_of_lt (by omega)
  refine ⟨?_, fun k hk => ?_, fun k hk => ?_, fun k hk => ?_⟩
  · simp only [gf16_init_step]
    rw [h.acc, gf16_double_eq, step_eq_gen_mul, pow_succ']
  · simp only [gf16_init_step, Buf.get_set, hx]
    split
    · omega
    split
    · rename_i h1
      rw [h1.1]
    · exact h.exp_lo k (by omega)
  · simp only [gf16_init_step, Buf.get_set, hx]
    split
    · rename_i h1
      rw [show k = n by omega]
    split
    · omega
    · exact h.exp_hi k (by omega)
  · simp only [gf16_init_step, Buf.get_set, hx']
    split
    · rename_i h1
      have h2 : alpha ^ k = alpha ^ n := BinField.ext (BitVec.eq_of_toNat_eq h1.1)
      rw [Nat.mod_eq_of_lt (show n < 65536 by omega)]
      exact (alpha_pow_inj (by omega) hn h2).symm
    · rename_i h1
      rcases Nat.lt_succ_iff_lt_or_eq.1 hk with h2 | rfl
      · exact h.log k h2
      · exact absurd ⟨rfl, (alpha ^ k).bits.isLt⟩ h1

theorem initInv_loop {n : Nat} (hn : n ≤ ADSC_GF16_ORDER) : InitInv n (gf16_init_loop n) := by
  unfold gf16_init_loop
  induction n with
  | zero => exact ⟨by simp, by simp, by simp, by simp⟩
  | succ n ih =>
    rw [List.range_succ, List.foldl_append]
    exact (ih (by omega)).step (by omega)

/-! ## The tables -/

section
variable {n : Nat} (hn : n ≤ ADSC_GF16_ORDER)
include hn

theorem exp_tab_lo {k : Nat} (h : k < n) :
    Buf.get (gf16_init_tables n).exp_tab k = alpha ^ k := (initInv_loop hn).exp_lo k h

theorem exp_tab_hi {k : Nat} (h : k < n) :
    Buf.get (gf16_init_tables n).exp_tab (k + ADSC_GF16_ORDER) = alpha ^ k :=
  (initInv_loop hn).exp_hi k h

theorem log_tab_pow {k : Nat} (h : k < n) :
    Buf.get (gf16_init_tables n).log_tab (alpha ^ k).bits.toNat = k := by
  have h0 : (alpha ^ k).bits.toNat ≠ 0 := fun h0 =>
    alpha_pow_ne_zero k (BinField.ext (BitVec.eq_of_toNat_eq h0))
  simp only [gf16_init_tables]
  rw [Buf.get_set, if_neg (fun h1 => h0 h1.1)]
  exact (initInv_loop hn).log k h

end

/-- The antilog table holds the powers of `alpha`, twice over. -/
theorem gf16_exp_eq {i : Nat} (h : i < 2 * ADSC_GF16_ORDER) : gf16_exp i = alpha ^ i := by
  unfold gf16_exp adsc_gf16_init
  rcases Nat.lt_or_ge i ADSC_GF16_ORDER with hi | hi
  · exact exp_tab_lo (Nat.le_refl _) hi
  · obtain ⟨k, rfl⟩ := Nat.exists_eq_add_of_le' hi
    rw [alpha_pow_add_order]
    exact exp_tab_hi (Nat.le_refl _) (by omega)

/-- The logarithm of a power of `alpha`. -/
theorem gf16_log_pow {k : Nat} (h : k < ADSC_GF16_ORDER) : gf16_log (alpha ^ k) = k := by
  unfold gf16_log adsc_gf16_init
  exact log_tab_pow (Nat.le_refl _) h

/-- **Logarithms**: every non-zero symbol is `alpha` to its logarithm. -/
theorem alpha_pow_log {a : Gf16} (ha : a ≠ 0) :
    gf16_log a < ADSC_GF16_ORDER ∧ alpha ^ gf16_log a = a := by
  obtain ⟨k, hk, rfl⟩ := exists_pow_eq ha
  rw [gf16_log_pow hk]
  exact ⟨hk, rfl⟩

/-! ## The operations -/

@[simp] theorem adsc_gf16_mul_eq (a b : Gf16) : adsc_gf16_mul a b = a * b := by
  unfold adsc_gf16_mul
  split
  · rename_i h
    rcases h with rfl | rfl <;> simp
  · rename_i h
    obtain ⟨ha, hb⟩ := not_or.1 h
    obtain ⟨hla, ha⟩ := alpha_pow_log ha
    obtain ⟨hlb, hb⟩ := alpha_pow_log hb
    rw [gf16_exp_eq (by omega), pow_add, ha, hb]

@[simp] theorem adsc_gf16_div_eq (a b : Gf16) : adsc_gf16_div a b = a / b := by
  unfold adsc_gf16_div
  split
  · rename_i h
    rcases h with rfl | rfl <;> simp
  · rename_i h
    obtain ⟨ha, hb⟩ := not_or.1 h
    obtain ⟨hla, hpa⟩ := alpha_pow_log ha
    obtain ⟨hlb, hpb⟩ := alpha_pow_log hb
    rw [gf16_exp_eq (by omega), eq_div_iff hb]
    calc alpha ^ (gf16_log a + ADSC_GF16_ORDER - gf16_log b) * b
        = alpha ^ (gf16_log a + ADSC_GF16_ORDER - gf16_log b) * alpha ^ gf16_log b := by rw [hpb]
      _ = alpha ^ (gf16_log a + ADSC_GF16_ORDER) := by rw [← pow_add]; congr 1; omega
      _ = a := by rw [alpha_pow_add_order, hpa]

@[simp] theorem adsc_gf16_pow_eq (e : Nat) : adsc_gf16_pow e = alpha ^ e := by
  unfold adsc_gf16_pow
  have := Nat.mod_lt e (show 0 < ADSC_GF16_ORDER by decide)
  rw [gf16_exp_eq (by omega), alpha_pow_mod]

@[simp] theorem adsc_gf16_mul_pow_eq (a : Gf16) (e : Nat) :
    adsc_gf16_mul_pow a e = a * alpha ^ e := by
  unfold adsc_gf16_mul_pow
  split
  · rename_i h
    rw [h, zero_mul]
  · rename_i ha
    obtain ⟨hla, hpa⟩ := alpha_pow_log ha
    have := Nat.mod_lt e (show 0 < ADSC_GF16_ORDER by decide)
    rw [gf16_exp_eq (by omega), pow_add, hpa, alpha_pow_mod]

theorem adsc_gf16_mul_pow_fast_eq (a : Gf16) {e : Nat} (he : e < ADSC_GF16_ORDER) :
    adsc_gf16_mul_pow_fast a e = a * alpha ^ e := by
  unfold adsc_gf16_mul_pow_fast
  split
  · rename_i h
    rw [h, zero_mul]
  · rename_i ha
    obtain ⟨hla, hpa⟩ := alpha_pow_log ha
    rw [gf16_exp_eq (by omega), pow_add, hpa]

end Accudisc
