import Accudisc.Cdda.Rw
import Accudisc.Lib.BinField
import Mathlib.Tactic.NormNum.Prime

/-!
# The symbols of the R-W code

A symbol is six bits in a byte. The tables of `gf_init` are checked against the field once, entry by
entry; then `gf_mul`, `gf_div` and `gf_pow` are its operations.
-/

namespace Accudisc

open BinField

/-- The field of `X ^ 6 + X + 1`. -/
abbrev Gf6 := BinField 6 0x03#6

/-- The generator. -/
abbrev beta : Gf6 := gen 6 0x03#6

/-- The byte of a symbol, and the symbol of a byte. -/
def Gf6.byte (a : Gf6) : BitVec 8 := a.bits.setWidth 8
def sym (b : BitVec 8) : Gf6 := ⟨b.setWidth 6⟩

/-- A byte of six bits. -/
def SixBit (b : BitVec 8) : Prop := b.toNat < 64

variable {a b : Gf6} {x y : BitVec 8}

theorem byte_toNat (a : Gf6) : a.byte.toNat = a.bits.toNat := by
  unfold Gf6.byte
  rw [BitVec.toNat_setWidth]
  exact Nat.mod_eq_of_lt (a.bits.isLt.trans (by decide))

theorem byte_sixBit (a : Gf6) : SixBit a.byte := by
  unfold SixBit
  rw [byte_toNat]
  exact a.bits.isLt

@[simp] theorem sym_byte (a : Gf6) : sym a.byte = a := by
  ext1
  apply BitVec.eq_of_toNat_eq
  show (a.byte.setWidth 6).toNat = _
  rw [BitVec.toNat_setWidth, byte_toNat]
  exact Nat.mod_eq_of_lt a.bits.isLt

theorem byte_sym (h : SixBit x) : (sym x).byte = x := by
  apply BitVec.eq_of_toNat_eq
  rw [byte_toNat]
  show (x.setWidth 6).toNat = _
  rw [BitVec.toNat_setWidth]
  exact Nat.mod_eq_of_lt h

theorem byte_add (a b : Gf6) : (a + b).byte = a.byte ^^^ b.byte := BitVec.setWidth_xor

theorem byte_inj (h : a.byte = b.byte) : a = b := by
  rw [← sym_byte a, h, sym_byte]

theorem byte_zero : (0 : Gf6).byte = 0 := rfl

theorem byte_eq_zero : a.byte = 0 ↔ a = 0 :=
  ⟨fun h => byte_inj (h.trans byte_zero.symm), fun h => by rw [h]; rfl⟩

theorem sym_inj (hx : SixBit x) (hy : SixBit y) (h : sym x = sym y) : x = y := by
  rw [← byte_sym hx, h, byte_sym hy]

/-- A symbol is its own negative. -/
theorem gf6_two : (2 : Gf6) = 0 := by
  rw [← one_add_one_eq_two]
  exact add_neg_cancel (1 : Gf6)

theorem gf6_add_self (a : Gf6) : a + a = 0 := add_neg_cancel a

theorem gf6_add_eq_zero : a + b = 0 ↔ a = b := by
  rw [← sub_eq_add, sub_eq_zero]

/-! ## The generator -/

theorem beta_pow_div_ne_one (bs : List Bool) (h : powBits beta bs ≠ 1) : beta ^ bitsVal bs ≠ 1 := by
  rwa [powBits_eq] at h

theorem gf6_prime_dvd {q : Nat} (hq : q.Prime) (h : q ∣ GF_ORDER) : q = 3 ∨ q = 7 := by
  rw [show GF_ORDER = 3 * 3 * 7 by rfl, hq.dvd_mul, hq.dvd_mul] at h
  rcases h with (h | h) | h
  · exact .inl ((Nat.prime_dvd_prime_iff_eq hq (by norm_num)).1 h)
  · exact .inl ((Nat.prime_dvd_prime_iff_eq hq (by norm_num)).1 h)
  · exact .inr ((Nat.prime_dvd_prime_iff_eq hq (by norm_num)).1 h)

/-- **2 generates the symbols**: `X ^ 6 + X + 1` is primitive. -/
instance primitive_gf6 : Primitive 6 0x03#6 := by
  refine primitive_of_check (by decide) ?_ fun q hq h => ?_
  · have h : powBits beta (List.replicate 6 true) = 1 := by decide +kernel
    rw [powBits_eq] at h
    exact h
  · rcases gf6_prime_dvd hq h with rfl | rfl
    · exact beta_pow_div_ne_one [true, false, true, false, true] (by decide +kernel)
    · exact beta_pow_div_ne_one [true, false, false, true] (by decide +kernel)

theorem beta_pow_inj {i j : Nat} (hi : i < GF_ORDER) (hj : j < GF_ORDER) (h : beta ^ i = beta ^ j) :
    i = j :=
  gen_pow_inj hi hj h

theorem beta_pow_order : beta ^ GF_ORDER = 1 := gen_pow_order

/-! ## The tables -/

/-- The antilog table, entry by entry. -/
theorem exp_table : gf_exp 0 = (1 : Gf6).byte ∧
    ∀ i < 125, gf_exp (i + 1) = Gf6.byte (step (sym (gf_exp i))) := by decide +kernel

theorem log_table : ∀ i < GF_ORDER, gf_log (gf_exp i) = i := by decide +kernel

theorem gf_exp_eq {i : Nat} (h : i < 126) : gf_exp i = (beta ^ i).byte := by
  induction i with
  | zero => exact exp_table.1
  | succ i ih => rw [exp_table.2 i (by omega), ih (by omega), sym_byte, step_eq_gen_mul, pow_succ']

theorem gf_log_pow {k : Nat} (h : k < GF_ORDER) : gf_log (beta ^ k).byte = k := by
  unfold GF_ORDER at h
  rw [← gf_exp_eq (by omega)]
  exact log_table k h

/-- Every non-zero symbol is the generator to its logarithm. -/
theorem beta_pow_log (ha : a ≠ 0) : gf_log a.byte < GF_ORDER ∧ beta ^ gf_log a.byte = a := by
  obtain ⟨k, hk, rfl⟩ := exists_pow_eq ha
  rw [gf_log_pow hk]
  exact ⟨hk, rfl⟩

/-! ## The operations -/

theorem gf_mul_eq (a b : Gf6) : gf_mul a.byte b.byte = (a * b).byte := by
  unfold gf_mul
  simp only [byte_eq_zero]
  by_cases h : a = 0 ∨ b = 0
  · rw [if_pos h]
    rcases h with rfl | rfl <;> simp [byte_zero]
  · rw [if_neg h]
    obtain ⟨ha, hb⟩ := not_or.1 h
    obtain ⟨hla, hpa⟩ := beta_pow_log ha
    obtain ⟨hlb, hpb⟩ := beta_pow_log hb
    unfold GF_ORDER at hla hlb
    rw [gf_exp_eq (by omega), pow_add, hpa, hpb]

theorem gf_div_eq (a : Gf6) (hb : b ≠ 0) : gf_div a.byte b.byte = (a / b).byte := by
  unfold gf_div
  simp only [byte_eq_zero]
  by_cases ha : a = 0
  · rw [if_pos ha, ha, zero_div]
    rfl
  · rw [if_neg ha]
    obtain ⟨hla, hpa⟩ := beta_pow_log ha
    obtain ⟨hlb, hpb⟩ := beta_pow_log hb
    have hlt : gf_log a.byte + GF_ORDER - gf_log b.byte < 126 := by
      unfold GF_ORDER at hla hlb ⊢
      omega
    rw [gf_exp_eq hlt]
    congr 1
    rw [eq_div_iff hb]
    calc beta ^ (gf_log a.byte + GF_ORDER - gf_log b.byte) * b
        = beta ^ (gf_log a.byte + GF_ORDER - gf_log b.byte) * beta ^ gf_log b.byte := by rw [hpb]
      _ = beta ^ (gf_log a.byte + GF_ORDER) := by
        rw [← pow_add]
        congr 1
        omega
      _ = a := by rw [pow_add, hpa, beta_pow_order, mul_one]

theorem gf_pow_eq (e : Nat) : gf_pow e = (beta ^ e).byte := by
  unfold gf_pow
  have := Nat.mod_lt e (show 0 < GF_ORDER by decide)
  unfold GF_ORDER at this
  rw [gf_exp_eq (by unfold GF_ORDER; omega)]
  exact congrArg Gf6.byte (gen_pow_mod e)

end Accudisc
