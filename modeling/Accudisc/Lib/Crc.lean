/-!
# Reflected CRCs

One bit of a reflected CRC of width `w` shifts the register right and adds the polynomial when a one
falls out (`bitStep`); a byte is eight of them (`byteStep`). The register is linear in its contents
(`bits_xor`) and zeros only move down (`bits_shiftLeft`), which is what tables and slices rest on: eight
bits of a word are the table entry of its low byte and the rest moved down (`bits_eight`).
-/

namespace Crc

variable {w : Nat} (p : BitVec w)

/-- One bit out of the register. -/
def bitStep (c : BitVec w) : BitVec w :=
  if c.getLsbD 0 then p ^^^ (c >>> 1) else c >>> 1

/-- `n` bits out of the register. -/
def bits : Nat → BitVec w → BitVec w
  | 0, c => c
  | n + 1, c => bits n (bitStep p c)

/-- One byte into the register. -/
def byteStep (c : BitVec w) (b : BitVec 8) : BitVec w := bits p 8 (c ^^^ b.setWidth w)

theorem bitStep_xor (a b : BitVec w) : bitStep p (a ^^^ b) = bitStep p a ^^^ bitStep p b := by
  unfold bitStep
  rw [BitVec.getLsbD_xor, BitVec.ushiftRight_xor_distrib]
  apply BitVec.eq_of_getLsbD_eq
  intro i _
  cases a.getLsbD 0 <;> cases b.getLsbD 0 <;> simp [Bool.xor_left_comm]

@[simp] theorem bits_zero (c : BitVec w) : bits p 0 c = c := rfl

theorem bits_xor (n : Nat) (a b : BitVec w) : bits p n (a ^^^ b) = bits p n a ^^^ bits p n b := by
  induction n generalizing a b with
  | zero => rfl
  | succ n ih => rw [bits, bitStep_xor, ih]; rfl

theorem bits_add (m n : Nat) (c : BitVec w) : bits p (m + n) c = bits p n (bits p m c) := by
  induction m generalizing c with
  | zero => rw [Nat.zero_add]; rfl
  | succ m ih => rw [Nat.succ_add, bits, ih]; rfl

/-- A register whose low `n` bits are clear moves down. -/
theorem bits_of_low_clear {n : Nat} {c : BitVec w} (h : ∀ i < n, c.getLsbD i = false) :
    bits p n c = c >>> n := by
  induction n generalizing c with
  | zero => simp
  | succ n ih =>
    have h0 : bitStep p c = c >>> 1 := by simp [bitStep, h 0 (Nat.succ_pos n)]
    rw [bits, h0, ih, ← BitVec.shiftRight_add, Nat.add_comm]
    intro i hi
    rw [BitVec.getLsbD_ushiftRight]
    exact h (1 + i) (by omega)

theorem bits_shiftRight_shiftLeft (n : Nat) (c : BitVec w) : bits p n (c >>> n <<< n) = c >>> n := by
  rw [bits_of_low_clear]
  · apply BitVec.eq_of_getLsbD_eq
    intro i hi
    simp only [BitVec.getLsbD_ushiftRight, BitVec.getLsbD_shiftLeft, Nat.add_sub_cancel_left]
    by_cases h : n + i < w
    · simp [h]
    · simp [h, BitVec.getLsbD_of_ge c (n + i) (by omega)]
  · intro i hi
    simp [BitVec.getLsbD_shiftLeft, hi]

/-- A word is its low byte and the rest. -/
theorem split_low (c : BitVec w) : c = (c.setWidth 8).setWidth w ^^^ (c >>> 8 <<< 8) := by
  apply BitVec.eq_of_getLsbD_eq
  intro i hi
  simp only [BitVec.getLsbD_xor, BitVec.getLsbD_setWidth, BitVec.getLsbD_shiftLeft,
    BitVec.getLsbD_ushiftRight]
  by_cases h : i < 8
  · simp [h, hi]
  · simp [h, hi, show 8 + (i - 8) = i by omega]

/-- **Eight bits** are the low byte's eight and the rest moved down. -/
theorem bits_eight (c : BitVec w) :
    bits p 8 c = (c >>> 8) ^^^ bits p 8 ((c.setWidth 8).setWidth w) := by
  calc bits p 8 c = bits p 8 ((c.setWidth 8).setWidth w ^^^ (c >>> 8 <<< 8)) := by
        rw [← split_low]
    _ = bits p 8 ((c.setWidth 8).setWidth w) ^^^ (c >>> 8) := by
        rw [bits_xor, bits_shiftRight_shiftLeft]
    _ = _ := BitVec.xor_comm _ _

end Crc
