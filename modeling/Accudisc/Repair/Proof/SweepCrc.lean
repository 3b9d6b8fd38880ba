import Accudisc.Lib.Loop
import Accudisc.Repair.Sweep

/-!
# The sliced CRC is the byte-at-a-time CRC

The tables hold the byte's bits moved on by the bytes that follow it in the slice (`crc_tab_eq`), so one
slice is eight bytes (`crc_slice_eq`) and `crc_update` is the fold over the bytes (`crc_update_eq`).
-/

namespace Accudisc

open Crc

/-- The CRC register after the `n` bytes at `p`, one at a time. -/
def crcBytes (m : Mem) (c : BitVec 32) (p n : Nat) : BitVec 32 :=
  (List.range n).foldl (fun c i => byteStep CRC32_POLY c (m (p + i))) c

theorem crcBytes_add (m : Mem) (c : BitVec 32) (p a b : Nat) :
    crcBytes m c p (a + b) = crcBytes m (crcBytes m c p a) (p + a) b := by
  unfold crcBytes
  rw [List.range_add, List.foldl_append, List.foldl_map]
  simp only [Nat.add_assoc]

theorem crcBytes_succ (m : Mem) (c : BitVec 32) (p n : Nat) :
    crcBytes m c p (n + 1) = byteStep CRC32_POLY (crcBytes m c p n) (m (p + n)) := by
  unfold crcBytes
  rw [List.range_succ, List.foldl_append]
  rfl

theorem crcBytes_congr {m m' : Mem} {p p' n : Nat} (h : ∀ i < n, m (p + i) = m' (p' + i))
    (c : BitVec 32) : crcBytes m c p n = crcBytes m' c p' n := by
  induction n with
  | zero => rfl
  | succ n ih => rw [crcBytes_succ, crcBytes_succ, ih fun i hi => h i (by omega), h n (by omega)]

/-! ## The tables -/

theorem crc_bit_eq (c : BitVec 32) : crc_bit c = bitStep CRC32_POLY c := by
  unfold crc_bit bitStep
  refine if_congr ?_ rfl rfl
  rw [show 1#32 = BitVec.twoPow 32 0 by decide, BitVec.and_twoPow]
  cases c.getLsbD 0
  · simp
  · exact ⟨fun _ => rfl, fun _ => by decide⟩

theorem and_mask (x : BitVec 32) : x &&& 0xFF#32 = (x.setWidth 8).setWidth 32 := by
  have h : ∀ i < 32, (0xFF#32).getLsbD i = decide (i < 8) := by decide
  apply BitVec.eq_of_getLsbD_eq
  intro i hi
  rw [BitVec.getLsbD_and, h i hi, BitVec.getLsbD_setWidth, BitVec.getLsbD_setWidth]
  simp [hi, Bool.and_comm]

theorem crc_tab_zero (i : BitVec 32) : crc_tab 0 i = bits CRC32_POLY 8 i := by
  simp only [crc_tab, crc_bit_eq]
  rfl

/-- `crc_tab[s]` moves its index on by `s + 1` bytes. -/
theorem crc_tab_eq (s : Nat) (i : BitVec 32) : crc_tab s i = bits CRC32_POLY (8 * (s + 1)) i := by
  induction s with
  | zero => exact crc_tab_zero i
  | succ s ih =>
    rw [crc_tab, crc_tab_zero, and_mask, ← bits_eight, ih, ← bits_add]
    rfl

theorem crc_byte_eq (m : Mem) (crc : BitVec 32) (p : Nat) :
    crc_byte m crc p = byteStep CRC32_POLY crc (m p) := by
  have h0 : (m p).setWidth 32 >>> 8 = 0#32 := by
    apply BitVec.eq_of_getLsbD_eq
    intro i _
    simp
  rw [crc_byte, crc_tab_zero, and_mask, byteStep, bits_eight _ (crc ^^^ _),
    BitVec.ushiftRight_xor_distrib, h0, BitVec.xor_zero, BitVec.xor_comm]

/-! ## One slice -/

/-- A word moved on by `n + 1` bytes: its low byte's part, and the rest by `n`. -/
theorem bits_byte (n : Nat) (x : BitVec 32) : bits CRC32_POLY (8 * (n + 1)) x =
    crc_tab n (x &&& 0xFF#32) ^^^ bits CRC32_POLY (8 * n) (x >>> 8) := by
  rw [crc_tab_eq, and_mask, Nat.mul_succ, Nat.add_comm, bits_add, bits_eight, bits_xor, bits_add,
    BitVec.xor_comm]

theorem bits_shiftRight_24 (n : Nat) (x : BitVec 32) : bits CRC32_POLY (8 * (n + 1)) (x >>> 24) =
    crc_tab n ((x >>> 24) &&& 0xFF#32) := by
  have h0 : x >>> 24 >>> 8 = 0#32 := by
    apply BitVec.eq_of_getLsbD_eq
    intro i _
    simp only [BitVec.getLsbD_ushiftRight, BitVec.getLsbD_zero]
    exact BitVec.getLsbD_of_ge _ _ (by omega)
  have hz : ∀ k, bits CRC32_POLY k 0#32 = 0#32 := fun k => by
    rw [bits_of_low_clear _ (by simp)]; simp
  rw [bits_byte, h0, hz, BitVec.xor_zero]

/-- The four table entries of a word. -/
theorem bits_word (n : Nat) (x : BitVec 32) : bits CRC32_POLY (8 * (n + 4)) x =
    crc_tab (n + 3) (x &&& 0xFF#32) ^^^ crc_tab (n + 2) ((x >>> 8) &&& 0xFF#32) ^^^
      crc_tab (n + 1) ((x >>> 16) &&& 0xFF#32) ^^^ crc_tab n ((x >>> 24) &&& 0xFF#32) := by
  rw [bits_byte, bits_byte, ← BitVec.shiftRight_add, bits_byte, ← BitVec.shiftRight_add,
    bits_shiftRight_24, BitVec.xor_assoc, BitVec.xor_assoc]

/-- A byte that enters one place up waits for the byte below it. -/
theorem bits_shiftLeft_byte {n k : Nat} (hk : 8 * (k + 1) ≤ 32) (b : BitVec 8) :
    bits CRC32_POLY (8 * (n + k)) (b.setWidth 32 <<< (8 * k)) =
      bits CRC32_POLY (8 * n) (b.setWidth 32) := by
  have h : (b.setWidth 32 <<< (8 * k)) >>> (8 * k) = b.setWidth 32 := by
    apply BitVec.eq_of_getLsbD_eq
    intro i hi
    simp only [BitVec.getLsbD_ushiftRight, BitVec.getLsbD_shiftLeft, BitVec.getLsbD_setWidth]
    by_cases h8 : i < 8
    · simp [hi, show 8 * k + i < 32 by omega]
    · simp [BitVec.getLsbD_of_ge b i (by omega)]
  have hlow : bits CRC32_POLY (8 * k) (b.setWidth 32 <<< (8 * k)) =
      (b.setWidth 32 <<< (8 * k)) >>> (8 * k) :=
    bits_of_low_clear _ fun i hi => by simp [BitVec.getLsbD_shiftLeft, hi]
  rw [show 8 * (n + k) = 8 * k + 8 * n by omega, bits_add, hlow, h]

theorem load32_eq (m : Mem) (p : Nat) : load32 m p = (m p).setWidth 32 ^^^
    ((m (p + 1)).setWidth 32 <<< 8) ^^^ ((m (p + 2)).setWidth 32 <<< 16) ^^^
      ((m (p + 3)).setWidth 32 <<< 24) := by
  unfold load32
  apply BitVec.eq_of_getLsbD_eq
  intro i hi
  simp only [BitVec.getLsbD_append, BitVec.getLsbD_xor, BitVec.getLsbD_setWidth,
    BitVec.getLsbD_shiftLeft, hi, decide_true, Bool.true_and]
  rcases Nat.lt_or_ge i 8 with h | h
  · simp [h, show i < 16 by omega, show i < 24 by omega]
  rw [BitVec.getLsbD_of_ge (m p) i h]
  rcases Nat.lt_or_ge i 16 with h1 | h1
  · simp [show ¬i < 8 by omega, h1, show i - 8 < 8 by omega, show i - 8 < 32 by omega,
      show i < 24 by omega]
  rw [BitVec.getLsbD_of_ge (m (p + 1)) (i - 8) (by omega)]
  rcases Nat.lt_or_ge i 24 with h2 | h2
  · simp [show ¬i < 8 by omega, show ¬i < 16 by omega, show ¬i - 8 < 8 by omega, h2,
      show i - 16 < 32 by omega, show i - 8 - 8 = i - 16 by omega, show i - 16 < 8 by omega]
  rw [BitVec.getLsbD_of_ge (m (p + 2)) (i - 16) (by omega)]
  simp [show ¬i < 8 by omega, show ¬i < 16 by omega, show ¬i < 24 by omega,
    show ¬i - 8 < 8 by omega, show ¬i - 8 - 8 < 8 by omega, show i - 24 < 32 by omega,
    show i - 8 - 8 - 8 = i - 24 by omega]

/-- A byte into a register that has moved on by `k` bytes. -/
theorem byteStep_bits {k : Nat} (hk : 8 * (k + 1) ≤ 32) (x : BitVec 32) (b : BitVec 8) :
    byteStep CRC32_POLY (bits CRC32_POLY (8 * k) x) b =
      bits CRC32_POLY (8 * (k + 1)) (x ^^^ (b.setWidth 32 <<< (8 * k))) := by
  have h := bits_shiftLeft_byte (n := 1) hk b
  rw [Nat.add_comm 1 k, Nat.mul_one] at h
  rw [byteStep, bits_xor, bits_xor, h, ← bits_add, Nat.mul_succ]

/-- Four bytes are one word. -/
theorem crcBytes_four (m : Mem) (c : BitVec 32) (p : Nat) :
    crcBytes m c p 4 = bits CRC32_POLY 32 (load32 m p ^^^ c) := by
  have h0 : crcBytes m c p 0 = bits CRC32_POLY (8 * 0) c := rfl
  rw [crcBytes_succ, crcBytes_succ, crcBytes_succ, crcBytes_succ, h0, byteStep_bits (by decide),
    byteStep_bits (by decide), byteStep_bits (by decide), byteStep_bits (by decide), load32_eq]
  simp only [Nat.mul_zero, BitVec.shiftLeft_zero, Nat.add_zero, Nat.reduceAdd, Nat.reduceMul,
    BitVec.xor_assoc, BitVec.xor_comm c]

theorem crc_slice_eq (m : Mem) (c : BitVec 32) (p : Nat) :
    crc_slice m c p = crcBytes m c p 8 := by
  have ha : bits CRC32_POLY (32 + 32) (load32 m p ^^^ c) = _ := bits_word 4 (load32 m p ^^^ c)
  have hb : bits CRC32_POLY 32 (load32 m (p + 4)) = _ := bits_word 0 (load32 m (p + 4))
  rw [crcBytes_add m c p 4 4, crcBytes_four, crcBytes_four, bits_xor, BitVec.xor_comm,
    ← bits_add, ha, hb]
  unfold crc_slice
  simp only [BitVec.xor_assoc]

/-- **The sliced CRC** is the CRC byte by byte. -/
theorem crc_update_eq (m : Mem) (c : BitVec 32) (p n : Nat) :
    crc_update m c p n = crcBytes m c p n := by
  have hslice : ∀ k, (List.range k).foldl (fun crc i => crc_slice m crc (p + 8 * i)) c =
      crcBytes m c p (8 * k) := by
    intro k
    refine Loop.foldl_range_inv (fun k crc => crc = crcBytes m c p (8 * k)) rfl ?_
    rintro i - _ rfl
    rw [crc_slice_eq, ← crcBytes_add, Nat.mul_succ]
  have htail : ∀ k crc q, (List.range k).foldl (fun crc i => crc_byte m crc (q + i)) crc =
      crcBytes m crc q k := by
    intro k crc q
    simp only [crc_byte_eq]
    rfl
  unfold crc_update
  rw [hslice, htail, ← crcBytes_add, Nat.div_add_mod]

end Accudisc
