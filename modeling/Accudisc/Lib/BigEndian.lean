import Mathlib.Algebra.Group.Nat.Defs
import Mathlib.Data.List.Basic

/-!
# Big-endian fields

A number as a field of bytes, the most significant first. `join_field` is the round trip: a field of `n`
bytes gives back the number modulo `256 ^ n`.
-/

namespace BigEndian

/-- Byte `k` of `v`, from the least significant. -/
def byte (v k : Nat) : BitVec 8 := BitVec.ofNat 8 (v >>> (8 * k))

/-- The field of `n` bytes. -/
def field (v : Nat) : Nat → List (BitVec 8)
  | 0 => []
  | n + 1 => byte v n :: field v n

/-- The number of a field, read on from `acc`. -/
def joinFrom (acc : Nat) : List (BitVec 8) → Nat
  | [] => acc
  | b :: bs => joinFrom (256 * acc + b.toNat) bs

def join (bs : List (BitVec 8)) : Nat := joinFrom 0 bs

variable {v n acc : Nat}

theorem byte_toNat (v k : Nat) : (byte v k).toNat = v / 256 ^ k % 256 := by
  rw [byte, BitVec.toNat_ofNat, Nat.shiftRight_eq_div_pow, Nat.pow_mul]

theorem joinFrom_field (acc v n : Nat) : joinFrom acc (field v n) = 256 ^ n * acc + v % 256 ^ n := by
  induction n generalizing acc with
  | zero => rw [field, joinFrom, Nat.pow_zero, Nat.one_mul, Nat.mod_one, Nat.add_zero]
  | succ n ih =>
    have hmod : v % 256 ^ (n + 1) = 256 ^ n * (v / 256 ^ n % 256) + v % 256 ^ n := by
      rw [Nat.pow_succ, Nat.mod_mul, Nat.add_comm]
    rw [field, joinFrom, ih, byte_toNat, hmod, Nat.mul_add, Nat.add_assoc]
    congr 1
    rw [Nat.pow_succ, Nat.mul_assoc]

/-- **Round trip.** -/
theorem join_field (v n : Nat) : join (field v n) = v % 256 ^ n := by
  rw [join, joinFrom_field, Nat.mul_zero, Nat.zero_add]

/-- A field that has room for the number. -/
theorem join_field_of_lt (h : v < 256 ^ n) : join (field v n) = v := by
  rw [join_field, Nat.mod_eq_of_lt h]

end BigEndian
