import Mathlib.Algebra.Group.Nat.Defs
import Mathlib.Logic.Function.Basic

/-!
# Memory

An address-indexed array of bytes, for the process's memory as for one buffer of it.
-/

namespace Accudisc

/-- The process's memory, byte by byte. -/
abbrev Mem := Nat → BitVec 8

/-- Copy the `n` bytes at `src` of another buffer to `dst`. -/
def memcpy (m : Mem) (dst : Nat) (other : Mem) (src n : Nat) : Mem := fun a =>
  if dst ≤ a ∧ a < dst + n then other (src + (a - dst)) else m a

/-- Set the `n` bytes at `dst` to `b`. -/
def memset (m : Mem) (dst : Nat) (b : BitVec 8) (n : Nat) : Mem := fun a =>
  if dst ≤ a ∧ a < dst + n then b else m a

section
variable {m other : Mem} {dst src n a : Nat} {b : BitVec 8}

theorem memcpy_in (h : dst ≤ a) (h' : a < dst + n) :
    memcpy m dst other src n a = other (src + (a - dst)) := if_pos ⟨h, h'⟩

theorem memcpy_out (h : a < dst ∨ dst + n ≤ a) : memcpy m dst other src n a = m a :=
  if_neg (by omega)

/-- Different blocks of `b` bytes do not meet. -/
theorem block_disjoint {j k b i : Nat} (hjk : j ≠ k) (hi : i < b) (hn : n ≤ b) :
    j * b + i < k * b ∨ k * b + n ≤ j * b + i := by
  rcases Nat.lt_or_gt_of_ne hjk with h | h
  · have := Nat.mul_le_mul_right b (Nat.succ_le_of_lt h)
    rw [Nat.succ_mul] at this
    exact .inl (by omega)
  · have := Nat.mul_le_mul_right b (Nat.succ_le_of_lt h)
    rw [Nat.succ_mul] at this
    exact .inr (by omega)

end

end Accudisc
