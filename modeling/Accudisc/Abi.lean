import Accudisc.Err
import Mathlib.Algebra.Group.Nat.Defs

/-!
# Structures whose size the caller declares (`abi.c`)

A caller's structure is its first `size` bytes. A function that fills one in is also the list of what it
stores there, each store with its offset and its length.
-/

namespace Accudisc

/-- A store into the caller's structure. -/
structure StructWrite where
  off : Nat
  len : Nat
deriving DecidableEq

/-- `memset((char *)out + sizeof(out->size), 0, out->size - sizeof(out->size))`; the length is a
`size_t`. -/
def clear_struct (size : Nat) : StructWrite := ⟨4, (size + 2 ^ 64 - 4) % 2 ^ 64⟩

/-- The bytes to write back. -/
def adsc_abi_export (want have_bytes : Nat) : Except Int Nat :=
  if have_bytes < 4 then .error ACCUDISC_ERR_INVAL
  else if want < 4 then .error ACCUDISC_ERR_ABI
  else if have_bytes < want then .error ACCUDISC_ERR_ABI
  else .ok want

/-- No byte from `size` on is stored to, and the length to clear is not below zero. -/
structure SizeHonoured (size : Nat) (ws : List StructWrite) : Prop where
  clears : clear_struct size ∈ ws → 4 ≤ size
  inside : ∀ w ∈ ws, w.off + w.len ≤ size

section
variable {size : Nat} {ws vs : List StructWrite}

theorem clear_struct_inside (h : 4 ≤ size) (hs : size < 2 ^ 32) :
    (clear_struct size).off + (clear_struct size).len = size := by
  show 4 + (size + 2 ^ 64 - 4) % 2 ^ 64 = size
  rw [show size + 2 ^ 64 - 4 = size - 4 + 2 ^ 64 by omega, Nat.add_mod_right, Nat.mod_eq_of_lt (by omega)]
  omega

/-- Stores up to `n`, one of them to its very end, are inside exactly where the structure has `n` bytes. -/
theorem sizeHonoured_iff {n : Nat} (hn : 4 ≤ n) (hs : size < 2 ^ 32)
    (hws : ∀ w ∈ ws, w.off + w.len ≤ n ∨ w.off + w.len ≤ size ∨ w = clear_struct size)
    (hmax : ∃ w ∈ ws, w.off + w.len = n) : SizeHonoured size ws ↔ n ≤ size := by
  constructor
  · intro h
    obtain ⟨w, hw, heq⟩ := hmax
    rw [← heq]
    exact h.inside w hw
  · intro h
    refine ⟨fun _ => by omega, fun w hw => ?_⟩
    rcases hws w hw with hw | hw | rfl
    · omega
    · exact hw
    · exact Nat.le_of_eq (clear_struct_inside (by omega) hs)

end

end Accudisc
