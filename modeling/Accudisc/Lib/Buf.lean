import Mathlib.Data.Vector.Basic
import Mathlib.Algebra.Group.Defs

/-!
# Fixed-length buffers

An array of a fixed length, read and written by a plain index: a read past the end is 0 and a
write past the end does nothing. `get_set` and `get_fill` are all that proofs need.
-/

/-- An array of `n` elements. -/
abbrev Buf (α : Type*) (n : Nat) := Vector α n

namespace Buf

variable {α : Type*} [Zero α] {n : Nat}

/-- The element at index `i`. -/
def get (b : Buf α n) (i : Nat) : α := b[i]?.getD 0

/-- The buffer with the element at index `i` replaced. -/
def set (b : Buf α n) (i : Nat) (a : α) : Buf α n := b.setIfInBounds i a

/-- The buffer of zeros. -/
def zeros (α : Type*) [Zero α] (n : Nat) : Buf α n := Vector.replicate n 0

/-- The buffer with the values of `f`. -/
def fill (n : Nat) (f : Nat → α) : Buf α n := Vector.ofFn fun i => f i

@[simp] theorem get_zeros (i : Nat) : get (zeros α n) i = 0 := by
  unfold get zeros
  rcases Nat.lt_or_ge i n with h | h <;> simp [h]

@[simp] theorem get_fill (f : Nat → α) (i : Nat) :
    get (fill n f) i = if i < n then f i else 0 := by
  unfold get fill
  rcases Nat.lt_or_ge i n with h | h <;> simp [h]

theorem get_set (b : Buf α n) (i : Nat) (a : α) (j : Nat) :
    get (set b i a) j = if j = i ∧ j < n then a else get b j := by
  unfold get set
  rw [Vector.getElem?_setIfInBounds]
  by_cases hij : i = j
  · subst hij
    by_cases hi : i < n
    · simp [hi]
    · simp [hi]
  · rw [if_neg hij, if_neg (fun h => hij h.1.symm)]

theorem ext_get {b c : Buf α n} (h : ∀ i < n, get b i = get c i) : b = c := by
  refine Vector.ext fun i hi => ?_
  have := h i hi
  unfold get at this
  simpa [hi] using this

end Buf
