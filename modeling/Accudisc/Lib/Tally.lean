import Mathlib.Algebra.BigOperators.Group.Finset.Basic
import Mathlib.Algebra.BigOperators.Group.List.Basic
import Mathlib.Algebra.BigOperators.Intervals

/-!
# Tallies

A loop tallies when each of its turns adds an amount of its own to a part of the state, whatever the state
is (`Tallies`). What the part holds at the end is a sum (`Tallies.foldl`).
-/

/-- The turn `f s i` adds `g i` to the part `π` of the state, for the turns in `P`. -/
def Tallies {σ ι M : Type*} [Add M] (P : ι → Prop) (π : σ → M) (f : σ → ι → σ) (g : ι → M) : Prop :=
  ∀ s i, P i → π (f s i) = π s + g i

namespace Tallies

variable {σ ι M : Type*} [AddCommMonoid M] {P : ι → Prop} {π : σ → M} {f : σ → ι → σ} {g : ι → M}

theorem foldl (h : Tallies P π f g) (l : List ι) (hl : ∀ i ∈ l, P i) (s : σ) :
    π (l.foldl f s) = π s + (l.map g).sum := by
  induction l generalizing s with
  | nil => simp
  | cons i l ih =>
    rw [List.foldl_cons, ih (fun j hj => hl j (List.mem_cons_of_mem i hj)), h s i (hl i List.mem_cons_self),
      List.map_cons, List.sum_cons, add_assoc]

/-- A tallying `for` loop. -/
theorem foldl_range {f : σ → Nat → σ} {g : Nat → M} {n : Nat} (h : Tallies (· < n) π f g) (s : σ) :
    π ((List.range n).foldl f s) = π s + ∑ i ∈ Finset.range n, g i := by
  rw [h.foldl _ (fun i hi => List.mem_range.1 hi)]
  rfl

end Tallies
