import Mathlib.Data.List.Induction
import Mathlib.Order.Basic

/-!
# The least score and the runner-up

A scan keeps the least score, the least of the others, and the first element that has the least. Scoring
an element may be given up once its score reaches the runner-up (`Abandons`): what it then says is not the
element's key. Neither recorded score is one that was given up (`scan_spec`).
-/

namespace LeastTwo

variable {α : Type*}

/-- `top` stands for no score. -/
structure Scores (α : Type*) where
  best : Nat
  second : Nat
  pick : α

/-- One element, scored against the runner-up. -/
def step (score : Nat → α → Nat) (s : Scores α) (x : α) : Scores α :=
  let b := score s.second x
  if b < s.best then { best := b, second := s.best, pick := x }
  else if b < s.second then { s with second := b }
  else s

/-- The score is the key, unless it is given up at the bound. -/
def Abandons (score : Nat → α → Nat) (key : α → Nat) : Prop :=
  ∀ bound x, score bound x = key x ∨ (bound ≤ score bound x ∧ score bound x ≤ key x)

/-- What the scores are after the elements `xs`: the first of least key, and the least key of the others. -/
structure Found (top : Nat) (key : α → Nat) (xs : List α) (s : Scores α) (before after : List α) :
    Prop where
  split : xs = before ++ s.pick :: after
  best : key s.pick = s.best
  below : s.best < top
  first : ∀ x ∈ before, s.best < key x
  least : ∀ x ∈ after, s.best ≤ key x
  second_le : s.second ≤ top
  second : ∀ x ∈ before ++ after, s.second ≤ key x
  attained : s.second = top ∨ ∃ x ∈ before ++ after, key x = s.second

/-- No element has a key below `top` yet. -/
def Nothing (top : Nat) (key : α → Nat) (xs : List α) (s : Scores α) : Prop :=
  s.best = top ∧ s.second = top ∧ ∀ x ∈ xs, top ≤ key x

section
variable {top : Nat} {score : Nat → α → Nat} {key : α → Nat} {xs : List α} {s : Scores α}
  {before after : List α}

theorem Found.ordered (h : Found top key xs s before after) : s.best ≤ s.second := by
  rcases h.attained with ht | ⟨x, hx, hk⟩
  · rw [ht]
    exact Nat.le_of_lt h.below
  · rw [← hk]
    rcases List.mem_append.1 hx with hx | hx
    · exact Nat.le_of_lt (h.first x hx)
    · exact h.least x hx

/-- Below the bound the score is the key; from the bound on so is the key. -/
theorem Abandons.lt (h : Abandons score key) {bound b : Nat} {x : α} (hb : b ≤ bound) :
    score bound x < b ↔ key x < b := by
  rcases h bound x with he | ⟨h1, h2⟩
  · rw [he]
  · omega

theorem Abandons.eq (h : Abandons score key) {bound : Nat} {x : α} (hlt : score bound x < bound) :
    score bound x = key x := by
  rcases h bound x with he | ⟨h1, -⟩
  · exact he
  · omega

theorem step_nothing (ha : Abandons score key) (h : Nothing top key xs s) (x : α) :
    Nothing top key (xs ++ [x]) (step score s x) ∨
      ∃ before after, Found top key (xs ++ [x]) (step score s x) before after := by
  obtain ⟨hb, hs, hall⟩ := h
  unfold step
  simp only [hb, hs]
  by_cases hlt : score top x < top
  · refine .inr ⟨xs, [], ?_⟩
    rw [if_pos hlt]
    have hk := ha.eq hlt
    exact
      { split := rfl
        best := hk.symm
        below := hlt
        first := fun y hy => Nat.lt_of_lt_of_le hlt (hall y hy)
        least := by simp
        second_le := Nat.le_refl _
        second := by simpa using hall
        attained := .inl rfl }
  · refine .inl ⟨?_, ?_, fun y hy => ?_⟩
    · rw [if_neg hlt, if_neg hlt]
      exact hb
    · rw [if_neg hlt, if_neg hlt]
      exact hs
    · rcases List.mem_append.1 hy with hy | hy
      · exact hall y hy
      · rw [List.mem_singleton.1 hy]
        exact Nat.not_lt.1 fun h => hlt ((ha.lt (Nat.le_refl _)).2 h)

theorem step_found (ha : Abandons score key) (h : Found top key xs s before after) (x : α) :
    ∃ before' after', Found top key (xs ++ [x]) (step score s x) before' after' := by
  have hord := h.ordered
  unfold step
  simp only []
  by_cases hbest : score s.second x < s.best
  · -- a new winner: the old one is the runner-up
    have hk := ha.eq (Nat.lt_of_lt_of_le hbest hord)
    refine ⟨xs, [], ?_⟩
    have hall : ∀ y ∈ xs, s.best ≤ key y := by
      intro y hy
      rw [h.split] at hy
      rcases List.mem_append.1 hy with hy | hy
      · exact Nat.le_of_lt (h.first y hy)
      rcases List.mem_cons.1 hy with rfl | hy
      · exact Nat.le_of_eq h.best.symm
      · exact h.least y hy
    rw [if_pos hbest]
    exact
      { split := rfl
        best := hk.symm
        below := Nat.lt_trans hbest h.below
        first := fun y hy => Nat.lt_of_lt_of_le hbest (hall y hy)
        least := by simp
        second_le := Nat.le_of_lt h.below
        second := by simpa using hall
        attained := .inr ⟨s.pick, by rw [h.split]; simp, h.best⟩ }
  · have hge : s.best ≤ key x := Nat.not_lt.1 fun hlt => hbest ((ha.lt hord).2 hlt)
    have hsplit : xs ++ [x] = before ++ s.pick :: (after ++ [x]) := by
      rw [h.split, List.append_assoc, List.cons_append]
    have hleast : ∀ y ∈ after ++ [x], s.best ≤ key y := by
      intro y hy
      rcases List.mem_append.1 hy with hy | hy
      · exact h.least y hy
      · rw [List.mem_singleton.1 hy]
        exact hge
    refine ⟨before, after ++ [x], ?_⟩
    rw [if_neg hbest]
    by_cases hsec : score s.second x < s.second
    · have hk := ha.eq hsec
      rw [if_pos hsec]
      exact
        { split := hsplit
          best := h.best
          below := h.below
          first := h.first
          least := hleast
          second_le := Nat.le_trans (Nat.le_of_lt hsec) h.second_le
          second := fun y hy => by
            rw [← List.append_assoc] at hy
            rcases List.mem_append.1 hy with hy | hy
            · exact Nat.le_trans (Nat.le_of_lt hsec) (h.second y hy)
            · rw [List.mem_singleton.1 hy]
              exact Nat.le_of_eq hk
          attained := .inr ⟨x, by simp, hk.symm⟩ }
    · rw [if_neg hsec]
      exact
        { split := hsplit
          best := h.best
          below := h.below
          first := h.first
          least := hleast
          second_le := h.second_le
          second := fun y hy => by
            rw [← List.append_assoc] at hy
            rcases List.mem_append.1 hy with hy | hy
            · exact h.second y hy
            · rw [List.mem_singleton.1 hy]
              exact Nat.not_lt.1 fun hlt => hsec ((ha.lt (Nat.le_refl _)).2 hlt)
          attained := by
            rcases h.attained with ht | ⟨y, hy, hk⟩
            · exact .inl ht
            · exact .inr ⟨y, by rw [← List.append_assoc]; exact List.mem_append_left _ hy, hk⟩ }

/-- **The scan** from no score. -/
theorem scan_spec (ha : Abandons score key) (xs : List α) (top : Nat) (x0 : α) :
    Nothing top key xs (xs.foldl (step score) ⟨top, top, x0⟩) ∨
      ∃ before after, Found top key xs (xs.foldl (step score) ⟨top, top, x0⟩) before after := by
  induction xs using List.reverseRecOn with
  | nil => exact .inl ⟨rfl, rfl, by simp⟩
  | append_singleton xs x ih =>
    rw [List.foldl_append, List.foldl_cons, List.foldl_nil]
    rcases ih with hn | ⟨before, after, hf⟩
    · exact step_nothing ha hn x
    · exact .inr (step_found ha hf x)

end

end LeastTwo
