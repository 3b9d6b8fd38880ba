import Mathlib.Data.List.Basic

/-!
# Histories

What happened, latest first, and the operators that speak about a history from its end: `Always` and
`Since`, both with what came before the event at hand. `Later` says what a history has more than
another.
-/

namespace History

variable {α : Type} {R R' : α → List α → Prop} {Q Q' C C' : α → Prop} {x : α} {old new h : List α}

/-- Every event stands in `R` to the events before it. -/
def Always (R : α → List α → Prop) (h : List α) : Prop :=
  ∀ newer x older, h = newer ++ x :: older → R x older

/-- Some event stands in `R` to the events before it, and all after it are `Q`. -/
def Since (R : α → List α → Prop) (Q : α → Prop) (h : List α) : Prop :=
  ∃ newer x older, h = newer ++ x :: older ∧ R x older ∧ ∀ y ∈ newer, Q y

/-- `new` is `old` and events of `C` after it. -/
def Later (C : α → Prop) (old new : List α) : Prop := ∃ newer, new = newer ++ old ∧ ∀ y ∈ newer, C y

theorem always_nil : Always R [] := fun newer x older h => by simp at h

theorem always_cons : Always R (x :: h) ↔ R x h ∧ Always R h := by
  constructor
  · intro hall
    exact ⟨hall [] x h rfl, fun newer y older he => hall (x :: newer) y older (by rw [he]; rfl)⟩
  · rintro ⟨hx, hall⟩ newer y older he
    cases newer with
    | nil =>
      cases he
      exact hx
    | cons z newer =>
      cases he
      exact hall newer y older rfl

theorem Since.mono (hs : Since R Q h) (hR : ∀ x older, x ∈ h → R x older → R' x older)
    (hQ : ∀ x, Q x → Q' x) : Since R' Q' h := by
  obtain ⟨newer, x, older, rfl, hr, hq⟩ := hs
  exact ⟨newer, x, older, rfl, hR x older (by simp) hr, fun y hy => hQ y (hq y hy)⟩

theorem Always.mono (ha : Always R h) (hR : ∀ x older, (∀ y ∈ x :: older, y ∈ h) → R x older → R' x older) :
    Always R' h := by
  rintro newer x older rfl
  exact hR x older (fun y hy => List.mem_append_right _ hy) (ha newer x older rfl)

theorem Later.refl : Later C h h := ⟨[], rfl, fun _ hy => absurd hy List.not_mem_nil⟩

theorem Later.trans {a b c : List α} (hab : Later C a b) (hbc : Later C b c) : Later C a c := by
  obtain ⟨l, rfl, hl⟩ := hab
  obtain ⟨k, rfl, hk⟩ := hbc
  exact ⟨k ++ l, (List.append_assoc ..).symm, List.forall_mem_append.2 ⟨hk, hl⟩⟩

theorem Later.mono (hl : Later C old new) (hC : ∀ x, C x → C' x) : Later C' old new := by
  obtain ⟨newer, rfl, hn⟩ := hl
  exact ⟨newer, rfl, fun y hy => hC y (hn y hy)⟩

theorem Later.cons (hx : C x) : Later C h (x :: h) := ⟨[x], rfl, by simpa using hx⟩

/-- **Induction over the later events**: what each of them preserves, holds of the later history. -/
theorem Later.inv {I : List α → Prop} (hl : Later C old new) (hI : ∀ x h, C x → I h → I (x :: h))
    (h : I old) : I new := by
  obtain ⟨newer, rfl, hn⟩ := hl
  induction newer with
  | nil => exact h
  | cons x newer ih =>
    obtain ⟨hx, hn⟩ := List.forall_mem_cons.1 hn
    exact hI x _ hx (ih hn)

theorem Later.mem (hl : Later C old new) (hx : x ∈ old) : x ∈ new := by
  obtain ⟨newer, rfl, -⟩ := hl
  exact List.mem_append_right _ hx

end History
