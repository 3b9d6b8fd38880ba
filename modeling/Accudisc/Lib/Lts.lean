/-!
# Runs of a partial step function

A system is a function `step` that takes a state and an action to the next state, or to none where
the action is not enabled. `Reaches` are the states that runs reach, with a side condition on the
steps taken; `Reaches.inv` is its invariant rule, and `Reaches.of_run` reads a run off a list of
actions.
-/

namespace Lts

variable {σ α : Type _} (step : σ → α → Option σ) (ok : σ → α → Prop)

/-- The states that a run from `s` reaches, where every step it takes is `ok`. -/
inductive Reaches (s : σ) : σ → Prop where
  | refl : Reaches s s
  | step {t u : σ} {a : α} : Reaches s t → ok t a → step t a = some u → Reaches s u

/-- The run that takes the actions in order. -/
def run (s : σ) : List α → Option σ
  | [] => some s
  | a :: as => (step s a).bind (run · as)

variable {step ok}

/-- **Invariant rule**: what holds at first and is kept by every `ok` step holds of every state
reached. -/
theorem Reaches.inv {I : σ → Prop} {s t : σ} (h : Reaches step ok s t) (h0 : I s)
    (hstep : ∀ {t u : σ} {a : α}, I t → ok t a → step t a = some u → I u) : I t := by
  induction h with
  | refl => exact h0
  | step _ ha hs ih => exact hstep ih ha hs

theorem Reaches.trans {s t u : σ} (h : Reaches step ok s t) (h' : Reaches step ok t u) :
    Reaches step ok s u := by
  induction h' with
  | refl => exact h
  | step _ ha hs ih => exact ih.step ha hs

/-- A run of `ok` steps reaches its last state. -/
theorem Reaches.of_run {s u : σ} {as : List α} (hok : ∀ t, ∀ a ∈ as, ok t a)
    (h : run step s as = some u) : Reaches step ok s u := by
  induction as generalizing s with
  | nil =>
    obtain rfl : s = u := by simpa [run] using h
    exact .refl
  | cons a as ih =>
    obtain ⟨t, ht, hu⟩ := Option.bind_eq_some_iff.1 h
    have hs : Reaches step ok s t := .step .refl (hok s a (List.mem_cons_self ..)) ht
    exact hs.trans (ih (fun t b hb => hok t b (List.mem_cons_of_mem _ hb)) hu)

end Lts
