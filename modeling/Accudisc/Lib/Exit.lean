import Mathlib.Logic.Basic

/-!
# Computations that can leave early

A computation over a state `σ` that returns a value or leaves with an `ε`, and keeps its state either
way. `Tri` is its triple: what holds on return and what holds when it leaves, with one rule for each way
a computation is put together.
-/

/-- A computation over `σ` that returns an `α` or leaves with an `ε`. -/
abbrev Exit (σ ε α : Type) := ExceptT ε (StateM σ) α

namespace Exit

variable {σ ε α β : Type}

/-- The outcome from `s`, and the state after it. -/
def out (m : Exit σ ε α) (s : σ) : Except ε α × σ := (ExceptT.run m).run s

/-- Leave. -/
def leave (e : ε) : Exit σ ε α := throw e

/-- Change the state. -/
def update (f : σ → σ) : Exit σ ε Unit := modify f

/-- Read the state. -/
def read (f : σ → α) : Exit σ ε α := f <$> get

section
variable {s : σ}

@[simp] theorem out_pure (a : α) : out (pure a : Exit σ ε α) s = (.ok a, s) := rfl

@[simp] theorem out_leave (e : ε) : out (leave e : Exit σ ε α) s = (.error e, s) := rfl

@[simp] theorem out_update (f : σ → σ) : out (update f : Exit σ ε Unit) s = (.ok (), f s) := rfl

@[simp] theorem out_read (f : σ → α) : out (read f : Exit σ ε α) s = (.ok (f s), s) := rfl

theorem out_bind (m : Exit σ ε α) (f : α → Exit σ ε β) :
    out (m >>= f) s = match out m s with
      | (.ok a, s') => out (f a) s'
      | (.error e, s') => (.error e, s') := by
  show (ExceptT.bind m f).run.run s = _
  unfold ExceptT.bind ExceptT.bindCont out
  simp only [ExceptT.run, ExceptT.mk, StateT.run_bind]
  rcases h : StateT.run m s with ⟨r, s'⟩
  cases r <;> rfl

end

/-! ## Triples -/

/-- From `P`, the computation returns in `Q` or leaves in `E`. -/
def Tri (P : σ → Prop) (m : Exit σ ε α) (Q : α → σ → Prop) (E : ε → σ → Prop) : Prop :=
  ∀ s, P s → match out m s with
    | (.ok a, s') => Q a s'
    | (.error e, s') => E e s'

section
variable {P P' : σ → Prop} {Q Q' : α → σ → Prop} {R : β → σ → Prop} {E E' : ε → σ → Prop}
  {m m' : Exit σ ε α} {f : α → Exit σ ε β}

theorem Tri.of_ok {s s' : σ} {a : α} (h : Tri P m Q E) (hs : P s) (hm : out m s = (.ok a, s')) :
    Q a s' := by
  have := h s hs
  rwa [hm] at this

theorem Tri.of_error {s s' : σ} {e : ε} (h : Tri P m Q E) (hs : P s) (hm : out m s = (.error e, s')) :
    E e s' := by
  have := h s hs
  rwa [hm] at this

theorem Tri.bind (h : Tri P m Q E) (hf : ∀ a, Tri (Q a) (f a) R E) : Tri P (m >>= f) R E := by
  intro s hs
  have := h s hs
  rw [out_bind]
  rcases hm : out m s with ⟨r, s'⟩
  rw [hm] at this
  cases r with
  | ok a => exact hf a s' this
  | error e => exact this

theorem Tri.pure {a : α} (h : ∀ s, P s → Q a s) : Tri P (Pure.pure a) Q E := h

theorem Tri.leave {e : ε} (h : ∀ s, P s → E e s) : Tri P (leave e) Q E := h

theorem Tri.update {Q : Unit → σ → Prop} {g : σ → σ} (h : ∀ s, P s → Q () (g s)) : Tri P (update g) Q E := h

theorem Tri.read {g : σ → α} (h : ∀ s, P s → Q (g s) s) : Tri P (read g) Q E := h

/-- Consequence. -/
theorem Tri.weaken (h : Tri P m Q E) (hP : ∀ s, P' s → P s) (hQ : ∀ a s, Q a s → Q' a s)
    (hE : ∀ e s, E e s → E' e s) : Tri P' m Q' E' := by
  intro s hs
  have := h s (hP s hs)
  rcases hm : out m s with ⟨r, s'⟩
  rw [hm] at this
  cases r with
  | ok a => exact hQ a s' this
  | error e => exact hE e s' this

/-- Of a computation nothing is said. -/
theorem Tri.any : Tri P m (fun _ _ => True) (fun _ _ => True) := by
  intro s _
  rcases out m s with ⟨r, s'⟩
  cases r <;> trivial

/-- Two triples of one computation. -/
theorem Tri.and (h : Tri P m Q E) (h' : Tri P' m Q' E') :
    Tri (fun s => P s ∧ P' s) m (fun a s => Q a s ∧ Q' a s) (fun e s => E e s ∧ E' e s) := by
  intro s hs
  have h1 := h s hs.1
  have h2 := h' s hs.2
  rcases hm : out m s with ⟨r, s'⟩
  rw [hm] at h1 h2
  cases r with
  | ok a => exact ⟨h1, h2⟩
  | error e => exact ⟨h1, h2⟩

theorem Tri.ite {c : Prop} [Decidable c] (h : c → Tri P m Q E) (h' : ¬c → Tri P m' Q E) :
    Tri P (if c then m else m') Q E := by
  by_cases hc : c
  · rw [if_pos hc]
    exact h hc
  · rw [if_neg hc]
    exact h' hc

end

end Exit
