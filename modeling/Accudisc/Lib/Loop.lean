import Accudisc.Lib.Buf
import Accudisc.Lib.Tally
import Mathlib.Logic.Function.Basic

/-!
# Counted loops

A `for` loop is a fold over `List.range n`. `foldl_range_inv` is its invariant rule, with
`foldlM_range_ok` and `foldlM_range_inv` those for a loop that can leave early; the accumulating loops
(`foldl_range_add`, `Buf.get_foldl_add`) are sums, and a loop over the entries of an array is pointwise
(`foldl_update_range`).
-/

namespace Loop

/-- **Invariant rule**: what iteration `i` takes from `i` to `i + 1`, the loop takes from 0 to
`n`. -/
theorem foldl_range_inv {σ : Type*} (P : Nat → σ → Prop) {f : σ → Nat → σ} {n : Nat} {s : σ}
    (h0 : P 0 s) (hs : ∀ i < n, ∀ t, P i t → P (i + 1) (f t i)) :
    P n ((List.range n).foldl f s) := by
  induction n with
  | zero => exact h0
  | succ n ih =>
    rw [List.range_succ, List.foldl_append]
    exact hs n (Nat.lt_succ_self n) _ (ih fun i hi => hs i (Nat.lt_succ_of_lt hi))

/-- The same for a loop that can leave early, where no iteration leaves. -/
theorem foldlM_range_ok {ε σ : Type*} (P : Nat → σ → Prop) {f : σ → Nat → Except ε σ} {n : Nat}
    {s : σ} (h0 : P 0 s) (hs : ∀ i < n, ∀ t, P i t → ∃ t', f t i = .ok t' ∧ P (i + 1) t') :
    ∃ t, (List.range n).foldlM f s = .ok t ∧ P n t := by
  induction n with
  | zero => exact ⟨s, rfl, h0⟩
  | succ n ih =>
    obtain ⟨t, ht, hP⟩ := ih fun i hi => hs i (Nat.lt_succ_of_lt hi)
    obtain ⟨t', ht', hP'⟩ := hs n (Nat.lt_succ_self n) t hP
    refine ⟨t', ?_, hP'⟩
    rw [List.range_succ, List.foldlM_append, ht]
    simp only [List.foldlM_cons, List.foldlM_nil, bind, Except.bind]
    rw [ht']; rfl

/-- What the turns that do not leave keep, a loop that was not left has kept. -/
theorem foldlM_range_inv {ε σ : Type*} (P : Nat → σ → Prop) {f : σ → Nat → Except ε σ} {n : Nat} {s t : σ}
    (h0 : P 0 s) (hs : ∀ i < n, ∀ a b, P i a → f a i = .ok b → P (i + 1) b)
    (h : (List.range n).foldlM f s = .ok t) : P n t := by
  induction n generalizing t with
  | zero =>
    cases h
    exact h0
  | succ n ih =>
    rw [List.range_succ, List.foldlM_append] at h
    cases ha : (List.range n).foldlM f s with
    | error e =>
      rw [ha] at h
      cases h
    | ok a =>
      rw [ha] at h
      simp only [List.foldlM_cons, List.foldlM_nil, bind, Except.bind] at h
      cases hb : f a n with
      | error e =>
        rw [hb] at h
        cases h
      | ok b =>
        rw [hb] at h
        cases h
        exact hs n (Nat.lt_succ_self n) a _ (ih (fun i hi => hs i (Nat.lt_succ_of_lt hi)) ha) hb

/-- Loops whose turns do the same are the same. -/
theorem foldlM_range_congr {ε σ : Type*} {f g : σ → Nat → Except ε σ} {n : Nat} (s : σ)
    (h : ∀ i < n, ∀ a, f a i = g a i) : (List.range n).foldlM f s = (List.range n).foldlM g s := by
  induction n with
  | zero => rfl
  | succ n ih =>
    rw [List.range_succ, List.foldlM_append, List.foldlM_append, ih fun i hi => h i (Nat.lt_succ_of_lt hi)]
    congr 1
    funext a
    simp only [List.foldlM_cons, List.foldlM_nil, h n (Nat.lt_succ_self n)]

/-- An accumulating loop is a sum. -/
theorem foldl_range_add {α : Type*} [AddCommMonoid α] (g : Nat → α) {f : α → Nat → α} {n : Nat}
    (h : ∀ i < n, ∀ a, f a i = a + g i) (a : α) :
    (List.range n).foldl f a = a + ∑ i ∈ Finset.range n, g i := by
  have ht : Tallies (· < n) id f g := fun b i hi => h i hi b
  exact ht.foldl_range a

/-- A loop that updates each of the `n` entries at `b` from itself. -/
theorem foldl_update_range {α : Type*} (b n : Nat) (g : Nat → α → α) (f : Nat → α) (i : Nat) :
    (List.range n).foldl (fun f c => Function.update f (b + c) (g c (f (b + c)))) f i =
      if b ≤ i ∧ i < b + n then g (i - b) (f i) else f i := by
  induction n with
  | zero => rw [if_neg (by omega)]; rfl
  | succ n ih =>
    rw [List.range_succ, List.foldl_append, List.foldl_cons, List.foldl_nil]
    by_cases hi : i = b + n
    · subst hi
      rw [Function.update_self, ih, if_neg (by omega), if_pos (by omega), Nat.add_sub_cancel_left]
    · rw [Function.update_of_ne hi, ih]
      exact if_congr (by omega) rfl rfl

/-! ## Running minimum -/

variable {α : Type*} {p : α → Bool} {key : α → Nat} {xs : List α}

/-- One turn of the search for the first element of least key. -/
def keepMin (p : α → Bool) (key : α → Nat) (best : Option α) (u : α) : Option α :=
  if p u then
    match best with
    | none => some u
    | some b => if key u < key b then some u else some b
  else best

/-- The first element of least key among those that pass. -/
def firstMin (p : α → Bool) (key : α → Nat) (xs : List α) : Option α := xs.foldl (keepMin p key) none

/-- What the search holds after the elements `xs`. -/
def IsMin (p : α → Bool) (key : α → Nat) (xs : List α) : Option α → Prop
  | none => ∀ u ∈ xs, p u = false
  | some a => a ∈ xs ∧ p a = true ∧ ∀ u ∈ xs, p u = true → key a ≤ key u

theorem keepMin_spec {best : Option α} (h : IsMin p key xs best) (u : α) :
    IsMin p key (xs ++ [u]) (keepMin p key best u) := by
  unfold keepMin
  by_cases hp : p u = true
  · rw [if_pos hp]
    cases best with
    | none =>
      refine ⟨by simp, hp, fun v hv hpv => ?_⟩
      rcases List.mem_append.1 hv with hv | hv
      · exact absurd hpv (by simp [h v hv])
      · rw [List.mem_singleton.1 hv]
    | some a =>
      obtain ⟨ha, hpa, hle⟩ := h
      by_cases hk : key u < key a
      · simp only [if_pos hk]
        refine ⟨by simp, hp, fun v hv hpv => ?_⟩
        rcases List.mem_append.1 hv with hv | hv
        · exact hk.le.trans (hle v hv hpv)
        · rw [List.mem_singleton.1 hv]
      · simp only [if_neg hk]
        refine ⟨List.mem_append_left _ ha, hpa, fun v hv hpv => ?_⟩
        rcases List.mem_append.1 hv with hv | hv
        · exact hle v hv hpv
        · rw [List.mem_singleton.1 hv]
          exact Nat.not_lt.1 hk
  · rw [if_neg hp]
    cases best with
    | none =>
      intro v hv
      rcases List.mem_append.1 hv with hv | hv
      · exact h v hv
      · rw [List.mem_singleton.1 hv]
        exact Bool.not_eq_true _ ▸ hp
    | some a =>
      refine ⟨List.mem_append_left _ h.1, h.2.1, fun v hv hpv => ?_⟩
      rcases List.mem_append.1 hv with hv | hv
      · exact h.2.2 v hv hpv
      · rw [List.mem_singleton.1 hv] at hpv
        exact absurd hpv hp

/-- **The search** finds an element of least key, if one passes. -/
theorem firstMin_spec (p : α → Bool) (key : α → Nat) (xs : List α) :
    IsMin p key xs (firstMin p key xs) := by
  have h : ∀ (ys zs : List α) (best : Option α), IsMin p key zs best →
      IsMin p key (zs ++ ys) (ys.foldl (keepMin p key) best) := by
    intro ys
    induction ys with
    | nil => simp
    | cons y ys ih =>
      intro zs best hb
      have := ih (zs ++ [y]) _ (keepMin_spec hb y)
      rwa [List.append_assoc] at this
  exact h xs [] none (by simp [IsMin])

theorem firstMin_congr {q : α → Bool} {key' : α → Nat} (hp : ∀ u ∈ xs, p u = q u)
    (hk : ∀ u ∈ xs, key u = key' u) : firstMin p key xs = firstMin q key' xs := by
  have h : ∀ (ys : List α) (best : Option α), (∀ u ∈ ys, p u = q u ∧ key u = key' u) →
      (∀ b ∈ best, key b = key' b) → ys.foldl (keepMin p key) best = ys.foldl (keepMin q key') best := by
    intro ys
    induction ys with
    | nil => simp
    | cons y ys ih =>
      intro best hy hb
      have hstep : keepMin p key best y = keepMin q key' best y := by
        obtain ⟨h1, h2⟩ := hy y (by simp)
        cases best with
        | none => simp [keepMin, h1]
        | some b => simp [keepMin, h1, h2, hb b rfl]
      rw [List.foldl_cons, List.foldl_cons, hstep]
      refine ih _ (fun u hu => hy u (by simp [hu])) fun b hb' => ?_
      rw [← hstep] at hb'
      cases best with
      | none =>
        by_cases hpy : p y = true
        · simp only [keepMin, if_pos hpy, Option.mem_def, Option.some.injEq] at hb'
          exact hb' ▸ (hy y (by simp)).2
        · simp [keepMin, hpy] at hb'
      | some a =>
        have hmem : b = y ∨ b = a := by
          unfold keepMin at hb'
          split at hb'
          · simp only at hb'
            split at hb'
            · exact .inl (Option.some.inj hb').symm
            · exact .inr (Option.some.inj hb').symm
          · exact .inr (Option.some.inj hb').symm
        rcases hmem with rfl | rfl
        · exact (hy b (by simp)).2
        · exact hb b rfl
  exact h xs none (fun u hu => ⟨hp u hu, hk u hu⟩) (by simp)

end Loop

namespace Buf

variable {α : Type*} [AddCommMonoid α] {n : Nat}

/-- A loop that accumulates into a buffer, read at one index. -/
theorem get_foldl_add {f : Buf α n → Nat → Buf α n} {N k : Nat} (w : Nat → α)
    (h : ∀ i < N, ∀ b, get (f b i) k = get b k + w i) (b : Buf α n) :
    get ((List.range N).foldl f b) k = get b k + ∑ i ∈ Finset.range N, w i := by
  have ht : Tallies (· < N) (fun c => get c k) f w := fun c i hi => h i hi c
  exact ht.foldl_range b

theorem get_set_add (b : Buf α n) (i : Nat) (a : α) (k : Nat) :
    get (set b i (get b i + a)) k = get b k + if k = i ∧ k < n then a else 0 := by
  rw [get_set]
  split
  · rename_i h
    rw [h.1]
  · rw [add_zero]

end Buf
