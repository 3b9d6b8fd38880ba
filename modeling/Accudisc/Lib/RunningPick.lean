import Mathlib.Data.List.MinMax
import Mathlib.Data.List.Perm.Basic

/-!
# Picking at a running minimum

A fold that keeps the least key so far, and takes the value of an element that is a candidate when
nothing is held yet or its key is the least so far. The value can be none, and then nothing is held
again. `stable_iff` says for which lists every order of the elements gives the same pick, and
`held_lowest` what it then is.
-/

namespace Running

variable {α K V : Type*} [LinearOrder K]

/-- The least key so far, and what is held. -/
structure Pick (K V : Type*) where
  least : Option K := none
  held : Option V := none

section
variable (key : α → K) (cand : α → Prop) [DecidablePred cand] (value : α → Option V)

/-- The least of the keys so far and of `x`. -/
def leastOf (l : Option K) (k : K) : K :=
  match l with
  | none => k
  | some m => if k < m then k else m

/-- One element. -/
def step (s : Pick K V) (x : α) : Pick K V :=
  let least := leastOf s.least (key x)
  ⟨some least, if cand x ∧ (s.held = none ∨ key x ≤ least) then value x else s.held⟩

/-- What is held after the elements. -/
def pick (xs : List α) : Option V := (xs.foldl (step key cand value) {}).held

/-- Every order of the elements gives the same. -/
def Stable (xs : List α) : Prop := ∀ ys : List α, ys.Perm xs →
    pick key cand value ys = pick key cand value xs

/-- `a` is the candidate of least key. -/
def Lowest (xs : List α) (a : α) : Prop := a ∈ xs ∧ cand a ∧ ∀ c ∈ xs, cand c → key a ≤ key c

/-- What makes the order immaterial: the lowest candidate has a value or none has one, and no key lies below
it or the values are the same. -/
def Settles (xs : List α) : Prop :=
  ∀ a, Lowest key cand xs a →
    (value a ≠ none ∨ ∀ c ∈ xs, cand c → value c = none) ∧
      ((∀ x ∈ xs, key a ≤ key x) ∨
        ∀ c ∈ xs, ∀ d ∈ xs, cand c → cand d → value c ≠ none → value d ≠ none → value c = value d)

end

section
variable {key : α → K} {cand : α → Prop} [DecidablePred cand] {value : α → Option V}
  {xs xs' ys : List α} {a b x : α}
  {s : Pick K V}

theorem leastOf_le (l : Option K) (k : K) : leastOf l k ≤ k := by
  unfold leastOf
  cases l with
  | none => exact le_rfl
  | some m =>
    by_cases h : k < m
    · simp [h]
    · simp only [h, if_false]
      exact not_lt.1 h

theorem leastOf_some_le {m k : K} : leastOf (some m) k ≤ m := by
  unfold leastOf
  by_cases h : k < m
  · simp only [h, if_true]
    exact h.le
  · simp [h]

theorem le_leastOf {l : Option K} {m k : K} (hl : ∀ n ∈ l, m ≤ n) (hk : m ≤ k) : m ≤ leastOf l k := by
  unfold leastOf
  cases l with
  | none => exact hk
  | some n =>
    by_cases h : k < n
    · simpa [h] using hk
    · simpa [h] using hl n rfl

theorem foldl_snoc (xs : List α) (x : α) (s : Pick K V) :
    (xs ++ [x]).foldl (step key cand value) s = step key cand value
      (xs.foldl (step key cand value) s) x := by
  rw [List.foldl_append]
  rfl

theorem step_held (s : Pick K V) (x : α) : (step key cand value s x).held =
    if cand x ∧ (s.held = none ∨ key x ≤ leastOf s.least (key x)) then value x else s.held := rfl

/-- The least key is below every key. -/
theorem least_le (xs : List α) :
    ∀ x ∈ xs, ∃ m, (xs.foldl (step key cand value) {}).least = some m ∧ m ≤ key x := by
  induction xs using List.reverseRecOn with
  | nil => simp
  | append_singleton xs y ih =>
    intro x hx
    rw [foldl_snoc]
    refine ⟨_, rfl, ?_⟩
    rcases List.mem_append.1 hx with hx | hx
    · obtain ⟨m, hm, hle⟩ := ih x hx
      rw [hm]
      exact leastOf_some_le.trans hle
    · rw [List.mem_singleton.1 hx]
      exact leastOf_le _ _

/-- The least key is above whatever bounds the keys. -/
theorem le_least {m : K} (xs : List α) (h : ∀ x ∈ xs, m ≤ key x) :
    ∀ n ∈ (xs.foldl (step key cand value) {}).least, m ≤ n := by
  induction xs using List.reverseRecOn with
  | nil => simp
  | append_singleton xs y ih =>
    intro n hn
    rw [foldl_snoc] at hn
    cases hn
    exact le_leastOf (ih fun x hx => h x (by simp [hx])) (h y (by simp))

/-! ## The order is immaterial -/

/-- Without a candidate nothing is held. -/
theorem pick_none (h : ∀ c ∈ ys, ¬cand c) : pick key cand value ys = none := by
  unfold pick
  induction ys using List.reverseRecOn with
  | nil => rfl
  | append_singleton ys y ih =>
    rw [foldl_snoc, step_held, if_neg fun hh => h y (by simp) hh.1]
    exact ih fun c hc => h c (by simp [hc])

/-- With a candidate something is held, where every candidate has a value. -/
theorem pick_ne_none (hval : ∀ c ∈ ys, cand c → value c ≠ none) (h : ∃ c ∈ ys, cand c) :
    pick key cand value ys ≠ none := by
  unfold pick
  induction ys using List.reverseRecOn with
  | nil =>
    obtain ⟨c, hc, -⟩ := h
    cases hc
  | append_singleton ys y ih =>
    rw [foldl_snoc, step_held]
    by_cases hset : cand y ∧ ((ys.foldl (step key cand value) {}).held = none ∨
        key y ≤ leastOf (ys.foldl (step key cand value) {}).least (key y))
    · rw [if_pos hset]
      exact hval y (by simp) hset.1
    · rw [if_neg hset]
      by_cases hy : cand y
      · rw [not_and, not_or] at hset
        exact (hset hy).1
      · refine ih (fun c hc => hval c (by simp [hc])) ?_
        obtain ⟨c, hc, hcc⟩ := h
        rcases List.mem_append.1 hc with hc | hc
        · exact ⟨c, hc, hcc⟩
        · rw [List.mem_singleton.1 hc] at hcc
          exact absurd hcc hy

/-- **What is held** when the order is immaterial: the value of the lowest candidate, once it is seen. -/
theorem held_lowest (hlow : Lowest key cand xs a) (hset : Settles key cand value xs)
    (hinj : ∀ c ∈ xs, cand c → key c = key a → value c = value a) (ys : List α) (hsub : ∀ y ∈ ys, y ∈ xs) :
    (a ∈ ys → pick key cand value ys = value a) ∧
      (¬(∀ x ∈ xs, key a ≤ key x) → pick key cand value ys = none ∨ pick key cand value ys = value a) := by
  obtain ⟨hval, hkeys⟩ := hset a hlow
  -- a candidate that is not the lowest is one that leaves what is held, or has no value that differs
  have hother : ∀ c ∈ xs, cand c → ¬(∀ x ∈ xs, key a ≤ key x) → value c = none ∨ value c = value a := by
    intro c hc hcand hmin
    rcases hval with hval | hnone
    · by_cases hc0 : value c = none
      · exact .inl hc0
      · exact .inr ((hkeys.resolve_left hmin) c hc a hlow.1 hcand hlow.2.1 hc0 hval)
    · exact .inl (hnone c hc hcand)
  induction ys using List.reverseRecOn with
  | nil => exact ⟨(fun h => by cases h), fun _ => .inl rfl⟩
  | append_singleton ys y ih =>
    obtain ⟨ih1, ih2⟩ := ih fun z hz => hsub z (by simp [hz])
    have hy : y ∈ xs := hsub y (by simp)
    unfold pick at ih1 ih2 ⊢
    rw [foldl_snoc, step_held]
    by_cases hset : cand y ∧ ((ys.foldl (step key cand value) {}).held = none ∨
        key y ≤ leastOf (ys.foldl (step key cand value) {}).least (key y))
    · rw [if_pos hset]
      refine ⟨fun ha => ?_, hother y hy hset.1⟩
      by_cases hay : a = y
      · rw [hay]
      have ha : a ∈ ys := by simpa [hay] using ha
      rcases hset.2 with hheld | hle
      · rw [ih1 ha] at hheld
        rw [hheld]
        exact (hval.resolve_left (not_not.2 hheld)) y hy hset.1
      · obtain ⟨m, hm, hma⟩ : ∃ m, (ys.foldl (step key cand value) {}).least = some m ∧ m ≤ key a :=
          least_le ys a ha
        rw [hm] at hle
        have hya : key y ≤ key a := hle.trans (leastOf_some_le.trans hma)
        exact hinj y hy hset.1 (le_antisymm hya (hlow.2.2 y hy hset.1))
    · rw [if_neg hset]
      refine ⟨fun ha => ?_, ih2⟩
      by_cases hay : a = y
      · -- the lowest candidate is taken, unless its value is held already
        subst hay
        rw [not_and, not_or] at hset
        obtain ⟨hheld, hnle⟩ := hset hlow.2.1
        by_cases hmin : ∀ x ∈ xs, key a ≤ key x
        · exact absurd (le_leastOf (le_least ys fun z hz => hmin z (hsub z (by simp [hz]))) le_rfl) hnle
        · exact (ih2 hmin).resolve_left hheld
      · exact ih1 (by simpa [hay] using ha)

/-- A list with a candidate has a lowest one. -/
theorem exists_lowest (h : ∃ c ∈ xs, cand c) : ∃ a, Lowest key cand xs a := by
  obtain ⟨c, hc, hcand⟩ := h
  have hne : (xs.filter fun x => cand x).argmin key ≠ none := by
    rw [ne_eq, List.argmin_eq_none]
    exact List.ne_nil_of_mem (List.mem_filter.2 ⟨hc, by simpa using hcand⟩)
  obtain ⟨a, ha⟩ := Option.ne_none_iff_exists'.1 hne
  obtain ⟨ha1, ha2⟩ := List.mem_filter.1 (List.argmin_mem ha)
  refine ⟨a, ha1, by simpa using ha2, fun d hd hdc => ?_⟩
  exact List.le_of_mem_argmin (List.mem_filter.2 ⟨hd, by simpa using hdc⟩) ha

/-- No two candidates of the list have one key. -/
def Distinct (key : α → K) (cand : α → Prop) (xs : List α) : Prop :=
  xs.Pairwise fun c d => cand c → cand d → key c ≠ key d

omit [LinearOrder K] [DecidablePred cand] in
/-- A candidate in front, the others have other keys. -/
theorem Distinct.front (h : Distinct key cand xs) (hp : xs.Perm (a :: ys)) (ha : cand a) (hb : b ∈ ys)
    (hcb : cand b) : key a ≠ key b := by
  have := (hp.pairwise_iff fun {x y} hxy hy hx he => hxy hx hy he.symm).1 h
  exact (List.pairwise_cons.1 this).1 b hb ha hcb

omit [LinearOrder K] [DecidablePred cand] in
/-- A candidate is the only one of its key. -/
theorem Distinct.eq_of_key [DecidableEq α] (h : Distinct key cand xs) (ha : a ∈ xs) (hca : cand a) {c : α}
    (hc : c ∈ xs) (hcc : cand c) (hk : key c = key a) : c = a := by
  by_contra hne
  exact h.front (List.perm_cons_erase ha) hca ((List.mem_erase_of_ne hne).2 hc) hcc hk.symm

/-- **The pick** of a list that settles is its lowest candidate's value. -/
theorem Settles.pick_eq [DecidableEq α] (hset : Settles key cand value xs) (hd : Distinct key cand xs)
    (hlow : Lowest key cand xs a) : pick key cand value xs = value a :=
  (held_lowest hlow hset (fun _ hc hcc hk => congrArg value (hd.eq_of_key hlow.1 hlow.2.1 hc hcc hk)) xs
    fun _ hx => hx).1 hlow.1

/-- What is held is kept while the candidates have keys above the least. -/
theorem held_kept (ys : List α) (s : Pick K V) (hheld : s.held ≠ none) {m : K} (hm : s.least = some m)
    (hys : ∀ d ∈ ys, cand d → m < key d) : (ys.foldl (step key cand value) s).held = s.held := by
  have hkept : (ys.foldl (step key cand value) s).held = s.held ∧
      ∃ n, (ys.foldl (step key cand value) s).least = some n ∧ n ≤ m := by
    induction ys using List.reverseRecOn with
    | nil => exact ⟨rfl, m, hm, le_rfl⟩
    | append_singleton ys y ih =>
      obtain ⟨ih1, n, hn, hle⟩ := ih fun d hd => hys d (by simp [hd])
      rw [foldl_snoc, step_held]
      constructor
      · rw [if_neg]
        · exact ih1
        intro hset
        rcases hset.2 with hnone | hkey
        · exact hheld (ih1 ▸ hnone)
        · rw [hn] at hkey
          exact absurd (hys y (by simp) hset.1) (not_lt.2 (hkey.trans (leastOf_some_le.trans hle)))
      · refine ⟨leastOf n (key y), ?_, leastOf_some_le.trans hle⟩
        show some (leastOf (ys.foldl (step key cand value) s).least (key y)) = _
        rw [hn]
  exact hkept.1

/-- An order that gives the value of `c`: first an element below the other candidates, then `c`. -/
theorem pick_second {m c : α} (hm : cand m → value m = none) (hc : cand c) (hval : value c ≠ none)
    (hys : ∀ d ∈ ys, cand d → key m < key d) :
    pick key cand value (m :: c :: ys) = value c := by
  unfold pick
  rw [List.foldl_cons, List.foldl_cons]
  have hfirst : (step key cand value {} m).held = none := by
    rw [step_held]
    by_cases hcm : cand m
    · rw [if_pos ⟨hcm, .inl rfl⟩]
      exact hm hcm
    · rw [if_neg fun h => hcm h.1]
  have hsecond : (step key cand value (step key cand value {} m) c).held = value c := by
    rw [step_held, if_pos ⟨hc, .inl hfirst⟩]
  have hleast : (step key cand value (step key cand value ({} : Pick K V) m) c).least =
      some (leastOf (some (key m)) (key c)) := rfl
  rw [held_kept ys _ (hsecond ▸ hval) hleast fun d hd hcd =>
    leastOf_some_le.trans_lt (hys d hd hcd), hsecond]

/-- An order that gives the value of the lowest candidate where that is none: the other candidates before
it, the rest after it. -/
theorem pick_last (hlow : Lowest key cand xs a) (hys : ∀ y ∈ ys, y ∈ xs ∧ cand y)
    (hb : ∀ z ∈ xs', ¬cand z) :
    pick key cand value (ys ++ a :: xs') = value a := by
  unfold pick
  rw [List.foldl_append, List.foldl_cons]
  have hleast : key a ≤ leastOf (ys.foldl (step key cand value) {}).least (key a) :=
    le_leastOf (le_least ys fun y hy => hlow.2.2 y (hys y hy).1 (hys y hy).2) le_rfl
  have hrest : ∀ (zs : List α) (s : Pick K V), (∀ z ∈ zs, ¬cand z) →
    (zs.foldl (step key cand value) s).held = s.held := by
    intro zs
    induction zs with
    | nil => exact fun s _ => rfl
    | cons z zs ih =>
      intro s hz
      rw [List.foldl_cons, ih _ fun y hy => hz y (by simp [hy]), step_held, if_neg fun h =>
        hz z (by simp) h.1]
  rw [hrest _ _ hb, step_held, if_pos ⟨hlow.2.1, .inr hleast⟩]

/-- **When the order is immaterial.** -/
theorem stable_iff [DecidableEq α] (hd : Distinct key cand xs) :
    Stable key cand value xs ↔ Settles key cand value xs := by
  have hfront : ∀ {a b}, a ∈ xs → cand a → b ∈ xs.erase a → cand b → key a ≠ key b := by
    intro a b ha hca hb hcb
    exact hd.front (List.perm_cons_erase ha) hca hb hcb
  constructor
  · intro hst a hlow
    obtain ⟨ha, hca, hle⟩ := hlow
    -- an element below the other candidates, with no value to be held
    have hsecond : ∀ m ∈ xs, (cand m → value m = none) → (∀ d ∈ xs.erase m, cand d → key m < key d) →
        ∀ c ∈ xs, cand c → value c ≠ none → pick key cand value xs = value c := by
      intro m hm hmv hbelow c hc hcc hv
      have hne : c ≠ m := fun he => hv (he ▸ hmv (he ▸ hcc))
      have hc' : c ∈ xs.erase m := (List.mem_erase_of_ne hne).2 hc
      have hp : (m :: c :: (xs.erase m).erase c).Perm xs :=
        ((List.perm_cons_erase hc').cons m).symm.trans (List.perm_cons_erase hm).symm
      rw [← hst _ hp]
      exact pick_second hmv hcc hv fun d hd' hcd => hbelow d (List.mem_of_mem_erase hd') hcd
    have hbelow : ∀ x ∈ xs, key x < key a → (cand x → value x = none) ∧ ∀ d ∈ xs.erase x, cand d →
      key x < key d := by
      intro x hx hlt
      exact ⟨fun hcx => absurd (hle x hx hcx) (not_le.2 hlt),
        fun d hd' hcd => hlt.trans_le (hle d (List.mem_of_mem_erase hd') hcd)⟩
    refine ⟨?_, ?_⟩
    · by_contra hno
      rw [not_or, not_not] at hno
      obtain ⟨hnone, hsome⟩ := hno
      rw [not_forall] at hsome
      obtain ⟨c, hsome⟩ := hsome
      rw [Classical.not_imp, Classical.not_imp] at hsome
      obtain ⟨hc, hcc, hv⟩ := hsome
      have h1 : pick key cand value xs = value a := by
        have hp : (((xs.erase a).filter fun x => cand x) ++ a :: (xs.erase a).filter fun x =>
          !decide (cand x)).Perm xs :=
          (List.perm_middle.trans ((List.filter_append_perm _ _).cons a)).trans
            (List.perm_cons_erase ha).symm
        rw [← hst _ hp]
        refine pick_last ⟨ha, hca, hle⟩ (fun y hy => ?_) fun z hz => ?_
        · obtain ⟨h1, h2⟩ := List.mem_filter.1 hy
          exact ⟨List.mem_of_mem_erase h1, by simpa using h2⟩
        · simpa using (List.mem_filter.1 hz).2
      have h2 : pick key cand value xs = value c := by
        by_cases hmin : ∃ x ∈ xs, key x < key a
        · obtain ⟨x, hx, hlt⟩ := hmin
          exact hsecond x hx (hbelow x hx hlt).1 (hbelow x hx hlt).2 c hc hcc hv
        · refine hsecond a ha (fun _ => hnone) (fun d hd' hcd => ?_) c hc hcc hv
          exact lt_of_le_of_ne (hle d (List.mem_of_mem_erase hd') hcd) (hfront ha hca hd' hcd)
      exact hv (h2.symm.trans (h1.trans hnone))
    · by_contra hno
      rw [not_or, not_forall] at hno
      obtain ⟨⟨x, hx⟩, hdiff⟩ := hno
      rw [Classical.not_imp, not_le] at hx
      refine hdiff fun c hc d hd' hcc hcd hvc hvd => ?_
      obtain ⟨h1, h2⟩ := hbelow x hx.1 hx.2
      rw [← hsecond x hx.1 h1 h2 c hc hcc hvc, ← hsecond x hx.1 h1 h2 d hd' hcd hvd]
  · intro hset ys hp
    by_cases hcand : ∃ c ∈ xs, cand c
    · obtain ⟨a, hlow⟩ : ∃ a, Lowest key cand xs a := exists_lowest hcand
      have hinj : ∀ c ∈ xs, cand c → key c = key a → value c = value a :=
        fun c hc hcc hk => congrArg value (hd.eq_of_key hlow.1 hlow.2.1 hc hcc hk)
      rw [(held_lowest hlow hset hinj ys fun y hy => hp.mem_iff.1 hy).1 (hp.mem_iff.2 hlow.1),
        hset.pick_eq hd hlow]
    · have hno : ∀ c ∈ xs, ¬cand c := fun c hc hcc => hcand ⟨c, hc, hcc⟩
      rw [pick_none hno, pick_none fun c hc => hno c (hp.mem_iff.1 hc)]

end

end Running
