import Accudisc.Drive.Speeds
import Mathlib.Data.Finset.Card

/-!
# The admitted ladder

Each rung is settled against the last rung admitted below it (`Ladder`), whatever the order of the array;
this alone determines every verdict (`Ladder.unique`). The walk keeps that the settled rungs are below the
others, so that what `best` points to is the last one admitted below each of those (`SpeedsWalked`).
-/

namespace Accudisc

/-- The last rung admitted below rung `i`, if there is one. -/
def LastAdmitted (rungs : Nat → SpeedRung) (n i : Nat) : Option SpeedRung → Prop
  | none => ∀ q < n, (rungs q).verdict = .ADMITTED → (rungs i).requested_x ≤ (rungs q).requested_x
  | some b => ∃ p < n, rungs p = b ∧ b.verdict = .ADMITTED ∧ b.requested_x < (rungs i).requested_x ∧
      ∀ q < n, (rungs q).verdict = .ADMITTED → (rungs q).requested_x < (rungs i).requested_x →
        (rungs q).requested_x ≤ b.requested_x

/-- Every rung of `out` is settled against the last one admitted below it. -/
def Ladder (rungs : Nat → SpeedRung) (n points k : Nat) (out : Nat → SpeedRung) : Prop :=
  ∀ i < n, ∃ b, LastAdmitted out n i b ∧
    out i = rung_unmarked (rung_settle n points k b (rung_cleared (rungs i)))

/-- No two settings are the same. -/
def DistinctRungs (rungs : Nat → SpeedRung) (n : Nat) : Prop :=
  ∀ i < n, ∀ j < n, (rungs i).requested_x = (rungs j).requested_x → i = j

instance (rungs : Nat → SpeedRung) (n : Nat) : Decidable (DistinctRungs rungs n) :=
  inferInstanceAs (Decidable (∀ i < n, ∀ j < n, _ → _))

variable {n points k i j p : Nat} {rungs out out' cur : Nat → SpeedRung}
  {best b : Option SpeedRung} {r : SpeedRung}

/-! ## One rung -/

/-- Only the verdict and its counterpart are written. -/
theorem rung_settle_eq (n points k : Nat) (b : Option SpeedRung) (r : SpeedRung) :
    ∃ v x, rung_settle n points k b r = { r with verdict := v, equiv_x := x } := by
  unfold rung_settle
  split
  · exact ⟨_, _, rfl⟩
  split
  · exact ⟨_, _, rfl⟩
  split
  · exact ⟨_, _, rfl⟩
  · split <;> exact ⟨_, _, rfl⟩

@[simp] theorem rung_settle_requested : (rung_settle n points k b r).requested_x = r.requested_x := by
  obtain ⟨v, x, h⟩ := rung_settle_eq n points k b r
  rw [h]

@[simp] theorem rung_settle_measured : (rung_settle n points k b r).measured_cx = r.measured_cx := by
  obtain ⟨v, x, h⟩ := rung_settle_eq n points k b r
  rw [h]

@[simp] theorem rung_settle_min : (rung_settle n points k b r).min_cx = r.min_cx := by
  obtain ⟨v, x, h⟩ := rung_settle_eq n points k b r
  rw [h]

@[simp] theorem rung_settle_max : (rung_settle n points k b r).max_cx = r.max_cx := by
  obtain ⟨v, x, h⟩ := rung_settle_eq n points k b r
  rw [h]

/-- What is settled is marked. -/
theorem rung_settle_settled : rung_settled (rung_settle n points k b r) = true := by
  unfold rung_settle rung_settled
  split
  · simp
  split
  · simp
  split
  · simp
  · split <;> simp

theorem rung_cleared_unsettled : rung_settled (rung_cleared r) = false := by
  simp [rung_settled, rung_cleared]

theorem rung_unmarked_eq (r : SpeedRung) : ∃ x, rung_unmarked r = { r with equiv_x := x } := by
  unfold rung_unmarked
  split
  · exact ⟨_, rfl⟩
  · exact ⟨r.equiv_x, rfl⟩

@[simp] theorem rung_unmarked_requested : (rung_unmarked r).requested_x = r.requested_x := by
  obtain ⟨x, h⟩ := rung_unmarked_eq r
  rw [h]

@[simp] theorem rung_unmarked_measured : (rung_unmarked r).measured_cx = r.measured_cx := by
  obtain ⟨x, h⟩ := rung_unmarked_eq r
  rw [h]

@[simp] theorem rung_unmarked_min : (rung_unmarked r).min_cx = r.min_cx := by
  obtain ⟨x, h⟩ := rung_unmarked_eq r
  rw [h]

@[simp] theorem rung_unmarked_max : (rung_unmarked r).max_cx = r.max_cx := by
  obtain ⟨x, h⟩ := rung_unmarked_eq r
  rw [h]

@[simp] theorem rung_unmarked_verdict : (rung_unmarked r).verdict = r.verdict := by
  obtain ⟨x, h⟩ := rung_unmarked_eq r
  rw [h]

/-- Of `best` only the readings count. -/
theorem rung_settle_unmarked (r best : SpeedRung) :
    rung_settle n points k (some (rung_unmarked best)) r = rung_settle n points k (some best) r := by
  unfold rung_settle speeds_margin radius_step_cx
  simp only [rung_unmarked_measured, rung_unmarked_min, rung_unmarked_max, rung_unmarked_requested]

/-! ## The ladder determines the verdicts -/

theorem Ladder.requested (h : Ladder rungs n points k out) (hi : i < n) :
    (out i).requested_x = (rungs i).requested_x := by
  obtain ⟨b, -, heq⟩ := h i hi
  rw [heq, rung_unmarked_requested, rung_settle_requested]
  rfl

/-- **Uniqueness**, from the slowest rung up. -/
theorem Ladder.unique (hd : DistinctRungs rungs n) (h : Ladder rungs n points k out)
    (h' : Ladder rungs n points k out') :
    ∀ i < n, out i = out' i := by
  have hstep : ∀ x : Nat, ∀ i < n, (rungs i).requested_x.toNat = x → out i = out' i := by
    intro x
    induction x using Nat.strong_induction_on with
    | _ x ih =>
      intro i hi hx
      have hbelow : ∀ q < n, (rungs q).requested_x < (rungs i).requested_x →
        out q = out' q := fun q hq hlt =>
        ih _ (hx ▸ BitVec.lt_def.1 hlt) q hq rfl
      obtain ⟨b, hb, heq⟩ := h i hi
      obtain ⟨b', hb', heq'⟩ := h' i hi
      suffices b = b' by rw [heq, heq', this]
      have hri := h.requested hi
      have hri' := h'.requested hi
      cases b with
      | none =>
        cases b' with
        | none => rfl
        | some b' =>
          obtain ⟨p, hp, rfl, hadm, hlt, -⟩ := hb'
          rw [h'.requested hp, hri'] at hlt
          have hle := hb p hp (by rw [hbelow p hp hlt]; exact hadm)
          rw [h.requested hp, hri] at hle
          exact absurd hle (BitVec.not_le.2 hlt)
      | some b =>
        obtain ⟨p, hp, rfl, hadm, hlt, hmax⟩ := hb
        rw [h.requested hp, hri] at hlt
        cases b' with
        | none =>
          have hle := hb' p hp (by rw [← hbelow p hp hlt]; exact hadm)
          rw [h'.requested hp, hri'] at hle
          exact absurd hle (BitVec.not_le.2 hlt)
        | some b' =>
          obtain ⟨p', hp', rfl, hadm', hlt', hmax'⟩ := hb'
          rw [h'.requested hp', hri'] at hlt'
          have h1 := hmax p' hp' (by rw [hbelow p' hp' hlt']; exact hadm')
            (by rw [h.requested hp', hri]; exact hlt')
          have h2 := hmax' p hp (by rw [← hbelow p hp hlt]; exact hadm)
            (by rw [h'.requested hp, hri']; exact hlt)
          rw [h.requested hp, h.requested hp'] at h1
          rw [h'.requested hp, h'.requested hp'] at h2
          obtain rfl := hd p hp p' hp' (BitVec.le_antisymm h2 h1)
          rw [hbelow p hp hlt]
  exact fun i hi => hstep _ i hi rfl

/-- The same rungs in another order. -/
theorem Ladder.permuted (h : Ladder rungs n points k out) (σ : Equiv.Perm Nat) (hσ : ∀ i, i < n ↔ σ i < n) :
    Ladder (rungs ∘ σ) n points k (out ∘ σ) := by
  intro i hi
  obtain ⟨b, hb, heq⟩ := h (σ i) ((hσ i).1 hi)
  refine ⟨b, ?_, heq⟩
  cases b with
  | none => exact fun q hq hadm => hb (σ q) ((hσ q).1 hq) hadm
  | some b =>
    obtain ⟨p, hp, rfl, hadm, hlt, hmax⟩ := hb
    have hinv : σ (σ.symm p) = p := σ.apply_symm_apply p
    exact ⟨σ.symm p, (hσ _).2 (by rw [hinv]; exact hp), by rw [Function.comp_apply, hinv], hadm, hlt,
      fun q hq => hmax (σ q) ((hσ q).1 hq)⟩

/-! ## The walk -/

/-- What the walk keeps: a rung is settled against the last one admitted below it, or still as it was; the
settled ones are below the others; and `best` is the last one admitted below each of those. -/
structure SpeedsWalked (rungs : Nat → SpeedRung) (n points k : Nat) (cur : Nat → SpeedRung)
    (best : Option SpeedRung) : Prop where
  each : ∀ i < n, (rung_settled (cur i) = true ∧
    ∃ b, LastAdmitted cur n i b ∧ cur i = rung_settle n points k b (rung_cleared (rungs i))) ∨
      cur i = rung_cleared (rungs i)
  order : ∀ i < n, ∀ j < n, rung_settled (cur i) = true → rung_settled (cur j) = false →
    (rungs i).requested_x < (rungs j).requested_x
  best : ∀ i < n, rung_settled (cur i) = false → LastAdmitted cur n i best

theorem SpeedsWalked.requested (h : SpeedsWalked rungs n points k cur best) (hi : i < n) :
    (cur i).requested_x = (rungs i).requested_x := by
  rcases h.each i hi with ⟨-, b, -, heq⟩ | heq
  · rw [heq, rung_settle_requested]
    rfl
  · rw [heq]
    rfl

theorem admitted_settled (h : r.verdict = .ADMITTED) : rung_settled r = true := by
  simp [rung_settled, h]

theorem walked_start : SpeedsWalked rungs n points k (fun i =>
    if i < n then rung_cleared (rungs i) else rungs i) none where
  each i hi := .inr (if_pos hi)
  order i hi j _ hs _ := by
    rw [if_pos hi, rung_cleared_unsettled] at hs
    cases hs
  best i _ _ q hq hadm := by
    simp only [if_pos hq] at hadm
    cases hadm

/-- Which rung was admitted last below `i` is decided by the admitted rungs below it. -/
theorem LastAdmitted.congr {new : Nat → SpeedRung} (h : LastAdmitted cur n i b)
    (hreq : ∀ q, (new q).requested_x = (cur q).requested_x)
    (hsame : ∀ q < n, (cur q).requested_x < (cur i).requested_x →
      (cur q).verdict = .ADMITTED ∨ (new q).verdict = .ADMITTED → new q = cur q) :
    LastAdmitted new n i b := by
  cases b with
  | none =>
    intro q hq hadm
    rw [hreq, hreq]
    by_contra hle
    have hlt := BitVec.not_le.1 hle
    exact hle (h q hq (hsame q hq hlt (.inr hadm) ▸ hadm))
  | some b =>
    obtain ⟨a, ha, rfl, hadm, hlt, hmax⟩ := h
    refine ⟨a, ha, hsame a ha hlt (.inl hadm), hadm, by rw [hreq]; exact hlt, fun q hq hqadm hqlt => ?_⟩
    rw [hreq, hreq] at hqlt
    rw [hreq]
    exact hmax q hq (hsame q hq hqlt (.inr hqadm) ▸ hqadm) hqlt

/-- Where the slowest rung that is left is admitted, it is the last one below all the others
that are left. -/
theorem SpeedsWalked.admitted_last (h : SpeedsWalked rungs n points k cur best) (hp : p < n)
    (hun : rung_settled (cur p) = false) (hreq : r.requested_x = (cur p).requested_x)
      (hadm : r.verdict = .ADMITTED)
    (hlt : (cur p).requested_x < (cur i).requested_x) (hip : i ≠ p) :
    LastAdmitted (Function.update cur p r) n i (some r) := by
  refine ⟨p, hp, Function.update_self .., hadm, ?_, fun q hq hqadm _ => ?_⟩
  · rw [Function.update_of_ne hip, hreq]
    exact hlt
  · by_cases hqp : q = p
    · rw [hqp, Function.update_self]
      exact BitVec.le_refl _
    · rw [Function.update_of_ne hqp] at hqadm ⊢
      rw [hreq, h.requested hq, h.requested hp]
      exact BitVec.le_of_lt (h.order q hq p hp (admitted_settled hqadm) hun)

/-- The others that are left are faster. -/
theorem SpeedsWalked.slowest (h : SpeedsWalked rungs n points k cur best)
    (hd : DistinctRungs rungs n) (hp : p < n)
    (hmin : ∀ j < n, rung_settled (cur j) = false →
      (cur p).requested_x.toNat ≤ (cur j).requested_x.toNat) (hi : i < n)
    (hip : i ≠ p) (hs : rung_settled (cur i) = false) : (rungs p).requested_x < (rungs i).requested_x := by
  have hle := hmin i hi hs
  rw [h.requested hp, h.requested hi] at hle
  refine BitVec.lt_def.2 (Nat.lt_of_le_of_ne hle fun heq => hip ?_)
  exact hd i hi p hp (BitVec.eq_of_toNat_eq heq.symm)

/-- **One turn**: the slowest rung that is left is settled against `best`. -/
theorem SpeedsWalked.turn (h : SpeedsWalked rungs n points k cur best)
    (hd : DistinctRungs rungs n) (hp : p < n)
    (hun : rung_settled (cur p) = false)
    (hmin : ∀ j < n, rung_settled (cur j) = false → (cur p).requested_x.toNat ≤ (cur j).requested_x.toNat) :
    SpeedsWalked rungs n points k (Function.update cur p (rung_settle n points k best (cur p)))
      (if (rung_settle n points k best (cur p)).verdict = .ADMITTED then
        some (rung_settle n points k best (cur p))
        else best) := by
  have hcur : cur p = rung_cleared (rungs p) := by
    rcases h.each p hp with ⟨hs, -⟩ | heq
    · rw [hun] at hs
      cases hs
    · exact heq
  have hreqr : (rung_settle n points k best (cur p)).requested_x = (cur p).requested_x :=
    rung_settle_requested
  have hsettled : rung_settled (rung_settle n points k best (cur p)) = true := rung_settle_settled
  generalize hr : rung_settle n points k best (cur p) = r at hreqr hsettled ⊢
  have hself : Function.update cur p r p = r := Function.update_self ..
  have hother : ∀ i, i ≠ p → Function.update cur p r i = cur i := fun i hi => Function.update_of_ne hi ..
  have hreq : ∀ q, (Function.update cur p r q).requested_x = (cur q).requested_x := fun q => by
    by_cases hq : q = p
    · rw [hq, hself, hreqr]
    · rw [hother q hq]
  -- nothing is new below the rung that is settled, nor below those settled before
  have hkeep : ∀ i < n, i = p ∨ rung_settled (cur i) = true → ∀ b, LastAdmitted cur n i b →
      LastAdmitted (Function.update cur p r) n i b := by
    refine fun i hi hs b hb => hb.congr hreq fun q hq hlt _ => hother q ?_
    rintro rfl
    rcases hs with rfl | hs
    · exact BitVec.lt_irrefl _ hlt
    · rw [h.requested hi, h.requested hq] at hlt
      exact BitVec.not_lt.2 (BitVec.le_of_lt hlt) (h.order i hi q hq hs hun)
  refine ⟨fun i hi => ?_, fun i hi j hj hsi hsj => ?_, fun i hi hs => ?_⟩
  · by_cases hip : i = p
    · subst hip
      refine .inl ⟨by rw [hself]; exact hsettled, best, hkeep i hi (.inl rfl) best (h.best i hi hun), ?_⟩
      rw [hself, ← hr, hcur]
    · rw [hother i hip]
      rcases h.each i hi with ⟨hs, b, hb, heq⟩ | heq
      · exact .inl ⟨hs, b, hkeep i hi (.inr hs) b hb, heq⟩
      · exact .inr heq
  · have hjp : j ≠ p := by
      rintro rfl
      rw [hself, hsettled] at hsj
      cases hsj
    rw [hother j hjp] at hsj
    by_cases hip : i = p
    · rw [hip]
      exact h.slowest hd hp hmin hj hjp hsj
    · rw [hother i hip] at hsi
      exact h.order i hi j hj hsi hsj
  · have hip : i ≠ p := by
      rintro rfl
      rw [hself, hsettled] at hs
      cases hs
    rw [hother i hip] at hs
    have hlt : (cur p).requested_x < (cur i).requested_x := by
      rw [h.requested hp, h.requested hi]
      exact h.slowest hd hp hmin hi hip hs
    by_cases hadm : r.verdict = .ADMITTED
    · rw [if_pos hadm]
      exact h.admitted_last hp hun hreqr hadm hlt hip
    · rw [if_neg hadm]
      refine (h.best i hi hs).congr hreq fun q _ _ hqadm => hother q ?_
      rintro rfl
      rw [hself] at hqadm
      rcases hqadm with hqadm | hqadm
      · rw [admitted_settled hqadm] at hun
        cases hun
      · exact hadm hqadm

/-- **The whole walk** settles every rung: as many turns are left as rungs. -/
theorem SpeedsWalked.walk (hd : DistinctRungs rungs n) (turns : Nat)
    (h : SpeedsWalked rungs n points k cur best)
    (hleft : ((Finset.range n).filter fun i => rung_settled (cur i) = false).card ≤ turns) :
    ∃ best', SpeedsWalked rungs n points k (speeds_walk n points k turns cur best) best' ∧
      ∀ i < n, rung_settled (speeds_walk n points k turns cur best i) = true := by
  induction turns generalizing cur best with
  | zero =>
    refine ⟨best, h, fun i hi => ?_⟩
    by_contra hno
    have hempty := Finset.card_eq_zero.1 (Nat.le_zero.1 hleft)
    exact Finset.notMem_empty i
      (hempty ▸ Finset.mem_filter.2 ⟨Finset.mem_range.2 hi, Bool.not_eq_true _ ▸ hno⟩)
  | succ turns ih =>
    have hspec := Loop.firstMin_spec (fun i => !rung_settled (cur i)) (fun i =>
      (cur i).requested_x.toNat) (List.range n)
    unfold speeds_walk
    cases hnext : next_slowest n cur with
    | none =>
      unfold next_slowest at hnext
      rw [hnext] at hspec
      exact ⟨best, h, fun i hi => by simpa using hspec i (List.mem_range.2 hi)⟩
    | some p =>
      unfold next_slowest at hnext
      rw [hnext] at hspec
      obtain ⟨hp, hun, hmin⟩ := hspec
      have hp := List.mem_range.1 hp
      have hun : rung_settled (cur p) = false := by simpa using hun
      refine ih (h.turn hd hp hun fun j hj hs => hmin j (List.mem_range.2 hj) (by simp [hs])) ?_
      have hsub : ((Finset.range n).filter fun i =>
          rung_settled (Function.update cur p (rung_settle n points k best (cur p)) i) = false) ⊆
            ((Finset.range n).filter fun i => rung_settled (cur i) = false).erase p := by
        intro i hi
        obtain ⟨hi, hs⟩ := Finset.mem_filter.1 hi
        have hip : i ≠ p := by
          rintro rfl
          rw [Function.update_self, rung_settle_settled] at hs
          cases hs
        rw [Function.update_of_ne hip] at hs
        exact Finset.mem_erase.2 ⟨hip, Finset.mem_filter.2 ⟨hi, hs⟩⟩
      have hmem : p ∈ (Finset.range n).filter fun i => rung_settled (cur i) = false :=
        Finset.mem_filter.2 ⟨Finset.mem_range.2 hp, hun⟩
      have h1 := Finset.card_le_card hsub
      have h2 := Finset.card_erase_lt_of_mem hmem
      omega

/-- The sentinel gone, the last rung admitted is the same one. -/
theorem LastAdmitted.unmarked (hout : ∀ q < n, out q = rung_unmarked (cur q)) (hi : i < n)
    (h : LastAdmitted cur n i b) :
    LastAdmitted out n i (b.map rung_unmarked) := by
  cases b with
  | none =>
    intro q hq hadm
    rw [hout q hq, rung_unmarked_verdict] at hadm
    rw [hout q hq, hout i hi, rung_unmarked_requested, rung_unmarked_requested]
    exact h q hq hadm
  | some b =>
    obtain ⟨p, hp, rfl, hadm, hlt, hmax⟩ := h
    refine ⟨p, hp, hout p hp, by rw [rung_unmarked_verdict]; exact hadm, ?_, fun q hq hqadm hqlt => ?_⟩
    · rw [hout i hi, rung_unmarked_requested, rung_unmarked_requested]
      exact hlt
    · rw [hout q hq, rung_unmarked_verdict] at hqadm
      rw [hout q hq, hout i hi, rung_unmarked_requested, rung_unmarked_requested] at hqlt
      rw [hout q hq, rung_unmarked_requested, rung_unmarked_requested]
      exact hmax q hq hqadm hqlt

/-- **The walk's result is a ladder.** -/
theorem adsc_speeds_admit_ladder (hd : DistinctRungs rungs n) (hpoints : 2 ≤ points) :
    Ladder rungs n points k ( adsc_speeds_admit n points k rungs) := by
  intro i hi
  have hcard : ((Finset.range n).filter fun i =>
      rung_settled (if i < n then rung_cleared (rungs i) else rungs i) = false).card ≤ n := by
    have := Finset.card_filter_le (Finset.range n) fun i =>
      rung_settled (if i < n then rung_cleared (rungs i) else rungs i) = false
    rwa [Finset.card_range] at this
  obtain ⟨best', hw, hall⟩ := (@walked_start n points k rungs).walk hd n hcard
  have hout : ∀ q < n, adsc_speeds_admit n points k rungs q = rung_unmarked
      (speeds_walk n points k n (fun i => if i < n then rung_cleared (rungs i) else rungs i) none q) := by
    intro q hq
    unfold adsc_speeds_admit
    rw [if_neg (by omega), if_neg (by omega), if_pos hq]
  rcases hw.each i hi with ⟨-, b, hb, heq⟩ | heq
  · refine ⟨b.map rung_unmarked, hb.unmarked hout hi, ?_⟩
    rw [hout i hi, heq]
    cases b with
    | none => rfl
    | some b => rw [Option.map_some, rung_settle_unmarked]
  · have hs := hall i hi
    rw [heq, rung_cleared_unsettled] at hs
    cases hs

/-! ## What a ladder says -/

/-- What a rung has to exceed another by, without overflow. -/
def rung_margin (n points k : Nat) (r best : SpeedRung) : Nat :=
  max SPEEDS_ADMIT_NOISE_CX (k * max (radius_step_cx n points r) (radius_step_cx n points best))

/-- The last rung admitted below `i` is `p`. -/
def LastBelow (out : Nat → SpeedRung) (n i p : Nat) : Prop :=
  p < n ∧ (out p).verdict = .ADMITTED ∧ (out p).requested_x < (out i).requested_x ∧
    ∀ q < n, (out q).verdict = .ADMITTED → (out q).requested_x < (out i).requested_x →
      (out q).requested_x ≤ (out p).requested_x

/-- The verdicts that the ladder promises. -/
structure AdmittedLadder (rungs : Nat → SpeedRung) (n points k : Nat) (out : Nat → SpeedRung) : Prop where
  quantized : ∀ i < n, (out i).verdict = .QUANTIZED ↔
    (rungs i).measured_cx ≠ 0 ∧ (rungs i).reported_x ≠ 0 ∧ (rungs i).reported_x < (rungs i).requested_x
  unmeasured : ∀ i < n, (rungs i).measured_cx = 0 → (out i).verdict = .UNKNOWN ∧ (out i).equiv_x = 0
  settled : ∀ i < n, (rungs i).measured_cx ≠ 0 →
    ¬((rungs i).reported_x ≠ 0 ∧ (rungs i).reported_x < (rungs i).requested_x) →
      (out i).verdict = .ADMITTED ∨ (out i).verdict = .DUPLICATE
  increasing : ∀ i < n, ∀ j < n, (out i).verdict = .ADMITTED → (out j).verdict = .ADMITTED →
    (rungs i).requested_x < (rungs j).requested_x → (rungs i).measured_cx < (rungs j).measured_cx
  exceeds : ∀ i < n, (out i).verdict = .ADMITTED → ∀ p, LastBelow out n i p →
    (rungs p).measured_cx.toNat + rung_margin n points k (rungs i) (rungs p) < (rungs i).measured_cx.toNat
  duplicate : ∀ i < n, (out i).verdict = .DUPLICATE → ∃ p, LastBelow out n i p ∧
    (rungs i).measured_cx.toNat ≤ (rungs p).measured_cx.toNat + rung_margin n points k (rungs i) (rungs p) ∧
      (out i).equiv_x = (rungs p).requested_x

theorem speeds_margin_eq {best : SpeedRung} (hr : radius_step_cx n points r * k < 2 ^ 32)
    (hb : radius_step_cx n points best * k < 2 ^ 32) :
      speeds_margin n points k r best = rung_margin n points k r best := by
  unfold speeds_margin rung_margin
  simp only []
  by_cases hlt : radius_step_cx n points r < radius_step_cx n points best
  · rw [if_pos hlt, Nat.max_eq_right (Nat.le_of_lt hlt),
      show u32 _ = _ from Nat.mod_eq_of_lt hb, Nat.mul_comm k]
    split <;> omega
  · rw [if_neg hlt, Nat.max_eq_left (Nat.not_lt.1 hlt),
      show u32 _ = _ from Nat.mod_eq_of_lt hr, Nat.mul_comm k]
    split <;> omega

/-- How a rung is settled against `best`. -/
theorem rung_settle_cases (n points k : Nat) (best : Option SpeedRung) (r : SpeedRung) :
    (r.measured_cx = 0 ∧ rung_settle n points k best r =
      { r with verdict := .UNKNOWN, equiv_x := 0xffff }) ∨
      (r.measured_cx ≠ 0 ∧ (r.reported_x ≠ 0 ∧ r.reported_x < r.requested_x) ∧
        rung_settle n points k best r = { r with verdict := .QUANTIZED, equiv_x := r.reported_x }) ∨
      (r.measured_cx ≠ 0 ∧ ¬(r.reported_x ≠ 0 ∧ r.reported_x < r.requested_x) ∧
        rung_settle n points k best r = { r with verdict := .ADMITTED } ∧
        ∀ b, best = some b → b.measured_cx.toNat + speeds_margin n points k r b < r.measured_cx.toNat) ∨
      (r.measured_cx ≠ 0 ∧ ¬(r.reported_x ≠ 0 ∧ r.reported_x < r.requested_x) ∧ ∃ b, best = some b ∧
        r.measured_cx.toNat ≤ b.measured_cx.toNat + speeds_margin n points k r b ∧
        rung_settle n points k best r = { r with verdict := .DUPLICATE, equiv_x := b.requested_x }) := by
  unfold rung_settle
  by_cases hm : r.measured_cx = 0
  · exact .inl ⟨hm, if_pos hm⟩
  rw [if_neg hm]
  by_cases hq : r.reported_x ≠ 0 ∧ r.reported_x < r.requested_x
  · exact .inr (.inl ⟨hm, hq, if_pos hq⟩)
  rw [if_neg hq]
  cases best with
  | none => exact .inr (.inr (.inl ⟨hm, hq, rfl, fun b hb => by cases hb⟩))
  | some b =>
    simp only [BitVec.lt_def]
    by_cases hex : b.measured_cx.toNat < r.measured_cx.toNat ∧
        speeds_margin n points k r b < r.measured_cx.toNat - b.measured_cx.toNat
    · rw [if_pos hex]
      refine .inr (.inr (.inl ⟨hm, hq, rfl, fun b' hb => ?_⟩))
      cases hb
      omega
    · rw [if_neg hex]
      exact .inr (.inr (.inr ⟨hm, hq, b, rfl, by omega, rfl⟩))

section
variable (h : Ladder rungs n points k out) (hd : DistinctRungs rungs n)
include h

theorem Ladder.measured (hi : i < n) : (out i).measured_cx = (rungs i).measured_cx := by
  obtain ⟨b, -, heq⟩ := h i hi
  rw [heq, rung_unmarked_measured, rung_settle_measured]
  rfl

theorem Ladder.step (hi : i < n) : radius_step_cx n points (out i) = radius_step_cx n points (rungs i) := by
  obtain ⟨b, -, heq⟩ := h i hi
  unfold radius_step_cx
  rw [heq, rung_unmarked_min, rung_unmarked_max, rung_settle_min, rung_settle_max]
  rfl

/-- Where a rung is admitted below, one is the last. -/
theorem Ladder.exists_last (hi : i < n) {q : Nat} (hq : q < n) (hadm : (out q).verdict = .ADMITTED)
    (hlt : (out q).requested_x < (out i).requested_x) : ∃ p, LastBelow out n i p := by
  obtain ⟨b, hb, -⟩ := h i hi
  cases b with
  | none => exact absurd (hb q hq hadm) (BitVec.not_le.2 hlt)
  | some b =>
    obtain ⟨p, hp, rfl, hpadm, hplt, hmax⟩ := hb
    exact ⟨p, hp, hpadm, hplt, hmax⟩

include hd

/-- What a rung is settled against is its last rung below. -/
theorem Ladder.last (hb : LastAdmitted out n i b) (hp : LastBelow out n i p) : b = some (out p) := by
  obtain ⟨hpn, hadm, hlt, hmax⟩ := hp
  cases b with
  | none => exact absurd (hb p hpn hadm) (BitVec.not_le.2 hlt)
  | some b =>
    obtain ⟨q, hq, rfl, hqadm, hqlt, hqmax⟩ := hb
    have heq := BitVec.le_antisymm (hmax q hq hqadm hqlt) (hqmax p hpn hadm hlt)
    rw [h.requested hq, h.requested hpn] at heq
    rw [hd q hq p hpn heq]

omit hd

variable (hk : ∀ i < n, radius_step_cx n points (rungs i) * k < 2 ^ 32)
include hk

theorem Ladder.margin (hi : i < n) (hp : p < n) :
    speeds_margin n points k (rung_cleared (rungs i)) (out p) =
      rung_margin n points k (rungs i) (rungs p) := by
  have hstep : radius_step_cx n points (rung_cleared (rungs i)) = radius_step_cx n points (rungs i) := rfl
  rw [speeds_margin_eq (by rw [hstep]; exact hk i hi) (by rw [h.step hp]; exact hk p hp)]
  unfold rung_margin
  rw [hstep, h.step hp]

include hd

theorem Ladder.exceeds (hi : i < n) (hadm : (out i).verdict = .ADMITTED) (hp : LastBelow out n i p) :
    (rungs p).measured_cx.toNat + rung_margin n points k (rungs i) (rungs p) <
      (rungs i).measured_cx.toNat := by
  obtain ⟨b, hb, heq⟩ := h i hi
  have hlast := h.last hd hb hp
  rw [heq, rung_unmarked_verdict] at hadm
  rcases rung_settle_cases n points k b (rung_cleared (rungs i)) with
    ⟨-, hs⟩ | ⟨-, -, hs⟩ | ⟨-, -, -, hex⟩ | ⟨-, -, b', -, -, hs⟩
  · rw [hs] at hadm
    cases hadm
  · rw [hs] at hadm
    cases hadm
  · have := hex _ hlast
    rw [h.measured hp.1, h.margin hk hi hp.1] at this
    exact this
  · rw [hs] at hadm
    cases hadm

theorem Ladder.increasing (hj : j < n) (hi : i < n) (hiadm : (out i).verdict = .ADMITTED)
    (hjadm : (out j).verdict = .ADMITTED) (hlt : (rungs i).requested_x < (rungs j).requested_x) :
    (rungs i).measured_cx < (rungs j).measured_cx := by
  have hstep : ∀ x : Nat, ∀ j < n, (rungs j).requested_x.toNat = x → (out j).verdict = .ADMITTED →
      (rungs i).requested_x < (rungs j).requested_x → (rungs i).measured_cx < (rungs j).measured_cx := by
    intro x
    induction x using Nat.strong_induction_on with
    | _ x ih =>
      intro j hj hx hjadm hlt
      have hout : (out i).requested_x < (out j).requested_x := by
        rw [h.requested hi, h.requested hj]
        exact hlt
      obtain ⟨p, hp⟩ := h.exists_last hj hi hiadm hout
      have hex := h.exceeds hd hk hj hjadm hp
      have hle := hp.2.2.2 i hi hiadm hout
      have hplt := hp.2.2.1
      rw [h.requested hi, h.requested hp.1] at hle
      rw [h.requested hp.1, h.requested hj] at hplt
      refine BitVec.lt_def.2 ?_
      by_cases hip : i = p
      · subst hip
        omega
      · -- the last one below `j` is itself above `i`
        have hne : (rungs i).requested_x ≠ (rungs p).requested_x := fun heq => hip (hd i hi p hp.1 heq)
        have hbelow := BitVec.lt_def.2 (Nat.lt_of_le_of_ne (BitVec.le_def.1 hle) fun heq =>
          hne (BitVec.eq_of_toNat_eq heq))
        have := BitVec.lt_def.1 (ih _ (hx ▸ BitVec.lt_def.1 hplt) p hp.1 rfl hp.2.1 hbelow)
        omega
  exact hstep _ j hj rfl hjadm hlt

/-- **What a ladder says.** -/
theorem Ladder.admitted : AdmittedLadder rungs n points k out where
  quantized i hi := by
    obtain ⟨b, -, heq⟩ := h i hi
    rw [heq, rung_unmarked_verdict]
    rcases rung_settle_cases n points k b (rung_cleared (rungs i)) with
      ⟨hm, hs⟩ | ⟨hm, hq, hs⟩ | ⟨-, hq, hs, -⟩ | ⟨-, hq, b', -, -, hs⟩ <;> rw [hs]
    · exact ⟨fun hv => (by cases hv), fun hno => absurd hm hno.1⟩
    · exact ⟨fun _ => ⟨hm, hq⟩, fun _ => rfl⟩
    · exact ⟨fun hv => (by cases hv), fun hyes => absurd hyes.2 hq⟩
    · exact ⟨fun hv => (by cases hv), fun hyes => absurd hyes.2 hq⟩
  unmeasured i hi hm := by
    obtain ⟨b, -, heq⟩ := h i hi
    rw [heq]
    rcases rung_settle_cases n points k b (rung_cleared (rungs i)) with
      ⟨-, hs⟩ | ⟨hm', -⟩ | ⟨hm', -⟩ | ⟨hm', -⟩
    · rw [hs]
      exact ⟨rfl, rfl⟩
    · exact absurd hm hm'
    · exact absurd hm hm'
    · exact absurd hm hm'
  settled i hi hm hq := by
    obtain ⟨b, -, heq⟩ := h i hi
    rw [heq, rung_unmarked_verdict]
    rcases rung_settle_cases n points k b (rung_cleared (rungs i)) with
      ⟨hm', -⟩ | ⟨-, hq', -⟩ | ⟨-, -, hs, -⟩ | ⟨-, -, b', -, -, hs⟩
    · exact absurd hm' hm
    · exact absurd hq' hq
    · exact .inl (by rw [hs])
    · exact .inr (by rw [hs])
  increasing i hi j hj hiadm hjadm hlt := h.increasing hd hk hj hi hiadm hjadm hlt
  exceeds i hi hadm p hp := h.exceeds hd hk hi hadm hp
  duplicate i hi hdup := by
    obtain ⟨b, hb, heq⟩ := h i hi
    rcases rung_settle_cases n points k b (rung_cleared (rungs i)) with
      ⟨-, hs⟩ | ⟨-, -, hs⟩ | ⟨-, -, hs, -⟩ | ⟨-, -, b', rfl, hle, hs⟩
    · rw [heq, rung_unmarked_verdict, hs] at hdup
      cases hdup
    · rw [heq, rung_unmarked_verdict, hs] at hdup
      cases hdup
    · rw [heq, rung_unmarked_verdict, hs] at hdup
      cases hdup
    · obtain ⟨p, hp, rfl, hadm, hlt, hmax⟩ := hb
      refine ⟨p, ⟨hp, hadm, hlt, hmax⟩, ?_, ?_⟩
      · rw [h.measured hp, h.margin hk hi hp] at hle
        exact hle
      · -- a setting below another is not the sentinel
        have hmark : ¬(out p).requested_x = 0xffff := by
          intro h0
          rw [h0] at hlt
          have hhigh : 0xffff < (out i).requested_x.toNat := BitVec.lt_def.1 hlt
          have := (out i).requested_x.isLt
          omega
        rw [heq, hs]
        unfold rung_unmarked
        rw [if_neg hmark]
        exact h.requested hp

end

/-- **The admitted ladder**, and the order of the array does not change it. -/
theorem adsc_speeds_admit_admitted (rungs : Nat → SpeedRung) (n points k : Nat)
    (hd : DistinctRungs rungs n) (hpoints : 2 ≤ points) (hk : ∀ i < n,
      radius_step_cx n points (rungs i) * k < 2 ^ 32) :
    AdmittedLadder rungs n points k ( adsc_speeds_admit n points k rungs) ∧
      ∀ σ : Equiv.Perm Nat, (∀ i, i < n ↔ σ i < n) → ∀ i < n,
        adsc_speeds_admit n points k (rungs ∘ σ) i = adsc_speeds_admit n points k rungs (σ i) := by
  have hladder := @adsc_speeds_admit_ladder n points k rungs hd hpoints
  refine ⟨hladder.admitted hd hk, fun σ hσ i hi => ?_⟩
  have hd' : DistinctRungs (rungs ∘ σ) n := fun i hi j hj heq =>
    σ.injective (hd _ ((hσ i).1 hi) _ ((hσ j).1 hj) heq)
  exact (adsc_speeds_admit_ladder hd' hpoints).unique hd' (hladder.permuted σ hσ) i hi

/-- A ladder of three speeds, the middle one no faster than the lowest. -/
def three_speeds : Nat → SpeedRung
  | 0 => { requested_x := 24, reported_x := 24, measured_cx := 2300 }
  | 1 => { requested_x := 4, reported_x := 4, measured_cx := 800 }
  | _ => { requested_x := 8, reported_x := 8, measured_cx := 830 }

theorem adsc_speeds_admit_admitted_three :
    AdmittedLadder three_speeds 3 2 1 ( adsc_speeds_admit 3 2 1 three_speeds) :=
  (adsc_speeds_admit_admitted three_speeds 3 2 1 (by decide) (by decide) (by decide)).1

example : (List.range 3).map (fun i => ( adsc_speeds_admit 3 2 1 three_speeds i).verdict) =
    [.ADMITTED, .ADMITTED, .DUPLICATE] := by decide

end Accudisc
