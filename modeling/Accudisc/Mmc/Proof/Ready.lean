import Accudisc.Mmc.Proof.Device
import Accudisc.Mmc.Ready
import Mathlib.Order.Nat

/-!
# How long the wait is

The answers decide the wait one by one: a unit attention is asked past, a drive that is becoming ready is
asked again while the counter is below the timeout, and any other answer ends it. `Asked` is the state
after the answers so far, `WaitSettled` that the drive's first answers end the wait. Only the second kind of
answer counts, so nothing bounds the unit attentions.
-/

namespace Accudisc

instance (a : DriveAnswer) : Decidable a.UnitAttention := inferInstanceAs (Decidable (_ ∧ _))
instance (a : DriveAnswer) : Decidable a.NotReady := inferInstanceAs (Decidable (_ ∧ _))

section
variable (answers : Nat → DriveAnswer) (dev : Dev (BitVec 8)) (timeout_ms : Nat)

/-- What the drive answers to the `i`-th TEST UNIT READY. -/
def said (i : Nat) : DriveAnswer := answers (dev.taken + i)

/-- How many of the first `c` answers say that the drive is becoming ready. -/
def waits (c : Nat) : Nat := (List.range c).countP fun i => (said answers dev i).NotReady

/-- The answers before `c` end the wait: one is neither a unit attention nor a wait, or one is a wait when
the counter has reached the timeout. -/
def WaitSettled (c : Nat) : Prop :=
  (∃ i < c, ¬(said answers dev i).UnitAttention ∧ ¬(said answers dev i).NotReady) ∨
    ∃ k < waits answers dev c, timeout_ms ≤ u32 (k * ADSC_READY_POLL_MS)

/-- The state after `c` answers none of which ended the wait. -/
structure Asked (c : Nat) (w : ReadyWait) : Prop where
  taken : w.dev.taken = dev.taken + c
  asked : ∀ i < c, (said answers dev i).UnitAttention ∨ (said answers dev i).NotReady
  early : ∀ k < waits answers dev c, u32 (k * ADSC_READY_POLL_MS) < timeout_ms
  waited : w.waited = u32 (waits answers dev c * ADSC_READY_POLL_MS)
  slept : w.slept = waits answers dev c * ADSC_READY_POLL_MS
  noted : w.noted = none

/-- How the wait ends at answer `c`. -/
structure Answered (c : Nat) (rc : Int) (w : ReadyWait) : Prop where
  taken : w.dev.taken = dev.taken + c + 1
  settled : WaitSettled answers dev timeout_ms (c + 1)
  good : rc = ACCUDISC_OK → (said answers dev c).rc = ACCUDISC_OK
  exhausted : w.noted ≠ none → rc = ACCUDISC_ERR_IO ∧ timeout_ms ≤ w.slept
  code : w.noted = none → rc = (said answers dev c).rc

end

section
variable {answers : Nat → DriveAnswer} {dev : Dev (BitVec 8)} {timeout_ms c n i j : Nat} {w w' : ReadyWait}
  {rc : Int}

theorem waits_succ (c : Nat) :
    waits answers dev (c + 1) = waits answers dev c + if (said answers dev c).NotReady then 1 else 0 := by
  unfold waits
  rw [List.range_succ, List.countP_append, List.countP_singleton]
  simp only [decide_eq_true_eq]

theorem waits_mono (h : i ≤ j) : waits answers dev i ≤ waits answers dev j := by
  induction h with
  | refl => exact le_rfl
  | step _ ih =>
    rw [waits_succ]
    omega

/-- A stretch of unit attentions adds no wait. -/
theorem waits_attention (h : ∀ i < n, (said answers dev (c + i)).UnitAttention) :
    waits answers dev (c + n) = waits answers dev c := by
  induction n with
  | zero => rfl
  | succ n ih =>
    rw [← Nat.add_assoc, waits_succ, if_neg (h n (Nat.lt_succ_self n)).not_notReady, Nat.add_zero]
    exact ih fun i hi => h i (by omega)

theorem WaitSettled.mono (h : WaitSettled answers dev timeout_ms i) (hij : i ≤ j) :
    WaitSettled answers dev timeout_ms j := by
  rcases h with ⟨a, ha, hd⟩ | ⟨k, hk, ht⟩
  · exact .inl ⟨a, by omega, hd⟩
  · exact .inr ⟨k, hk.trans_le (waits_mono hij), ht⟩

theorem Asked.not_settled (h : Asked answers dev timeout_ms c w) :
    ¬WaitSettled answers dev timeout_ms c := by
  intro hs
  rcases hs with ⟨i, hi, hua, hnr⟩ | ⟨k, hk, ht⟩
  · exact (h.asked i hi).elim hua hnr
  · exact absurd (h.early k hk) (by omega)

theorem Asked.init : Asked answers dev timeout_ms 0 { dev := dev } where
  taken := rfl
  asked := fun i hi => absurd hi (Nat.not_lt_zero i)
  early := fun k hk => absurd hk (Nat.not_lt_zero k)
  waited := by simp [waits, u32]
  slept := by simp [waits]
  noted := rfl

theorem classify_yes {a : DriveAnswer} (h : adsc_ready_classify a.rc a.last_sense = .YES) :
    a.rc = ACCUDISC_OK := by
  unfold adsc_ready_classify at h
  by_contra hne
  rw [if_neg hne] at h
  split at h
  · cases h
  split at h
  · split at h <;> cases h
  split at h
  · split at h
    · cases h
    · split at h <;> cases h
  · cases h

theorem classify_attention {a : DriveAnswer} (h : a.UnitAttention) :
    adsc_ready_classify a.rc a.last_sense = .RETRY_NOW := by
  obtain ⟨hrc, hv, hk, hasc⟩ := h
  unfold adsc_ready_classify
  rw [if_neg (by rw [hrc]; decide), if_neg (by simp [hrc, hv]), if_pos hk, if_pos hasc]

theorem classify_not_ready {a : DriveAnswer} (h : a.NotReady) :
    adsc_ready_classify a.rc a.last_sense = .WAIT := by
  obtain ⟨hrc, hv, hk, hasc⟩ := h
  unfold adsc_ready_classify
  rw [if_neg (by rw [hrc]; decide), if_neg (by simp [hrc, hv]), if_neg (by rw [hk]; decide), if_pos hk,
    if_neg (by rw [hasc]; decide), if_pos hasc]

variable (answers) in
/-- **One turn**: unit attentions, and the answer that the turn looks at. -/
theorem test_unit_ready_law (dev : Dev (BitVec 8)) : ∃ tries,
    (adsc_mmc_test_unit_ready answers dev).2.taken = dev.taken + tries + 1 ∧
    (∀ i < tries, (answers (dev.taken + i)).UnitAttention) ∧
    (adsc_mmc_test_unit_ready answers dev).1 = answers (dev.taken + tries) ∧
    (adsc_mmc_test_unit_ready answers dev).2.last_sense = (answers (dev.taken + tries)).last_sense := by
  obtain ⟨tries, h⟩ : ∃ tries, ExecLaw answers id 0x00 dev (adsc_dev_exec answers id 0x00 dev) tries :=
    adsc_dev_exec_law
  refine ⟨tries, h.taken, fun i hi => ?_, h.result, h.sense⟩
  exact (h.refused i hi).resolve_right (h.patient (.inl rfl) i hi)

/-- What a turn does: it goes on past at least one answer, or ends. -/
theorem Asked.turn (h : Asked answers dev timeout_ms c w) :
    ∃ tries, (∀ i < tries, (said answers dev (c + i)).UnitAttention) ∧
      match wait_ready_turn answers timeout_ms w with
      | (none, w') => Asked answers dev timeout_ms (c + tries + 1) w'
      | (some rc, w') => Answered answers dev timeout_ms (c + tries) rc w' := by
  obtain ⟨tries, htaken, hatt, hres, hsense⟩ := test_unit_ready_law answers w.dev
  have hsaid : ∀ i, answers (w.dev.taken + i) = said answers dev (c + i) := by
    intro i
    rw [h.taken, Nat.add_assoc]
    rfl
  have hatt' : ∀ i < tries, (said answers dev (c + i)).UnitAttention := fun i hi => hsaid i ▸ hatt i hi
  rw [hsaid] at hres hsense
  have htaken' : (adsc_mmc_test_unit_ready answers w.dev).2.taken = dev.taken + (c + tries + 1) := by
    rw [htaken, h.taken]
    omega
  have hwaits := waits_attention hatt'
  have hasked : ∀ i < c + tries, (said answers dev i).UnitAttention ∨ (said answers dev i).NotReady := by
    intro i hi
    by_cases hic : i < c
    · exact h.asked i hic
    · have := hatt' (i - c) (by omega)
      rw [show c + (i - c) = i by omega] at this
      exact .inl this
  refine ⟨tries, hatt', ?_⟩
  unfold wait_ready_turn
  simp only [hres, hsense]
  have hother : ∀ {r : Readiness}, adsc_ready_classify (said answers dev (c + tries)).rc
      (said answers dev (c + tries)).last_sense = r → r ≠ .RETRY_NOW → r ≠ .WAIT →
      WaitSettled answers dev timeout_ms (c + tries + 1) := by
    intro r hr h1 h2
    refine .inl ⟨c + tries, by omega, fun hua => ?_, fun hnr => ?_⟩
    · exact h1 (hr.symm.trans (classify_attention hua))
    · exact h2 (hr.symm.trans (classify_not_ready hnr))
  cases hcls : adsc_ready_classify (said answers dev (c + tries)).rc
    (said answers dev (c + tries)).last_sense with
  | YES =>
    exact ⟨htaken', hother hcls (by simp) (by simp), fun _ => classify_yes hcls, fun hn =>
      absurd h.noted hn,
      fun _ => (classify_yes hcls).symm⟩
  | NO_MEDIUM =>
    exact ⟨htaken', hother hcls (by simp) (by simp), fun hok => hok, fun hn =>
      absurd h.noted hn, fun _ => rfl⟩
  | OTHER =>
    exact ⟨htaken', hother hcls (by simp) (by simp), fun hok => hok, fun hn =>
      absurd h.noted hn, fun _ => rfl⟩
  | RETRY_NOW =>
    have hua := classify_retry_now hcls
    have hsame : waits answers dev (c + tries + 1) = waits answers dev c := by
      rw [waits_succ, if_neg hua.not_notReady, Nat.add_zero, hwaits]
    refine ⟨htaken', fun i hi => ?_, ?_, ?_, ?_, h.noted⟩
    · rcases Nat.lt_succ_iff_lt_or_eq.1 hi with hlt | rfl
      · exact hasked i hlt
      · exact .inl hua
    · rw [hsame]
      exact h.early
    · rw [hsame]
      exact h.waited
    · rw [hsame]
      exact h.slept
  | WAIT =>
    have hnr := classify_wait hcls
    have hnext : waits answers dev (c + tries + 1) = waits answers dev c + 1 := by
      rw [waits_succ, if_pos hnr, hwaits]
    by_cases ht : timeout_ms ≤ w.waited
    · simp only [if_pos ht]
      have ht' := ht
      rw [h.waited] at ht'
      refine ⟨htaken', .inr ⟨waits answers dev c, by omega, ht'⟩, fun hok => absurd hok (by decide),
        fun _ => ⟨rfl, ?_⟩, fun hn => by cases hn⟩
      show timeout_ms ≤ w.slept
      rw [h.slept]
      exact ht'.trans (Nat.mod_le _ _)
    · simp only [if_neg ht]
      refine ⟨htaken', fun i hi => ?_, fun k hk => ?_, ?_, ?_, h.noted⟩
      · rcases Nat.lt_succ_iff_lt_or_eq.1 hi with hlt | rfl
        · exact hasked i hlt
        · exact .inr hnr
      · rw [hnext] at hk
        rcases Nat.lt_succ_iff_lt_or_eq.1 hk with hlt | rfl
        · exact h.early k hlt
        · rw [← h.waited]
          omega
      · rw [hnext, Nat.succ_mul]
        show u32 (w.waited + ADSC_READY_POLL_MS) = _
        rw [h.waited]
        exact Nat.mod_add_mod _ _ _
      · rw [hnext, Nat.succ_mul, ← h.slept]

/-- **The loop**, from an answer `c` on: it has passed at least one answer a turn, or has ended. -/
theorem Asked.loop (h : Asked answers dev timeout_ms c w) (n : Nat) :
    match wait_ready_loop answers timeout_ms n w with
    | (none, w') => ∃ c', c + n ≤ c' ∧ Asked answers dev timeout_ms c' w'
    | (some rc, w') => ∃ e tries wl, Asked answers dev timeout_ms e wl ∧
        (∀ i < tries, (said answers dev (e + i)).UnitAttention) ∧
        Answered answers dev timeout_ms (e + tries) rc w' := by
  induction n generalizing c w with
  | zero => exact ⟨c, le_rfl, h⟩
  | succ n ih =>
    obtain ⟨tries, hatt, hturn⟩ := h.turn
    unfold wait_ready_loop
    rcases hr : wait_ready_turn answers timeout_ms w with ⟨r, w'⟩
    rw [hr] at hturn
    cases r with
    | some rc => exact ⟨c, tries, w, h, hatt, hturn⟩
    | none =>
      have := ih hturn
      simp only []
      rcases hl : wait_ready_loop answers timeout_ms n w' with ⟨r, w''⟩
      rw [hl] at this
      cases r with
      | some rc => exact this
      | none =>
        obtain ⟨c', hc', ha⟩ := this
        exact ⟨c', by omega, ha⟩

/-- Unit attentions after an unsettled answer settle nothing. -/
theorem Asked.attention (h : Asked answers dev timeout_ms c w)
    (hatt : ∀ i < n, (said answers dev (c + i)).UnitAttention) :
      ¬WaitSettled answers dev timeout_ms (c + n) := by
  intro hs
  rcases hs with ⟨i, hi, hua, hnr⟩ | ⟨k, hk, ht⟩
  · by_cases hic : i < c
    · exact (h.asked i hic).elim hua hnr
    · have := hatt (i - c) (by omega)
      rw [show c + (i - c) = i by omega] at this
      exact hua this
  · rw [waits_attention hatt] at hk
    exact absurd (h.early k hk) (by omega)

end

/-- The wait returns within `bound` commands, an OK only after a GOOD answer and a timeout only after the
time. -/
def WaitEnds (answers : Nat → DriveAnswer) (timeout_ms : Nat) (dev : Dev (BitVec 8)) (bound : Nat) : Prop :=
  ∃ n rc w, adsc_dev_wait_ready answers timeout_ms n dev = (some rc, w) ∧
    w.dev.taken ≤ dev.taken + bound ∧
    (rc = ACCUDISC_OK → (answers (w.dev.taken - 1)).rc = ACCUDISC_OK) ∧
    (w.noted ≠ none → rc = ACCUDISC_ERR_IO ∧ timeout_ms ≤ w.slept) ∧
    (w.noted = none → rc = (answers (w.dev.taken - 1)).rc)

section
variable {answers : Nat → DriveAnswer} {timeout_ms bound : Nat} {dev : Dev (BitVec 8)}

theorem WaitEnds.settled (h : WaitEnds answers timeout_ms dev bound) :
    WaitSettled answers dev timeout_ms bound := by
  obtain ⟨n, rc, w, hrun, hbound, -⟩ := h
  have hinit : Asked answers dev timeout_ms 0 { dev := dev } := Asked.init
  have hloop := hinit.loop n
  unfold adsc_dev_wait_ready at hrun
  rw [hrun] at hloop
  obtain ⟨e, tries, wl, -, -, hend⟩ := hloop
  have := hend.taken
  exact hend.settled.mono (by omega)

/-- Answers that settle the wait end it within as many commands. -/
theorem WaitSettled.ends (hs : WaitSettled answers dev timeout_ms bound) :
    WaitEnds answers timeout_ms dev bound := by
  have hinit : Asked answers dev timeout_ms 0 { dev := dev } := Asked.init
  have hloop := hinit.loop bound
  rcases hrun : wait_ready_loop answers timeout_ms bound { dev := dev } with ⟨r, w⟩
  rw [hrun] at hloop
  cases r with
  | none =>
    obtain ⟨c, hc, ha⟩ := hloop
    exact absurd (hs.mono (by omega)) ha.not_settled
  | some rc =>
    obtain ⟨e, tries, wl, ha, hatt, hend⟩ := hloop
    have htaken := hend.taken
    have hlast : answers (w.dev.taken - 1) = said answers dev (e + tries) := by
      unfold said
      rw [htaken]
      congr 1
    refine ⟨_, rc, w, hrun, ?_, ?_, hend.exhausted, ?_⟩
    · by_contra hgt
      exact ha.attention hatt (hs.mono (by omega))
    · rw [hlast]
      exact hend.good
    · rw [hlast]
      exact hend.code

/-- The waits that the timeout has room for. -/
def wait_polls (timeout_ms : Nat) : Nat := (timeout_ms + ADSC_READY_POLL_MS - 1) / ADSC_READY_POLL_MS

/-- Below the timeouts that the counter cannot reach, the waits end the wait as they are meant to. -/
theorem settled_iff_polls (ht : timeout_ms ≤ 4294967250) (c : Nat) :
    WaitSettled answers dev timeout_ms c ↔
      (∃ i < c, ¬(said answers dev i).UnitAttention ∧ ¬(said answers dev i).NotReady) ∨
        wait_polls timeout_ms < waits answers dev c := by
  unfold WaitSettled
  refine or_congr_right ⟨fun h => ?_, fun h => ⟨_, h, ?_⟩⟩
  · obtain ⟨k, hk, hle⟩ := h
    have : u32 (k * ADSC_READY_POLL_MS) ≤ k * ADSC_READY_POLL_MS := Nat.mod_le _ _
    unfold wait_polls ADSC_READY_POLL_MS at *
    omega
  · unfold wait_polls u32 ADSC_READY_POLL_MS
    omega

/-- **A drive that never answers with a unit attention four times running** is waited for as the retries of
`adsc_dev_exec` allow. -/
theorem settled_of_allowance (ht : timeout_ms ≤ 4294967250)
    (h : ∀ i, ∃ j ≤ ADSC_UA_RETRIES, ¬(said answers dev (i + j)).UnitAttention) :
    WaitEnds answers timeout_ms dev ((ADSC_UA_RETRIES + 1) * (wait_polls timeout_ms + 1)) := by
  refine WaitSettled.ends ((settled_iff_polls ht _).2 ?_)
  by_contra hno
  rw [not_or] at hno
  obtain ⟨hdec, hfew⟩ := hno
  have hmany : ∀ k ≤ wait_polls timeout_ms + 1, k ≤ waits answers dev ((ADSC_UA_RETRIES + 1) * k) := by
    intro k hk
    induction k with
    | zero => exact Nat.zero_le _
    | succ k ih =>
      obtain ⟨j, hj, hnot⟩ := h ((ADSC_UA_RETRIES + 1) * k)
      have hlt : (ADSC_UA_RETRIES + 1) * k + j < (ADSC_UA_RETRIES + 1) * (wait_polls timeout_ms + 1) := by
        have := Nat.mul_le_mul_left (ADSC_UA_RETRIES + 1) hk
        rw [Nat.mul_succ] at this
        omega
      have hnr : (said answers dev ((ADSC_UA_RETRIES + 1) * k + j)).NotReady := by
        by_contra hnr
        exact hdec ⟨_, hlt, hnot, hnr⟩
      have hsucc : waits answers dev ((ADSC_UA_RETRIES + 1) * k + j + 1) = _ := waits_succ _
      rw [if_pos hnr] at hsucc
      have hlow : waits answers dev ((ADSC_UA_RETRIES + 1) * k) ≤
        waits answers dev ((ADSC_UA_RETRIES + 1) * k + j) :=
        waits_mono (Nat.le_add_right _ _)
      have hhigh : waits answers dev ((ADSC_UA_RETRIES + 1) * k + j + 1) ≤
          waits answers dev ((ADSC_UA_RETRIES + 1) * (k + 1)) := waits_mono (by rw [Nat.mul_succ]; omega)
      have := ih (by omega)
      omega
  have := hmany _ le_rfl
  omega

end

/-- **The wait is as long as the drive makes it**: whatever bound one takes from the timeout, the wait keeps
it exactly where the answers within the bound settle it. -/
theorem adsc_dev_wait_ready_ends_iff (bound : Nat → Nat) (answers : Nat → DriveAnswer) (timeout_ms : Nat)
    (dev : Dev (BitVec 8)) :
    WaitEnds answers timeout_ms dev (bound timeout_ms) ↔
      WaitSettled answers dev timeout_ms (bound timeout_ms) :=
  ⟨WaitEnds.settled, WaitSettled.ends⟩

/-- A drive stuck in 6/28/00. -/
def stuck_answer : DriveAnswer where
  rc := ACCUDISC_ERR_SENSE
  sense := fun i => if i = 0 then 0x70 else if i = 2 then 0x06 else if i = 12 then 0x28 else 0
  sense_len := 18
  data := fun _ => 0

theorem stuck_attention : stuck_answer.UnitAttention := by decide

/-- **The wait has no bound**: the drive that is stuck in a unit attention is asked for ever. -/
theorem adsc_dev_wait_ready_hangs : ¬∃ bound : Nat → Nat, ∀ timeout_ms < 2 ^ 32, ∀ answers dev,
    WaitEnds answers timeout_ms dev (bound timeout_ms) := by
  intro h
  obtain ⟨bound, h⟩ := h
  have hs := (h ADSC_READY_TIMEOUT_MS (by decide) (fun _ => stuck_answer) {}).settled
  have hnone : ∀ n, waits (fun _ => stuck_answer) {} n = 0 := by
    intro n
    refine List.countP_eq_zero.2 fun i _ => ?_
    simp only [decide_eq_true_eq]
    exact stuck_attention.not_notReady
  rcases hs with ⟨i, -, hua, -⟩ | ⟨k, hk, -⟩
  · exact hua stuck_attention
  · rw [hnone] at hk
    exact Nat.not_lt_zero k hk

end Accudisc
