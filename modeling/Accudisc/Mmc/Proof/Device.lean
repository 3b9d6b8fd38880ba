import Accudisc.Mmc.Device

/-!
# What a command is sent again for

`ExecLaw` says what `adsc_dev_exec` can do: how often it sends the command, after which answers, and
what it leaves.
-/

namespace Accudisc

/-- The command did not execute, and can be sent again at once. -/
def DriveAnswer.UnitAttention (a : DriveAnswer) : Prop :=
  a.rc = ACCUDISC_ERR_SENSE ∧ a.last_sense.valid = true ∧ a.last_sense.key = 0x06 ∧
    (a.last_sense.asc = 0x28 ∨ a.last_sense.asc = 0x29)

/-- The drive is becoming ready. -/
def DriveAnswer.NotReady (a : DriveAnswer) : Prop :=
  a.rc = ACCUDISC_ERR_SENSE ∧ a.last_sense.valid = true ∧ a.last_sense.key = 0x02 ∧ a.last_sense.asc = 0x04

/-- The command is sent once and `tries` times again, and nothing else is. -/
structure ExecLaw {κ : Type} (answers : Nat → DriveAnswer) (op : κ → BitVec 8) (cmd : κ) (dev : Dev κ)
    (r : DriveAnswer × Dev κ) (tries : Nat) : Prop where
  wire : r.2.wire = (List.range (tries + 1)).reverse.map (fun i =>
    (cmd, answers (dev.taken + i))) ++ dev.wire
  taken : r.2.taken = dev.taken + tries + 1
  once : adsc_op_repeatable (op cmd) = false → tries = 0
  bound : tries ≤ ADSC_UA_RETRIES + ADSC_READY_TIMEOUT_MS / ADSC_READY_POLL_MS
  refused : ∀ i < tries, (answers (dev.taken + i)).UnitAttention ∨ (answers (dev.taken + i)).NotReady
  patient : op cmd = 0x00 ∨ dev.ready_wait_off = true → ∀ i < tries, ¬(answers (dev.taken + i)).NotReady
  result : r.1 = answers (dev.taken + tries)
  sense : r.2.last_sense = (answers (dev.taken + tries)).last_sense
  ready : r.2.ready_wait_off = dev.ready_wait_off

section
variable {κ : Type} {answers : Nat → DriveAnswer} {op : κ → BitVec 8} {cmd : κ} {dev : Dev κ}
  {a : DriveAnswer}

/-- What the classification takes for a unit attention, and for a wait. -/
theorem adsc_ready_classify_cases (a : DriveAnswer) :
    (adsc_ready_classify a.rc a.last_sense = .RETRY_NOW → a.UnitAttention) ∧
      (adsc_ready_classify a.rc a.last_sense = .WAIT → a.NotReady) := by
  unfold adsc_ready_classify
  by_cases hok : a.rc = ACCUDISC_OK
  · rw [if_pos hok]
    exact ⟨nofun, nofun⟩
  by_cases hother : a.rc ≠ ACCUDISC_ERR_SENSE ∨ a.last_sense.valid = false
  · rw [if_neg hok, if_pos hother]
    exact ⟨nofun, nofun⟩
  obtain ⟨hsense, hvalid⟩ := not_or.1 hother
  rw [if_neg hok, if_neg hother]
  by_cases hattention : a.last_sense.key = 0x06
  · rw [if_pos hattention]
    by_cases hasc : a.last_sense.asc = 0x28 ∨ a.last_sense.asc = 0x29
    · rw [if_pos hasc]
      exact ⟨fun _ => ⟨not_not.1 hsense, Bool.not_eq_false _ ▸ hvalid, hattention, hasc⟩, nofun⟩
    · rw [if_neg hasc]
      exact ⟨nofun, nofun⟩
  by_cases hready : a.last_sense.key = 0x02
  · rw [if_neg hattention, if_pos hready]
    by_cases hmedium : a.last_sense.asc = 0x3a
    · rw [if_pos hmedium]
      exact ⟨nofun, nofun⟩
    by_cases hbecoming : a.last_sense.asc = 0x04
    · rw [if_neg hmedium, if_pos hbecoming]
      exact ⟨nofun, fun _ => ⟨not_not.1 hsense, Bool.not_eq_false _ ▸ hvalid, hready, hbecoming⟩⟩
    · rw [if_neg hmedium, if_neg hbecoming]
      exact ⟨nofun, nofun⟩
  · rw [if_neg hattention, if_neg hready]
    exact ⟨nofun, nofun⟩

theorem classify_retry_now (h : adsc_ready_classify a.rc a.last_sense = .RETRY_NOW) : a.UnitAttention :=
  (adsc_ready_classify_cases a).1 h

theorem classify_wait (h : adsc_ready_classify a.rc a.last_sense = .WAIT) : a.NotReady :=
  (adsc_ready_classify_cases a).2 h

theorem DriveAnswer.UnitAttention.not_notReady (h : a.UnitAttention) : ¬a.NotReady := by
  intro h'
  have := h.2.2.1.symm.trans h'.2.2.1
  exact absurd this (by decide)

theorem ExecLaw.first : ExecLaw answers op cmd dev (exec_once answers cmd dev) 0 where
  wire := rfl
  taken := rfl
  once := fun _ => rfl
  bound := Nat.zero_le _
  refused := fun i hi => absurd hi (Nat.not_lt_zero i)
  patient := fun _ i hi => absurd hi (Nat.not_lt_zero i)
  result := rfl
  sense := rfl
  ready := rfl

/-- One more transmission, after an answer that asks for it. -/
theorem ExecLaw.again {r : DriveAnswer × Dev κ} {tries : Nat} (h : ExecLaw answers op cmd dev r tries)
    (hop : adsc_op_repeatable (op cmd) = true)
    (hbound : tries < ADSC_UA_RETRIES + ADSC_READY_TIMEOUT_MS / ADSC_READY_POLL_MS)
    (hans : r.1.UnitAttention ∨ r.1.NotReady)
    (hwait : op cmd = 0x00 ∨ dev.ready_wait_off = true → ¬r.1.NotReady) :
    ExecLaw answers op cmd dev (exec_once answers cmd r.2) (tries + 1) where
  wire := by
    show (cmd, answers r.2.taken) :: r.2.wire = _
    rw [h.wire, h.taken, List.range_succ (n := tries + 1), List.reverse_append, List.map_append]
    rfl
  taken := by
    show r.2.taken + 1 = _
    rw [h.taken]
    rfl
  once := fun hno => by rw [hop] at hno; cases hno
  bound := hbound
  refused := fun i hi => by
    rcases Nat.lt_succ_iff_lt_or_eq.1 hi with hlt | rfl
    · exact h.refused i hlt
    · rw [← h.result]
      exact hans
  patient := fun hoff i hi => by
    rcases Nat.lt_succ_iff_lt_or_eq.1 hi with hlt | rfl
    · exact h.patient hoff i hlt
    · rw [← h.result]
      exact hwait hoff
  result := by
    show answers r.2.taken = _
    rw [h.taken]
    rfl
  sense := by
    show (answers r.2.taken).last_sense = _
    rw [h.taken]
    rfl
  ready := h.ready

/-- The loop by its counters: `ua` and the waits are the transmissions again so far, and a turn that sends
again has found the counter that it raises below its limit. -/
theorem exec_loop_law (ua waited : Nat) (a : DriveAnswer) (dev' : Dev κ) (waits : Nat)
    (hua : ua ≤ ADSC_UA_RETRIES) (hwaited : waited = waits * ADSC_READY_POLL_MS)
    (hwaits : waits ≤ ADSC_READY_TIMEOUT_MS / ADSC_READY_POLL_MS)
    (h : ExecLaw answers op cmd dev (a, dev') (ua + waits)) :
    ∃ tries, ExecLaw answers op cmd dev (exec_loop answers op cmd ua waited a dev') tries := by
  induction ua, waited, a, dev' using exec_loop.induct answers op cmd generalizing waits with
  | case1 ua waited a dev' hrep hcls hfull =>
    rw [exec_loop, if_pos hrep, hcls]
    dsimp only
    rw [if_pos hfull]
    exact ⟨_, h⟩
  | case2 ua waited a dev' hrep hcls hfull r ih =>
    rw [exec_loop, if_pos hrep, hcls]
    dsimp only
    rw [if_neg hfull]
    have hsense : dev'.last_sense = a.last_sense := h.sense.trans (congrArg _ h.result.symm)
    have hatt := classify_retry_now (hsense ▸ hcls)
    have hagain := h.again hrep.2 (by omega) (.inl hatt) fun _ => hatt.not_notReady
    rw [Nat.add_right_comm] at hagain
    exact ih waits (by omega) hwaited hwaits hagain
  | case3 ua waited a dev' hrep hcls hoff =>
    rw [exec_loop, if_pos hrep, hcls]
    dsimp only
    rw [if_pos hoff]
    exact ⟨_, h⟩
  | case4 ua waited a dev' hrep hcls hoff htime =>
    rw [exec_loop, if_pos hrep, hcls]
    dsimp only
    rw [if_neg hoff, if_pos htime]
    exact ⟨_, h⟩
  | case5 ua waited a dev' hrep hcls hoff htime r ih =>
    rw [exec_loop, if_pos hrep, hcls]
    dsimp only
    rw [if_neg hoff, if_neg htime]
    have hsense : dev'.last_sense = a.last_sense := h.sense.trans (congrArg _ h.result.symm)
    have hnot := classify_wait (hsense ▸ hcls)
    have hroom : waits < ADSC_READY_TIMEOUT_MS / ADSC_READY_POLL_MS := by
      unfold ADSC_READY_TIMEOUT_MS ADSC_READY_POLL_MS at *
      omega
    have hagain := h.again hrep.2 (by omega) (.inr hnot) fun hw =>
      absurd (hw.symm.imp_left (h.ready ▸ ·)) hoff
    exact ih (waits + 1) hua (by rw [hwaited, Nat.succ_mul]) hroom hagain
  | case6 ua waited a dev' hrep hretry hwait =>
    rw [exec_loop, if_pos hrep]
    split
    · exact absurd ‹_› hretry
    · exact absurd ‹_› hwait
    · exact ⟨_, h⟩
  | case7 ua waited a dev' hrep =>
    rw [exec_loop, if_neg hrep]
    exact ⟨_, h⟩

/-- **Sending a command**: the law holds of `adsc_dev_exec`. -/
theorem adsc_dev_exec_law : ∃ tries, ExecLaw answers op cmd dev (adsc_dev_exec answers op cmd dev) tries :=
  exec_loop_law 0 0 _ _ 0 (Nat.zero_le _) (Nat.zero_mul _).symm (Nat.zero_le _) .first

end

end Accudisc
