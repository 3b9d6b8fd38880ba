import Accudisc.Lib.History
import Accudisc.Mmc.Proof.Device
import Accudisc.Write.Burn

/-!
# The commands of a burn

Which commands each part of a burn can send, whatever the drive answers: `Sends answers C m V` when `m`
sends commands of `C` only, returns in `V`, and never leaves with the good code.
-/

namespace Accudisc

open Exit History

/-- `t` is `s` after commands of `C`; the session and the wait for readiness are left alone. -/
inductive Burn.After (answers : Nat → DriveAnswer) (C : BurnCmd → Prop) (s : Burn) : Burn → Prop
  | refl : After answers C s s
  | send {t cmd} (h : After answers C s t) (hc : C cmd) : After answers C s (t.send answers cmd)
  | fifo {t} (h : After answers C s t) (live : Bool) : After answers C s { t with fifo_live := live }
  | cap {t} (h : After answers C s t) (live : Bool) : After answers C s { t with cap_live := live }

def Sends {α : Type} (answers : Nat → DriveAnswer) (C : BurnCmd → Prop) (m : BurnM α) (V : α → Prop) :
    Prop :=
  ∀ s₀, Tri (Burn.After answers C s₀) m (fun a s => V a ∧ Burn.After answers C s₀ s)
    (fun e s => e ≠ some ACCUDISC_OK ∧ Burn.After answers C s₀ s)

/-- A refusal has a code that is not the good one. -/
def Coded {α : Type} (r : Except Int α) : Prop := ∀ rc, r = .error rc → rc ≠ ACCUDISC_OK

theorem coded_ok {α : Type} (a : α) : Coded (Except.ok a) := fun rc h => by cases h

theorem coded_ite {α : Type} {c : Prop} [Decidable c] {rc : Int} {r : Except Int α} (h : rc ≠ ACCUDISC_OK)
    (hr : Coded r) : Coded (if c then .error rc else r) := by
  split
  · intro e he
    cases he
    exact h
  · exact hr

theorem coded_error {α : Type} {rc : Int} (h : rc ≠ ACCUDISC_OK) : Coded (Except.error rc : Except Int α) :=
  fun e he => by
    cases he
    exact h

section
variable {α β : Type} {C C' : BurnCmd → Prop} {m m' : BurnM α} {V : α → Prop} {W : β → Prop}
  {f : α → BurnM β} {answers : Nat → DriveAnswer} {cmd : BurnCmd} {s : Burn}

theorem Burn.After.trans {t u : Burn} (hst : Burn.After answers C s t) (htu : Burn.After answers C t u) :
    Burn.After answers C s u := by
  induction htu with
  | refl => exact hst
  | send _ hc ih => exact ih.send hc
  | fifo _ live ih => exact ih.fifo live
  | cap _ live ih => exact ih.cap live

theorem Burn.After.mono {t : Burn} (h : Burn.After answers C s t) (hC : ∀ c, C c → C' c) :
    Burn.After answers C' s t := by
  induction h with
  | refl => exact .refl
  | send _ hc ih => exact ih.send (hC _ hc)
  | fifo _ live ih => exact ih.fifo live
  | cap _ live ih => exact ih.cap live

theorem Burn.After.log {t : Burn} (h : Burn.After answers C s t) :
    Later (fun x => C x.cmd) s.log t.log := by
  induction h with
  | refl => exact .refl
  | send _ hc ih => exact ih.trans (.cons hc)
  | fifo _ _ ih => exact ih
  | cap _ _ ih => exact ih

theorem Burn.After.session {t : Burn} (h : Burn.After answers C s t) : t.session_open = s.session_open := by
  induction h with
  | refl => rfl
  | send _ _ ih => exact ih
  | fifo _ _ ih => exact ih
  | cap _ _ ih => exact ih

@[simp] theorem send_ready (answers : Nat → DriveAnswer) (cmd : BurnCmd) (s : Burn) :
    (s.send answers cmd).dev.ready_wait_off = s.dev.ready_wait_off :=
  (adsc_dev_exec_law.choose_spec).ready

theorem Burn.After.ready {t : Burn} (h : Burn.After answers C s t) :
    t.dev.ready_wait_off = s.dev.ready_wait_off := by
  induction h with
  | refl => rfl
  | send _ _ ih => rw [send_ready, ih]
  | fifo _ _ ih => exact ih
  | cap _ _ ih => exact ih

theorem Sends.pure {a : α} (h : V a) : Sends answers C (Pure.pure a) V :=
  fun _ => Tri.pure fun _ hs => ⟨h, hs⟩

theorem Sends.leave {e : Option Int} (h : e ≠ some ACCUDISC_OK) : Sends answers C (Exit.leave e) V :=
  fun _ => Tri.leave fun _ hs => ⟨h, hs⟩

theorem Sends.bind (h : Sends answers C m V) (hf : ∀ a, V a → Sends answers C (f a) W) :
    Sends answers C (m >>= f) W := by
  intro s₀
  refine Tri.bind (h s₀) fun a s hs => ?_
  exact hf a hs.1 s₀ s hs.2

theorem Sends.ite {c : Prop} [Decidable c] (h : Sends answers C m V) (h' : Sends answers C m' V) :
    Sends answers C (if c then m else m') V := fun s₀ => Tri.ite (fun _ => h s₀) fun _ => h' s₀

theorem Sends.exec (h : C cmd) : Sends answers C (exec answers cmd) (fun _ => True) :=
  fun _ _ hs => ⟨trivial, hs.send h⟩

theorem Sends.read {g : Burn → α} : Sends answers C (Exit.read g) (fun _ => True) :=
  fun _ => Tri.read fun _ hs => ⟨trivial, hs⟩

theorem Sends.update {g : Burn → Burn} (h : ∀ s, Burn.After answers C s (g s)) :
    Sends answers C (Exit.update g) (fun _ => True) := fun _ => Tri.update fun s hs =>
      ⟨trivial, hs.trans (h s)⟩

theorem Sends.check {r : Except Int α} (h : Coded r) : Sends answers C (check r) (fun _ => True) := by
  cases r with
  | ok a => exact .pure trivial
  | error rc => exact .leave fun he => h rc rfl (Option.some.inj he)

theorem Sends.check_rc {rc : Int} : Sends answers C (check_rc rc) (fun _ => rc = ACCUDISC_OK) := by
  unfold Accudisc.check_rc
  split
  · exact .pure ‹_›
  · exact .leave fun he => ‹¬_› (Option.some.inj he)

theorem Sends.weaken {V' : α → Prop} (h : Sends answers C m V) (hC : ∀ c, C c → C' c)
    (hV : ∀ a, V a → V' a) : Sends answers C' m V' := by
  intro s₀ s hs
  have := h s s .refl
  rcases hm : out m s with ⟨r, s'⟩
  rw [hm] at this
  cases r with
  | ok a => exact ⟨hV a this.1, hs.trans (this.2.mono hC)⟩
  | error e => exact ⟨this.1, hs.trans (this.2.mono hC)⟩

/-- From where it starts to where it ends. -/
theorem Sends.after (h : Sends answers C m V) (s : Burn) : Burn.After answers C s (out m s).2 := by
  have := h s s .refl
  rcases hm : out m s with ⟨r, s'⟩
  rw [hm] at this
  cases r with
  | ok a => exact this.2
  | error e => exact this.2

/-- **What each command preserves of the log, all of them do.** -/
theorem Sends.keeps {I : List Sent → Prop} (h : Sends answers C m V)
    (hI : ∀ x l, C x.cmd → I l → I (x :: l)) :
    Tri (fun s => I s.log) m (fun a s => V a ∧ I s.log) (fun e s => e ≠ some ACCUDISC_OK ∧ I s.log) := by
  intro s hs
  have := h s s .refl
  have hlog {t : Burn} (ht : Burn.After answers C s t) : I t.log := ht.log.inv (fun x l => hI x l) hs
  rcases hm : out m s with ⟨r, s'⟩
  rw [hm] at this
  cases r with
  | ok a => exact ⟨this.1, hlog this.2⟩
  | error e => exact ⟨this.1, hlog this.2⟩

end

/-! ## The parts of a burn -/

section
variable {C : BurnCmd → Prop} {answers : Nat → DriveAnswer}

theorem sends_mode_sense {page cap : Nat} (h : ∀ len, C (.mode_sense page len)) :
    Sends answers C (adsc_mmc_mode_sense10 answers page cap) Coded := by
  unfold adsc_mmc_mode_sense10
  refine .ite (.pure (coded_error (by decide))) ?_
  refine .bind (.exec (h 8)) fun head _ => ?_
  split
  · exact .pure (coded_error ‹_›)
  refine .bind (.exec (h _)) fun full _ => ?_
  split
  · exact .pure (coded_error ‹_›)
  exact .ite (.pure (coded_error (by decide))) (.pure (coded_ok _))

theorem sends_mode_select {buf : Mem} {len po : Nat} (h : ∀ data, C (.mode_select data len)) :
    Sends answers C (adsc_mmc_mode_select10 answers buf len po) (fun _ => True) := by
  unfold adsc_mmc_mode_select10
  exact .ite (.pure trivial) (.bind (.exec (h _)) fun a _ => .pure trivial)

theorem sends_wp_program {wp : WriteParams} (hsense : ∀ len, C (.mode_sense ADSC_MODE_WRITE_PARAMS len))
    (hselect : ∀ data len, C (.mode_select data len)) : Sends answers C (wp_program answers wp) Coded := by
  unfold wp_program
  refine .bind (sends_mode_sense hsense) fun r hr => ?_
  cases r with
  | error rc => exact .pure (coded_error (hr rc rfl))
  | ok m =>
    refine .ite (.pure (coded_error (by decide))) ?_
    refine .bind (sends_mode_select fun data => hselect data _) fun r _ => ?_
    split
    · exact .pure (coded_ok _)
    refine .ite (.pure (coded_error ‹_›)) ?_
    refine .bind (sends_mode_select fun data => hselect data _) fun r _ => ?_
    split
    · exact .pure (coded_ok _)
    · exact .pure (coded_error ‹_›)

theorem sends_check_write_params {sent : WpPage} (h : ∀ len, C (.mode_sense ADSC_MODE_WRITE_PARAMS len)) :
    Sends answers C (check_write_params answers sent) Coded := by
  unfold check_write_params adsc_write_params_check
  refine .bind (V := Coded) (.ite (.pure (coded_error (by decide))) ?_) fun r hr => ?_
  · refine .bind (sends_mode_sense h) fun r hr => ?_
    cases r with
    | error rc => exact .pure (coded_error (hr rc rfl))
    | ok m => exact .ite (.pure (coded_error (by decide))) (.pure (coded_ok _))
  · cases r with
    | error rc => exact .pure (coded_error (hr rc rfl))
    | ok fields_ok => exact .ite (.pure (coded_ok _)) (.pure (coded_error (by decide)))

section
variable {I : Burn → Prop} {E : Option Int → Burn → Prop}

theorem exec_keeps {cmd : BurnCmd} (h : ∀ s, I s → I (s.send answers cmd)) :
    Tri I (exec answers cmd) (fun _ => I) E := fun s hs => h s hs

theorem mode_sense_keeps {page cap : Nat} (h : ∀ len s, I s → I (s.send answers (.mode_sense page len))) :
    Tri I (adsc_mmc_mode_sense10 answers page cap) (fun _ => I) E := by
  unfold adsc_mmc_mode_sense10
  refine .ite (fun _ => .pure fun _ => id) fun _ => .bind (exec_keeps (h 8)) fun head => ?_
  refine .ite (fun _ => .pure fun _ => id) fun _ => .bind (exec_keeps (h _)) fun full => ?_
  refine .ite (fun _ => .pure fun _ => id) fun _ => ?_
  exact .ite (fun _ => .pure fun _ => id) fun _ => .pure fun _ => id

theorem cur_write_kbps_keeps (h : ∀ len s, I s →
    I (s.send answers (.mode_sense ADSC_MODE_CAPABILITIES len))) :
    Tri I (adsc_dev_cur_write_kbps answers) (fun _ => I) E := by
  unfold adsc_dev_cur_write_kbps
  refine .bind (mode_sense_keeps h) fun r => ?_
  cases r with
  | error rc => exact .pure fun _ => id
  | ok m =>
    refine .ite (fun _ => .pure fun _ => id) fun _ => .ite (fun _ => .pure fun _ => id) fun _ => ?_
    exact .ite (fun _ => .pure fun _ => id) fun _ => .pure fun _ => id

theorem get_speed_keeps (h : ∀ len s, I s → I (s.send answers (.mode_sense ADSC_MODE_CAPABILITIES len))) :
    Tri I (accudisc_get_speed answers) (fun _ => I) E := by
  unfold accudisc_get_speed
  refine .bind (mode_sense_keeps h) fun r => ?_
  cases r with
  | error rc => exact .pure fun _ => id
  | ok m => exact .ite (fun _ => .pure fun _ => id) fun _ => .pure fun _ => id

theorem climb_keeps {read_kbps : Nat} (h : ∀ r w s, I s → I (s.send answers (.set_cd_speed r w)))
    (climb kbps : Nat) : Tri I (climb_write_speed answers read_kbps climb kbps) (fun _ => I) E := by
  induction climb generalizing kbps with
  | zero => exact .bind (exec_keeps (h _ _)) fun a => .pure fun _ => id
  | succ climb ih =>
    exact .bind (exec_keeps (h _ _)) fun a => .ite (fun _ => ih _) fun _ => .pure fun _ => id

/-- The write speed never leaves, and keeps what its commands keep. -/
theorem write_speed_keeps {env : BurnEnv} {opts : BurnOpts}
    (hsense : ∀ len s, I s → I (s.send env.answers (.mode_sense ADSC_MODE_CAPABILITIES len)))
    (hset : ∀ r w s, I s → I (s.send env.answers (.set_cd_speed r w))) :
    Tri I (write_speed env opts) (fun _ => I) E := by
  unfold write_speed set_write_speed
  refine .ite (fun _ => .bind (Q := fun _ => I) ?_ fun _ => .pure fun _ => id)
    fun _ => .bind (cur_write_kbps_keeps hsense) fun _ => .pure fun _ => id
  refine .bind (get_speed_keeps hsense) fun r => .bind (climb_keeps hset _ _) fun rc => ?_
  exact .ite (fun _ => .pure fun _ => id) fun _ => .bind (cur_write_kbps_keeps hsense) fun _ =>
    .pure fun _ => id

end

theorem sends_write_speed {env : BurnEnv} {opts : BurnOpts}
    (hsense : ∀ len, C (.mode_sense ADSC_MODE_CAPABILITIES len)) (hset : ∀ r w, C (.set_cd_speed r w)) :
    Sends env.answers C (write_speed env opts) (fun _ => True) := fun _ =>
  (write_speed_keeps (fun len _ hs => hs.send (hsense len)) fun r w _ hs => hs.send (hset r w)).weaken
    (fun _ => id) (fun _ _ hs => ⟨trivial, hs⟩) fun _ _ => id

theorem sends_disc_info (h : C .read_disc_info) :
    Sends answers C (adsc_write_read_disc_info answers) Coded := by
  unfold adsc_write_read_disc_info
  refine .bind (.exec h) fun a _ => ?_
  split
  · exact .pure (coded_error ‹_›)
  · exact .ite (.pure (coded_error (by decide))) (.ite (.pure (coded_ok _)) (.pure (coded_ok _)))

theorem sends_write10 {lba : Int} {n block_bytes : Nat} {buf : Mem}
    (h : ∀ lba n block_bytes data, C (.write10 lba n block_bytes data)) :
    Sends answers C (adsc_mmc_write10 answers lba n block_bytes buf) (fun _ => True) := by
  unfold adsc_mmc_write10
  exact .ite (.pure trivial) (.exec (h _ _ _ _))

theorem sends_write_chunk {lba : Int} {n block_bytes : Nat} {buf : Mem}
    (h : ∀ lba n block_bytes data, C (.write10 lba n block_bytes data)) (waits : Nat) :
    Sends answers C (write_chunk answers lba n block_bytes buf waits) (fun _ => True) := by
  induction waits with
  | zero => exact .bind (sends_write10 h) fun a _ => Sends.check_rc.weaken (fun _ => id) fun _ _ => trivial
  | succ waits ih =>
    refine .bind (sends_write10 h) fun a _ => .ite ih ?_
    exact Sends.check_rc.weaken (fun _ => id) fun _ _ => trivial

theorem sends_write_gap (h : ∀ lba n block_bytes data, C (.write10 lba n block_bytes data))
    (turns : Nat) (lba : Int) (left : Nat) :
    Sends answers C (write_gap answers turns lba left) (fun _ => True) := by
  induction turns generalizing lba left with
  | zero => exact .pure trivial
  | succ turns ih => exact .ite (.pure trivial) (.bind (sends_write_chunk h _) fun _ _ => ih _ _)

theorem sends_write_leadin {blocks : Mem} {nblocks : Nat}
    (h : ∀ lba n block_bytes data, C (.write10 lba n block_bytes data)) (turns : Nat) (xfer : Mem)
    (scp : Nat) (lba : Int) (left : Nat) :
    Sends answers C (write_leadin answers blocks nblocks turns xfer scp lba left) (fun _ => True) := by
  induction turns generalizing xfer scp lba left with
  | zero => exact .pure trivial
  | succ turns ih => exact .ite (.pure trivial) (.bind (sends_write_chunk h _) fun _ _ => ih _ _ _ _)

theorem encode_rw_coded {packs : Mem} {npacks : Nat} {blk : Mem} :
    Coded (adsc_cdtext_encode_rw packs npacks blk) := by
  unfold adsc_cdtext_encode_rw
  split
  · exact coded_error (by decide)
  · exact coded_ok _

theorem sends_write_cdtext_leadin {env : BurnEnv} {cdtext : Mem} {len : Nat} {di : DiscInfo}
    (h : ∀ lba n block_bytes data, C (.write10 lba n block_bytes data)) :
    Sends env.answers C (write_cdtext_leadin env cdtext len di) (fun _ => True) := by
  unfold write_cdtext_leadin
  refine .ite (.leave (by decide)) (.ite (.leave (by decide)) ?_)
  exact .bind (.check encode_rw_coded) fun blocks _ => sends_write_leadin h _ _ _ _ _

theorem sends_poll_capacity (h : C .read_buffer_capacity) :
    Sends answers C (poll_capacity answers) (fun _ => True) := by
  unfold poll_capacity
  exact .bind (.exec h) fun a _ => .update fun s => .cap .refl _

theorem sends_buf_sample (h : C .read_buffer_capacity) :
    Sends answers C (buf_sample answers) (fun _ => True) := by
  unfold buf_sample
  exact .bind .read fun live _ => .ite (sends_poll_capacity h) (.pure trivial)

theorem sends_poll_buffer {done_sec : Nat} (h : C .read_buffer_capacity) :
    Sends answers C (poll_buffer answers done_sec) (fun _ => True) :=
      .ite (sends_buf_sample h) (.pure trivial)

theorem next_chunk_coded {env : BurnEnv} {toc : WriteToc} {opts : BurnOpts} {burnproof : Bool}
    {k done_sec : Nat} : Coded (next_chunk env toc opts burnproof k done_sec) := by
  intro rc h
  unfold next_chunk at h
  split at h
  · dsimp only at h
    split at h
    · cases h
      have : (env.pops k).got < 0 := ‹_›
      unfold ACCUDISC_OK
      omega
    · split at h
      · cases h
      · split at h
        · cases h
          decide
        · cases h
  · split at h
    · cases h
    · dsimp only at h
      split at h
      · cases h
      · cases h
        decide

theorem sends_payload {env : BurnEnv} {toc : WriteToc} {opts : BurnOpts} {burnproof : Bool}
    (hwrite : ∀ lba n block_bytes data, C (.write10 lba n block_bytes data))
      (hcap : C .read_buffer_capacity)
    (fuel k : Nat) (lba : Int) (done_sec : Nat) :
    Sends env.answers C (payload env toc opts burnproof fuel k lba done_sec) (fun _ => True) := by
  induction fuel generalizing k lba done_sec with
  | zero => exact .leave (by simp)
  | succ fuel ih =>
    unfold payload
    cases hc : next_chunk env toc opts burnproof k done_sec with
    | error rc => exact .leave fun he => next_chunk_coded rc hc (Option.some.inj he)
    | ok c =>
      rcases c with - | ⟨n, src⟩
      · exact .pure trivial
      · refine .bind (sends_poll_buffer hcap) fun _ _ => ?_
        exact .bind (sends_write_chunk hwrite _) fun _ _ => ih _ _ _

theorem sends_alloc_buffers {env : BurnEnv} : Sends env.answers C (alloc_buffers env) (fun _ => True) :=
  .ite (.leave (by decide)) (.pure trivial)

theorem sends_start_fifo {env : BurnEnv} {opts : BurnOpts} :
    Sends env.answers C (start_fifo env opts) (fun _ => True) := by
  refine .ite ?_ (.pure trivial)
  refine .bind .check_rc fun _ _ => .bind (.update fun s => .fifo .refl _) fun _ _ => ?_
  exact Sends.check_rc.weaken (fun _ => id) fun _ _ => trivial

theorem sends_burn_write {env : BurnEnv} {toc : WriteToc} {opts : BurnOpts} {burnproof : Bool}
    {di : DiscInfo} {fuel : Nat}
    (hwrite : ∀ lba n block_bytes data, C (.write10 lba n block_bytes data))
      (hcap : C .read_buffer_capacity) :
    Sends env.answers C (burn_write env toc opts burnproof di fuel) (fun _ => True) := by
  unfold burn_write
  refine .bind (V := fun _ => True) ?_ fun _ _ => ?_
  · unfold write_text
    split
    · exact sends_write_cdtext_leadin hwrite
    · exact .pure trivial
  refine .bind sends_alloc_buffers fun _ _ => .bind (sends_poll_capacity hcap) fun _ _ => ?_
  refine .bind (sends_write_gap hwrite _ _ _) fun _ _ => .bind sends_start_fifo fun _ _ => ?_
  exact sends_payload hwrite hcap _ _ _ _

theorem cuesheet_coded {toc : WriteToc} {di : DiscInfo} : Coded (adsc_cuesheet_build toc di) :=
  coded_ite (by decide) (coded_ite (by decide) (coded_ok _))

theorem sends_send_cue {env : BurnEnv} {toc : WriteToc} {di : DiscInfo}
    (h : ∀ cue len, C (.send_cue_sheet cue len)) :
      Sends env.answers C (send_cue env toc di) (fun _ => True) := by
  unfold send_cue
  refine .bind (.check cuesheet_coded) fun entries _ => .bind (.exec (h _ _)) fun a _ => ?_
  exact Sends.check_rc.weaken (fun _ => id) fun _ _ => trivial

theorem sends_sync_cache {env : BurnEnv} (h : C .sync_cache) :
    Sends env.answers C (sync_cache env) (fun _ => True) := by
  unfold sync_cache
  exact .bind (.exec h) fun a _ => Sends.check_rc.weaken (fun _ => id) fun _ _ => trivial

theorem sends_trace {env : BurnEnv} (h : C .read_disc_info) :
    Sends env.answers C (trace_disc_info env) (fun _ => True) := by
  unfold trace_disc_info
  exact .ite (.bind (sends_disc_info h) fun _ _ => .pure trivial) (.pure trivial)

theorem sends_send_opc {env : BurnEnv} (h : C .send_opc) :
    Sends env.answers C (send_opc env) (fun _ => True) := by
  unfold send_opc
  refine .bind (.exec h) fun a _ => .ite (.pure trivial) ?_
  exact Sends.check_rc.weaken (fun _ => id) fun _ _ => trivial

theorem sends_burn_calibrate {env : BurnEnv} {opts : BurnOpts} {sent : WpPage} (hopc : C .send_opc)
    (hsense : ∀ len, C (.mode_sense ADSC_MODE_WRITE_PARAMS len)) :
    Sends env.answers C (burn_calibrate env opts sent) (fun _ => True) := by
  unfold burn_calibrate
  refine .ite (.pure trivial) (.bind (sends_send_opc hopc) fun _ _ => ?_)
  exact .bind (sends_check_write_params hsense) fun held hheld => .check hheld

/-- The commands before the laser is used. -/
def BurnCmd.Dark : BurnCmd → Prop
  | .get_configuration _ | .mode_sense _ _ | .mode_select _ _ | .set_cd_speed _ _ | .read_disc_info => True
  | _ => False

theorem sends_burn_checks {env : BurnEnv} {toc : WriteToc} {opts : BurnOpts} :
    Sends env.answers BurnCmd.Dark (burn_checks env toc opts) (fun _ => True) := by
  unfold burn_checks
  refine .bind (.exec trivial) fun caps _ => ?_
  refine .bind (sends_wp_program (fun _ => trivial) fun _ _ => trivial) fun programmed hp => ?_
  refine .bind (.check hp) fun sent _ => ?_
  refine .bind (sends_write_speed (fun _ => trivial) fun _ _ => trivial) fun _ _ => ?_
  refine .bind (sends_check_write_params fun _ => trivial) fun held hheld => ?_
  refine .bind (.check hheld) fun _ _ => .bind (sends_disc_info trivial) fun info hinfo => ?_
  exact .bind (.check hinfo) fun di _ => .ite (.leave (by decide)) (.pure trivial)

/-! ## Whole runs -/

variable {env : BurnEnv} {toc : WriteToc} {opts : BurnOpts}

/-- **What every command and every flag preserves, holds after a burn**, whether it ended or not. -/
theorem adsc_write_run_keeps {I : Burn → Prop} (hsend : ∀ cmd s, I s → I (s.send env.answers cmd))
    (hflags : ∀ s s' : Burn, s'.dev.wire = s.dev.wire → s'.log = s.log → I s → I s')
      (h0 : I {}) (fuel : Nat) :
    I (adsc_write_run env toc opts fuel).2 := by
  have hafter {C : BurnCmd → Prop} {s t : Burn} (hst : Burn.After env.answers C s t) (hs : I s) : I t := by
    induction hst with
    | refl => exact hs
    | send _ _ ih => exact hsend _ _ ih
    | @fifo t _ live ih => exact hflags t _ rfl rfl ih
    | @cap t _ live ih => exact hflags t _ rfl rfl ih
  have hpart {C : BurnCmd → Prop} {α : Type} {m : BurnM α} {V : α → Prop} (h : Sends env.answers C m V) :
      Tri I m (fun _ => I) (fun _ => I) := by
    intro s hs
    have := hafter (h.after s) hs
    rcases hm : out m s with ⟨r, s'⟩
    rw [hm] at this
    cases r <;> exact this
  have hbody : Tri I (burn_body env toc opts fuel) (fun _ => I) (fun _ => I) := by
    unfold burn_body
    refine .bind (hpart sends_burn_checks) fun ⟨sent, burnproof, di⟩ => ?_
    refine .bind (hpart (sends_burn_calibrate (C := fun _ => True) trivial fun _ => trivial)) fun _ => ?_
    refine .bind (hpart (sends_send_cue (C := fun _ => True) fun _ _ => trivial)) fun _ => ?_
    refine .bind (.update (Q := fun _ => I) fun s hs => hflags s _ rfl rfl hs) fun _ => ?_
    refine .bind (hpart (sends_burn_write (C := fun _ => True) (fun _ _ _ _ => trivial) trivial)) fun _ =>
      ?_
    refine .bind (hpart (sends_sync_cache (C := fun _ => True) trivial)) fun _ => ?_
    refine .bind (.update (Q := fun _ => I) fun s hs => hflags s _ rfl rfl hs) fun _ => ?_
    exact hpart (sends_trace (C := fun _ => True) trivial)
  have hdone (ret : Int) (s : Burn) (hs : I s) : I (burn_done env ret s).2 := by
    unfold burn_done abort_session
    dsimp only
    split
    · exact hsend _ _ (hflags s _ rfl rfl hs)
    · exact hflags s _ rfl rfl hs
  have := hbody {} h0
  unfold adsc_write_run
  rcases hm : out (burn_body env toc opts fuel) {} with ⟨r, s⟩
  rw [hm] at this
  rcases r with (_ | rc) | ⟨⟩
  · exact this
  · exact hdone rc s this
  · exact hdone ACCUDISC_OK s this

end

end Accudisc
