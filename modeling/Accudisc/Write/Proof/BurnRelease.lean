import Accudisc.Write.Proof.BurnFeed

/-!
# The session is released

From the cue sheet on the drive holds a session. Whatever way `adsc_write_run` ends after that, the last
WRITE(10) is followed by a SYNCHRONIZE CACHE and the wait for readiness is on again; a good end has a good
SYNCHRONIZE CACHE behind all sectors of the payload.
-/

namespace Accudisc

open Exit History

def BurnCmd.Cue : BurnCmd → Prop
  | .send_cue_sheet _ _ => True
  | _ => False

/-- The drive took a cue sheet. -/
def CueTaken (l : List Sent) : Prop := ∃ x ∈ l, x.cmd.Cue ∧ x.answer.rc = ACCUDISC_OK

/-- The sectors of the payload: what the tracks have through the FIFO, else all below the lead-out. -/
def payload_sectors (toc : WriteToc) (opts : BurnOpts) : Nat :=
  if opts.fifo_bytes ≠ 0 then totalSectors toc.segs else toc.leadout_lba

/-- The drive took the payload, sector after sector from LBA 0. -/
def PayloadTaken (toc : WriteToc) (opts : BurnOpts) (l : List Sent) : Prop :=
  ∃ l₀, Wrote (fun _ block_bytes _ => block_bytes = SECTOR) l₀ 0 (payload_sectors toc opts) l

/-- A SYNCHRONIZE CACHE was good where `T` held, and no WRITE(10) came after it. -/
def Synced (T : List Sent → Prop) (l : List Sent) : Prop :=
  Since (fun x older => x.cmd = .sync_cache ∧ x.answer.rc = ACCUDISC_OK ∧ T older) (fun y =>
    ¬y.cmd.Writes) l

/-- How a burn is left: with an error, and with the session open when the drive took the cue sheet. -/
def LeftOpen (e : Option Int) (s : Burn) : Prop :=
  e ≠ some ACCUDISC_OK ∧ (CueTaken s.log → s.session_open = true)

section
variable {R : Sent → List Sent → Prop} {T : List Sent → Prop} {x : Sent} {l : List Sent}

theorem cueTaken_cons (hx : x.cmd.Cue → x.answer.rc ≠ ACCUDISC_OK) : CueTaken (x :: l) → CueTaken l := by
  rintro ⟨y, hy, hcue, hok⟩
  rcases List.mem_cons.1 hy with rfl | hy
  · exact absurd hok (hx hcue)
  · exact ⟨y, hy, hcue, hok⟩

theorem since_unwritten (hx : ¬x.cmd.Writes) (h : Since R (fun y => ¬y.cmd.Writes) l) :
    Since R (fun y => ¬y.cmd.Writes) (x :: l) := by
  obtain ⟨newer, y, older, rfl, hy, hall⟩ := h
  exact ⟨x :: newer, y, older, rfl, hy, List.forall_mem_cons.2 ⟨hx, hall⟩⟩

end

/-! ## The turns of the payload loop -/

/-- How far the payload is at turn `k`. -/
def Turned (env : BurnEnv) (toc : WriteToc) (opts : BurnOpts) (k d : Nat) (lba : Int) : Prop :=
  if opts.fifo_bytes ≠ 0 then (∀ j < k, 0 < (env.pops j).got) ∧ lba = env.poppedSectors k
  else lba = d ∧ d ≤ toc.leadout_lba

section
variable {env : BurnEnv} {toc : WriteToc} {opts : BurnOpts} {burnproof : Bool} {k d n : Nat} {lba : Int}
  {src : Mem}

theorem Turned.start : Turned env toc opts 0 0 0 := by
  unfold Turned
  split
  · exact ⟨fun j hj => absurd hj (Nat.not_lt_zero j), rfl⟩
  · exact ⟨rfl, Nat.zero_le _⟩

/-- At the end of the stream the payload is complete. -/
theorem Turned.last (hpop : opts.fifo_bytes ≠ 0 → env.Popped toc opts) (h : Turned env toc opts k d lba)
    (hc : next_chunk env toc opts burnproof k d = .ok none) : lba = payload_sectors toc opts := by
  unfold Turned at h
  unfold next_chunk at hc
  unfold payload_sectors
  by_cases hf : opts.fifo_bytes ≠ 0
  · rw [if_pos hf] at h hc ⊢
    dsimp only at hc
    split at hc
    · cases hc
    split at hc
    · rw [h.2, (hpop hf).sectors h.1 ‹_›]
    · split at hc <;> cases hc
  · rw [if_neg hf] at h hc ⊢
    split at hc
    · rw [h.1]
      omega
    · dsimp only at hc
      split at hc <;> cases hc

theorem Turned.next (hlead : toc.leadout_lba < 2 ^ 32) (h : Turned env toc opts k d lba)
    (hc : next_chunk env toc opts burnproof k d = .ok (some (n, src))) :
    Turned env toc opts (k + 1) (u32 (d + n)) (lba + n) := by
  unfold Turned at h ⊢
  unfold next_chunk at hc
  by_cases hf : opts.fifo_bytes ≠ 0
  · rw [if_pos hf] at h hc ⊢
    dsimp only at hc
    split at hc
    · cases hc
    split at hc
    · cases hc
    split at hc
    · cases hc
    have hpos : 0 < (env.pops k).got := by omega
    obtain ⟨rfl, -⟩ := Prod.mk.inj (Option.some.inj (Except.ok.inj hc))
    refine ⟨fun j hj => ?_, ?_⟩
    · rcases Nat.lt_succ_iff_lt_or_eq.1 hj with hj | rfl
      · exact h.1 j hj
      · exact hpos
    · rw [h.2, poppedSectors_succ, Nat.cast_add]
  · rw [if_neg hf] at h hc ⊢
    split at hc
    · cases hc
    dsimp only at hc
    split at hc
    · obtain ⟨rfl, -⟩ := Prod.mk.inj (Option.some.inj (Except.ok.inj hc))
      have hle := find_track_le toc.segs 0 d (min (toc.leadout_lba - d) CHUNK)
      have hsum : u32 (d + (find_track toc.segs 0 d (min (toc.leadout_lba - d) CHUNK)).n) =
          d + (find_track toc.segs 0 d (min (toc.leadout_lba - d) CHUNK)).n := Nat.mod_eq_of_lt (by omega)
      rw [hsum, h.1, Nat.cast_add]
      exact ⟨rfl, by omega⟩
    · cases hc

/-- **A burn whose payload loop ends has written the payload.** -/
theorem burn_write_tri {di : DiscInfo} {fuel : Nat} (hlead : toc.leadout_lba < 2 ^ 32)
    (hpop : opts.fifo_bytes ≠ 0 → env.Popped toc opts) :
    Tri (fun _ => True) (burn_write env toc opts burnproof di fuel) (fun _ s => PayloadTaken toc opts s.log)
      (fun _ _ => True) := by
  unfold burn_write
  refine .bind Tri.any fun _ => .bind Tri.any fun _ => .bind Tri.any fun _ => .bind Tri.any fun _ =>
    .bind Tri.any fun _ => fun s _ => ?_
  have h : Tri (fun t => WroteAll (fun _ block_bytes _ => block_bytes = SECTOR) s.log 0 0 t.log)
      (payload env toc opts burnproof fuel 0 0 0)
      (fun _ t => ∃ b, b = (payload_sectors toc opts : Int) ∧
        WroteAll (fun _ block_bytes _ => block_bytes = SECTOR) s.log 0 b t.log)
      (fun _ _ => True) :=
    payload_tri (fun k d lba hJ hc => Turned.last hpop hJ hc)
      (fun k d lba n src hJ hc _ => ⟨fun _ _ => rfl, hJ.next hlead hc⟩) fuel 0 0 0 Turned.start
  refine h.weaken (fun _ => id) (fun _ t ht => ?_) (fun _ _ => id) s WroteAll.init
  obtain ⟨b, rfl, hw⟩ := ht
  exact ⟨s.log, hw.wrote⟩

end

/-! ## The way through the burn -/

section
variable {α : Type} {C : BurnCmd → Prop} {m : BurnM α} {V : α → Prop} {answers : Nat → DriveAnswer}
  {env : BurnEnv} {toc : WriteToc} {opts : BurnOpts}

/-- The commands of a part leave the session as it is. -/
theorem Sends.session {I : List Sent → Prop} (h : Sends answers C m V) (o : Bool)
    (hI : ∀ x l, C x.cmd → I l → I (x :: l)) :
    Tri (fun s => s.session_open = o ∧ I s.log) m (fun a s => V a ∧ s.session_open = o ∧ I s.log)
      (fun e s => e ≠ some ACCUDISC_OK ∧ s.session_open = o ∧ I s.log) := by
  rintro s ⟨ho, hs⟩
  have := h s s .refl
  rcases hm : out m s with ⟨r, t⟩
  rw [hm] at this
  cases r with
  | ok a => exact ⟨this.1, this.2.session.trans ho, this.2.log.inv hI hs⟩
  | error e => exact ⟨this.1, this.2.session.trans ho, this.2.log.inv hI hs⟩

theorem exec_from {P : Burn → Prop} {cmd : BurnCmd} {E : Option Int → Burn → Prop} :
    Tri P (exec answers cmd)
      (fun a t => ∃ s, P s ∧ t.session_open = s.session_open ∧ t.log = ⟨cmd, a⟩ :: s.log) E :=
  fun s hs => ⟨s, hs, rfl, rfl⟩

/-- A part before the cue sheet. -/
theorem Sends.before (h : Sends answers C m V) (hC : ∀ c, C c → ¬c.Cue) :
    Tri (fun s => s.session_open = false ∧ ¬CueTaken s.log) m
      (fun _ s => s.session_open = false ∧ ¬CueTaken s.log) LeftOpen :=
  (h.session (I := fun l => ¬CueTaken l) false
      fun _ _ hx hl ht => hl (cueTaken_cons (fun hc => absurd hc (hC _ hx)) ht)).weaken
    (fun _ => id) (fun _ _ hs => hs.2) fun _ _ hs => ⟨hs.1, fun ht => absurd ht hs.2.2⟩

theorem send_cue_tri {di : DiscInfo} :
    Tri (fun s => s.session_open = false ∧ ¬CueTaken s.log) (send_cue env toc di) (fun _ _ =>
      True) LeftOpen := by
  unfold send_cue
  refine .bind (Q := fun _ s => s.session_open = false ∧ ¬CueTaken s.log) ?_ fun entries => ?_
  · cases hb : adsc_cuesheet_build toc di with
    | ok entries => exact .pure fun _ => id
    | error rc =>
      exact .leave fun s hs =>
        ⟨fun he => cuesheet_coded rc hb (Option.some.inj he), fun ht => absurd ht hs.2⟩
  refine .bind exec_from fun a => .ite (fun _ => .pure fun _ _ => trivial) fun hno => .leave ?_
  rintro t ⟨s, hs, -, hlog⟩
  refine ⟨fun he => hno (Option.some.inj he), fun ht => ?_⟩
  rw [hlog] at ht
  exact absurd (cueTaken_cons (fun _ => hno) ht) hs.2

theorem sync_cache_tri {T : List Sent → Prop} :
    Tri (fun s => s.session_open = true ∧ T s.log) (sync_cache env) (fun _ s =>
      Synced T s.log) LeftOpen := by
  unfold sync_cache
  refine .bind exec_from fun a => .ite (fun hok => .pure ?_) fun hno => .leave ?_
  · rintro t ⟨s, hs, -, hlog⟩
    rw [hlog]
    exact ⟨[], _, _, rfl, ⟨rfl, hok, hs.2⟩, nofun⟩
  · rintro t ⟨s, hs, ho, -⟩
    exact ⟨fun he => hno (Option.some.inj he), fun _ => ho.trans hs.1⟩

/-- The length of the lead-in, from what READ DISC INFORMATION says. -/
def disc_leadin_len (data : Mem) : Nat :=
  if 20 ≤ disc_info_len data then adsc_leadin_len_from_msf (data 17) (data 18) (data 19) else 4500

/-- READ DISC INFORMATION is one command, and what it returns is of its answer. -/
theorem disc_info_tri {l : List Sent} {E : Option Int → Burn → Prop} :
    Tri (fun s => s.log = l) (adsc_write_read_disc_info answers)
      (fun r s => ∃ a, s.log = ⟨.read_disc_info, a⟩ :: l ∧ ∀ di, r = .ok di →
        a.rc = ACCUDISC_OK ∧ 7 ≤ disc_info_len a.data ∧ di.status = disc_status a.data ∧
          di.leadin_len = disc_leadin_len a.data) E := by
  unfold adsc_write_read_disc_info
  refine .bind exec_tri fun a => .ite (fun _ => .pure fun s hs => ⟨a, hs, nofun⟩) fun hok => ?_
  refine .ite (fun _ => .pure fun s hs => ⟨a, hs, nofun⟩) fun hlen => ?_
  have hrc : a.rc = ACCUDISC_OK := Decidable.not_not.1 hok
  refine .ite (fun hfull => .pure fun s hs => ⟨a, hs, ?_⟩) fun hfull => .pure fun s hs => ⟨a, hs, ?_⟩
  · rintro di ⟨⟩
    exact ⟨hrc, by omega, rfl, (if_pos hfull).symm⟩
  · rintro di ⟨⟩
    exact ⟨hrc, by omega, rfl, (if_neg hfull).symm⟩

/-- The trace ends nothing. -/
theorem trace_tri {I : List Sent → Prop} {E : Option Int → Burn → Prop}
    (hI : ∀ x l, x.cmd = .read_disc_info → I l → I (x :: l)) :
    Tri (fun s => I s.log) (trace_disc_info env) (fun _ s => I s.log) E := by
  unfold trace_disc_info
  refine .ite (fun _ => .bind (Q := fun _ s => I s.log) (fun s hs => ?_) fun _ => .pure fun _ => id)
    fun _ => .pure fun _ => id
  refine disc_info_tri.weaken (fun _ => id) (fun r t ht => ?_) (fun _ _ => id) s rfl
  obtain ⟨a, hlog, -⟩ := ht
  rw [hlog]
  exact hI _ _ rfl hs

/-- **The body of a burn**: it returns behind a good SYNCHRONIZE CACHE, or leaves the session open. -/
theorem burn_body_tri {T : List Sent → Prop} {fuel : Nat}
    (hwrite : ∀ burnproof di, Tri (fun _ => True) (burn_write env toc opts burnproof di fuel)
      (fun _ s => T s.log) (fun _ _ => True)) :
    Tri (fun s => s.session_open = false ∧ ¬CueTaken s.log) (burn_body env toc opts fuel)
      (fun _ s => Synced T s.log) LeftOpen := by
  unfold burn_body
  refine .bind (sends_burn_checks.before ?_) fun ⟨sent, burnproof, di⟩ => ?_
  · intro c hc
    cases c <;> first | exact id | exact hc.elim
  refine .bind ((sends_burn_calibrate (C := fun c => ¬c.Cue) id fun _ => id).before fun _ => id) fun _ => ?_
  refine .bind send_cue_tri fun _ => ?_
  refine .bind (Q := fun _ s => s.session_open = true) (.update fun _ _ => rfl) fun _ => ?_
  refine .bind (Q := fun _ s => s.session_open = true ∧ T s.log) ?_ fun _ => ?_
  · have hsends : Sends env.answers (fun _ => True) (burn_write env toc opts burnproof di fuel) fun _ =>
      True :=
      sends_burn_write (fun _ _ _ _ => trivial) trivial
    have hsession := hsends.session (I := fun _ => True) true fun _ _ _ _ => trivial
    refine (hsession.and (hwrite burnproof di)).weaken (fun s hs => ⟨⟨hs, trivial⟩, trivial⟩)
      (fun _ _ hs => ⟨hs.1.2.1, hs.2⟩) fun _ _ hs => ⟨hs.1.1, fun _ => hs.1.2.1⟩
  refine .bind sync_cache_tri fun _ => .bind (Q := fun _ s => Synced T s.log) (.update fun _ => id) fun _ =>
    ?_
  exact trace_tri fun x l hx hl => since_unwritten (by rw [hx]; exact id) hl

end

/-! ## The way out -/

section
variable {env : BurnEnv} {toc : WriteToc} {opts : BurnOpts} {fuel : Nat} {rc : Int} {s t : Burn}

/-- The way out adds a SYNCHRONIZE CACHE, when the session is still open. -/
theorem burn_done_log (env : BurnEnv) (rc : Int) (s : Burn) :
    (burn_done env rc s).2.log = s.log ∧ s.session_open = false ∨
    (∃ a, (burn_done env rc s).2.log = ⟨.sync_cache, a⟩ :: s.log) ∧ s.session_open = true := by
  unfold burn_done abort_session wait_ready_again
  cases ho : s.session_open with
  | false => exact .inl ⟨by simp, rfl⟩
  | true => exact .inr ⟨⟨_, by simp; rfl⟩, rfl⟩

theorem burn_done_ready : (burn_done env rc s).2.dev.ready_wait_off = false := by
  unfold burn_done abort_session
  dsimp only
  split
  · rw [send_ready]
    rfl
  · rfl

/-- A way out with the session open, or from where the drive took no cue sheet. -/
theorem LeftOpen.released (h : LeftOpen (some rc) t) (htaken : CueTaken (burn_done env rc t).2.log) :
    Since (fun x _ => x.cmd = .sync_cache) (fun y => ¬y.cmd.Writes) (burn_done env rc t).2.log := by
  rcases burn_done_log env rc t with ⟨hlog, hclosed⟩ | ⟨⟨a, hlog⟩, -⟩
  · rw [hlog] at htaken
    rw [h.2 htaken] at hclosed
    cases hclosed
  · rw [hlog]
    exact ⟨[], _, _, rfl, rfl, nofun⟩

theorem Synced.done {T : List Sent → Prop} (h : Synced T t.log) : Synced T (burn_done env rc t).2.log := by
  rcases burn_done_log env rc t with ⟨hlog, -⟩ | ⟨⟨a, hlog⟩, -⟩
  · rw [hlog]
    exact h
  · rw [hlog]
    exact since_unwritten id h

/-- How a run ends, by how its body did. -/
theorem run_ends (h : adsc_write_run env toc opts fuel = (some rc, s)) :
    (∃ t, out (burn_body env toc opts fuel) {} = (.ok (), t) ∧ s = (burn_done env ACCUDISC_OK t).2) ∨
    ∃ rc' t, out (burn_body env toc opts fuel) {} = (.error (some rc'), t) ∧ s = (burn_done env rc' t).2 ∧
      (rc' ≠ ACCUDISC_OK → rc = rc') := by
  unfold adsc_write_run at h
  rcases hm : out (burn_body env toc opts fuel) {} with ⟨(_ | rc') | ⟨⟩, t⟩
  · rw [hm] at h
    cases h
  · rw [hm] at h
    obtain ⟨hrc, hs⟩ := Prod.mk.inj h
    refine .inr ⟨rc', t, rfl, hs.symm, fun hno => ?_⟩
    rw [← Option.some.inj hrc]
    show (burn_done env rc' t).1 = rc'
    unfold burn_done
    exact if_neg fun hf => hno hf.2
  · rw [hm] at h
    exact .inl ⟨t, rfl, (Prod.mk.inj h).2.symm⟩

/-- **The session is released**: whatever way a burn ends of which the drive took the cue sheet, a
SYNCHRONIZE CACHE was sent and no WRITE(10) after it; readiness is waited for again; and a good end has a
good SYNCHRONIZE CACHE, sent when the drive had taken the whole payload. -/
theorem adsc_write_run_releases (h : adsc_write_run env toc opts fuel = (some rc, s)) :
    (CueTaken s.log → Since (fun x _ => x.cmd = .sync_cache) (fun y => ¬y.cmd.Writes) s.log) ∧
    s.dev.ready_wait_off = false ∧
    (rc = ACCUDISC_OK → toc.leadout_lba < 2 ^ 32 → (opts.fifo_bytes ≠ 0 → env.Popped toc opts) →
      Synced (PayloadTaken toc opts) s.log) := by
  have hstart : ({} : Burn).session_open = false ∧ ¬CueTaken ({} : Burn).log :=
    ⟨rfl, fun ⟨x, hx, _⟩ => absurd hx List.not_mem_nil⟩
  have hany : Tri (fun s => s.session_open = false ∧ ¬CueTaken s.log) (burn_body env toc opts fuel)
      (fun _ s => Synced (fun _ => True) s.log) LeftOpen := burn_body_tri fun _ _ => Tri.any
  rcases run_ends h with ⟨t, hm, rfl⟩ | ⟨rc', t, hm, rfl, hrc⟩
  · refine ⟨fun _ => ?_, burn_done_ready, fun _ hlead hpop => ?_⟩
    · exact (hany.of_ok hstart hm).done.mono (fun _ _ _ hx => hx.1) fun _ => id
    · exact ((burn_body_tri fun _ _ => burn_write_tri hlead hpop).of_ok hstart hm).done
  · have hleft := hany.of_error hstart hm
    have hno : rc' ≠ ACCUDISC_OK := fun he => hleft.1 (congrArg some he)
    exact ⟨fun ht => hleft.released ht, burn_done_ready, fun hok => absurd ((hrc hno).symm.trans hok) hno⟩

end

/-! ## A burn that is released -/

/-- A drive that answers everything with one answer: page 05, and a blank disc. -/
def live_drive : Nat → DriveAnswer := fun _ =>
  ⟨ACCUDISC_OK, fun _ => 0, 0, fun i => [0, 22, 0, 0, 0, 0, 0, 0, 0x05, 14, 0x02].getD i 0⟩

def live_env : BurnEnv := { willing_env with answers := live_drive }

def live_toc : WriteToc :=
  ⟨[], 50, [⟨true, false, false, [], 0, 0, 20, 0⟩, ⟨true, false, false, [], 20, 0, 30, 20 * SECTOR⟩], none⟩

def live_opts : BurnOpts := ⟨false, false, 0, .OFF, 0⟩

theorem cue_of_op {c : BurnCmd} (h : c.op = 0x5d) : c.Cue := by
  cases c <;> first | exact trivial | simp [BurnCmd.op] at h

theorem ended_of_any {r : Option Int × Burn} (hcode : r.1 = some rc)
    (hcue : r.2.log.any (fun x => decide (x.cmd.op = 0x5d ∧ x.answer.rc = ACCUDISC_OK)) = true) :
    ∃ s, r = (some rc, s) ∧ CueTaken s.log := by
  obtain ⟨x, hx, hop⟩ := List.any_eq_true.1 hcue
  rw [decide_eq_true_eq] at hop
  exact ⟨r.2, Prod.ext hcode rfl, x, hx, cue_of_op hop.1, hop.2⟩

/-- A live burn of two tracks, in three chunks. -/
theorem live_run : ∃ s, adsc_write_run live_env live_toc live_opts 5 = (some ACCUDISC_OK, s) ∧
    CueTaken s.log :=
  ended_of_any (by decide +kernel) (by decide +kernel)

theorem adsc_write_run_releases_two :
    ∃ s, adsc_write_run live_env live_toc live_opts 5 = (some ACCUDISC_OK, s) ∧
      Since (fun x _ => x.cmd = .sync_cache) (fun y => ¬y.cmd.Writes) s.log ∧
      Synced (PayloadTaken live_toc live_opts) s.log := by
  obtain ⟨s, hrun, htaken⟩ := live_run
  obtain ⟨hrel, -, hpay⟩ := adsc_write_run_releases hrun
  exact ⟨s, hrun, hrel htaken, hpay rfl (show live_toc.leadout_lba < 2 ^ 32 by decide) fun h =>
    absurd rfl h⟩

end Accudisc
