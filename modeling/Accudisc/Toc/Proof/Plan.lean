import Accudisc.Toc.Plan
import Accudisc.Toc.Proof.Guard
import Accudisc.Toc.Proof.Range

/-!
# What a plan is

A plan that is accepted is a range of the extent that the specification names. The session number goes
through a cast to a byte, so one past 255 names the session of its low byte: `Aliased` is that case.
-/

namespace Accudisc

/-- The audio of a session, from its first audio track to its last. -/
def AudioExtent (toc : AccuToc) (session : BitVec 8) (lo hi : Nat) : Prop :=
  ∃ a b, first_audio toc session = some a ∧ last_audio toc session = some b ∧ lo = a.lba - a.pregap ∧
    hi = b.lba + b.sectors

/-- Neither a session nor a bound is named. -/
def AccuRangeSpec.Unnamed (spec : AccuRangeSpec) : Prop := spec.session < 0 ∧
    spec.start < 0 ∧ spec.count < 0

/-- The extent that a specification names: tracks, else a session, else the only session with audio where
nothing is named and there is a table, else the disc. -/
def SpecExtent (toc : AccuToc) (spec : AccuRangeSpec) (lo hi : Nat) : Prop :=
  (0 < spec.first_track → ∃ a ∈ toc.tracks, ∃ b ∈ toc.tracks, (a.number.toNat : Int) = spec.first_track ∧
    (b.number.toNat : Int) = spec.last_track ∧ lo = a.lba - a.pregap ∧ hi = b.lba + b.sectors) ∧
  (spec.first_track ≤ 0 → 0 < spec.session → ∃ s ∈ toc.sessions, (s.number.toNat : Int) = spec.session ∧
    AudioExtent toc s.number lo hi) ∧
  (spec.first_track ≤ 0 → spec.Unnamed → toc.sessions ≠ [] → ∃ s ∈ toc.sessions, s.audio_tracks ≠ 0 ∧
    (∀ s' ∈ toc.sessions, s'.audio_tracks ≠ 0 → s' = s) ∧ AudioExtent toc s.number lo hi) ∧
  (spec.first_track ≤ 0 → spec.session ≤ 0 → ¬(spec.Unnamed ∧ toc.sessions ≠ []) → lo = 0 ∧
    hi = toc.leadout_lba)

/-- What an accepted plan is to be. -/
structure PlanOk (toc : AccuToc) (spec : AccuRangeSpec) (out : AccuRangePlan) : Prop where
  count : 1 ≤ out.count
  fits : out.lba + out.count ≤ 2 ^ 32
  resolved : out.resolved_count = out.count
  guard : spec.force = false →
    ∃ fuel r, accudisc_check_audio_range fuel toc out.lba out.count = some (ACCUDISC_OK, r)
  start : spec.start ≠ -1 → (out.lba : Int) = spec.start
  given : spec.count ≠ -1 → (out.count : Int) = spec.count
  extent : ∃ lo hi, SpecExtent toc spec lo hi ∧ (spec.start = -1 → out.lba = lo) ∧
    (spec.count = -1 → out.lba + out.count = hi)

/-- Every plan accepted for the specification is what it is to be. -/
def PlanRight (toc : AccuToc) (abi : Int) (spec : AccuRangeSpec) : Prop :=
  ∀ out, accudisc_plan_read_range toc abi spec = some (ACCUDISC_OK, out) → PlanOk toc spec out

/-- A span that is neither empty nor too long, and that the guard passes. -/
def Plannable (toc : AccuToc) (force : Bool) (sp : PlanSpan) : Prop :=
  0 < sp.count ∧ sp.start ≤ 0xffffffff ∧ sp.count ≤ 0xffffffff ∧ sp.start + sp.count ≤ 2 ^ 32 ∧
    (force = false → ∃ r, accudisc_check_audio_range
      (sp.count.toNat + 1) toc sp.start.toNat sp.count.toNat =
      some (ACCUDISC_OK, r))

/-- No tracks are named, the session number is past a byte, and its low byte is the number of a session
whose audio can be planned. -/
def Aliased (toc : AccuToc) (abi : Int) (spec : AccuRangeSpec) : Prop :=
  abi = ACCUDISC_OK ∧ -1 ≤ spec.start ∧ -1 ≤ spec.count ∧ spec.first_track ≤ 0 ∧ 255 < spec.session ∧
    ∃ lba count, accudisc_toc_session_audio_range toc (uint8 spec.session) = .ok (lba, count) ∧
      Plannable toc spec.force (plan_span spec lba count (uint8 spec.session))

section
variable {toc : AccuToc} {abi : Int} {spec : AccuRangeSpec} {sp : PlanSpan}
  {out : AccuRangePlan} {lo hi : Nat}

theorem uint8_toNat {n : Int} (h : 0 ≤ n) (h' : n ≤ 255) : ((uint8 n).toNat : Int) = n := by
  unfold uint8
  rw [BitVec.toNat_ofInt]
  omega

theorem uint8_nat (b : BitVec 8) : uint8 (b.toNat : Int) = b := by
  apply BitVec.eq_of_toNat_eq
  have := uint8_toNat (n := (b.toNat : Int)) (by omega) (by have := b.isLt; omega)
  omega

/-! ## The narrowing and the guard -/

/-- An accepted span. -/
theorem plan_finish_ok (h : plan_finish toc spec.force sp = some (ACCUDISC_OK, out)) :
    Plannable toc spec.force sp ∧ out.lba = sp.start.toNat ∧ out.count = sp.count.toNat ∧
      out.resolved_count = sp.count := by
  unfold plan_finish at h
  simp only [] at h
  split at h
  · cases h
  split at h
  · cases h
  rename_i hpos hfit
  cases hf : spec.force with
  | true =>
    rw [hf, if_pos rfl] at h
    cases h
    exact ⟨⟨by omega, by omega, by omega, by omega, fun hno => by cases hno⟩, rfl, rfl, rfl⟩
  | false =>
    rw [hf, if_neg (by decide)] at h
    obtain ⟨r, hr, he⟩ := Option.map_eq_some_iff.1 h
    split at he
    · cases he
    · rename_i hok
      rw [not_not] at hok
      obtain ⟨rc, chk⟩ := r
      cases he
      cases hok
      exact ⟨⟨by omega, by omega, by omega, by omega, fun _ => ⟨chk, hr⟩⟩, rfl, rfl, rfl⟩

theorem plan_finish_of_plannable {force : Bool} (h : Plannable toc force sp) :
    ∃ out, plan_finish toc force sp = some (ACCUDISC_OK, out) := by
  obtain ⟨hpos, hs, hc, hfit, hguard⟩ := h
  unfold plan_finish
  simp only []
  rw [if_neg (by omega), if_neg (by omega)]
  cases force with
  | true => exact ⟨_, if_pos rfl⟩
  | false =>
    obtain ⟨r, hr⟩ := hguard rfl
    rw [if_neg (by decide), hr]
    exact ⟨_, rfl⟩

/-- The plan always answers. -/
theorem plan_finish_answers (htoc : toc.Produced) (force : Bool) (sp : PlanSpan) :
    ∃ r, plan_finish toc force sp = some r := by
  unfold plan_finish
  simp only []
  split
  · exact ⟨_, rfl⟩
  split
  · exact ⟨_, rfl⟩
  split
  · exact ⟨_, rfl⟩
  · obtain ⟨-, -, r, hr, -⟩ :=
      @check_audio_range_rule toc htoc sp.start.toNat sp.count.toNat _ (Nat.lt_succ_self _)
    exact ⟨_, by rw [hr]; rfl⟩

/-! ## The span -/

/-- What a span resolved from an extent gives: the bounds left open are those of the extent. -/
theorem plan_span_ok {n : Nat} {session : BitVec 8} (hstart : -1 ≤ spec.start) (hcount : -1 ≤ spec.count)
    (hend : ∀ start : Nat, 0 < (lo : Int) + n - start → (lo : Int) + n ≤ 2 ^ 32 → lo + n = hi)
    (hext : SpecExtent toc spec lo hi)
    (h : plan_finish toc spec.force (plan_span spec lo n session) = some (ACCUDISC_OK, out)) :
    PlanOk toc spec out := by
  obtain ⟨⟨hpos, hs, hc, hfit, hguard⟩, hlba, hcnt, hres⟩ := plan_finish_ok h
  have hnonneg : 0 ≤ (plan_span spec lo n session).start := by
    unfold plan_span
    simp only []
    split
    · assumption
    · omega
  have hlba' : (out.lba : Int) = (plan_span spec lo n session).start := by omega
  have hcnt' : (out.count : Int) = (plan_span spec lo n session).count := by omega
  refine ⟨by omega, by omega, by omega, fun hf => ?_, fun hs => ?_, fun hc => ?_, lo, hi,
    hext, fun hs => ?_,
    fun hc => ?_⟩
  · obtain ⟨r, hr⟩ := hguard hf
    rw [← hlba, ← hcnt] at hr
    exact ⟨_, r, hr⟩
  · rw [hlba']
    exact if_pos (by omega)
  · rw [hcnt']
    exact if_neg (by omega)
  · have : (plan_span spec lo n session).start = lo := if_neg (by omega)
    omega
  · have hcount : (plan_span spec lo n session).count = (lo : Int) + n -
      (plan_span spec lo n session).start :=
      if_pos (by omega)
    have := hend out.lba (by omega) (by omega)
    omega

theorem plan_tracks_ok (hsane : toc.Sane) (hstart : -1 ≤ spec.start) (hcount : -1 ≤ spec.count)
    (hfirst : 0 < spec.first_track) (hsp : plan_tracks toc spec = .ok sp)
    (h : plan_finish toc spec.force sp = some (ACCUDISC_OK, out)) : PlanOk toc spec out := by
  unfold plan_tracks at hsp
  rw [check_eq_ok] at hsp
  obtain ⟨hin, hsp⟩ := hsp
  cases hr : accudisc_toc_track_range toc (uint8 spec.first_track) (uint8 spec.last_track) with
  | error rc =>
    rw [hr] at hsp
    simp only [] at hsp
    rw [check_eq_ok, check_eq_ok] at hsp
    cases hsp.2.2
  | ok r =>
    obtain ⟨a, b, ha, hb, hlo, hpos, hlt, hstop⟩ := track_range_spec hsane hr
    obtain ⟨lba, n⟩ := r
    rw [hr] at hsp
    cases hsp
    obtain ⟨ham, han⟩ := track_numbered_spec ha
    obtain ⟨hbm, hbn⟩ := track_numbered_spec hb
    refine plan_span_ok hstart hcount (fun _ _ _ => hstop) ⟨fun _ => ?_, fun h0 => ?_,
      fun h0 => ?_, fun h0 => ?_⟩ h
    · refine ⟨a, ham, b, hbm, ?_, ?_, hlo, rfl⟩
      · rw [han]
        exact uint8_toNat (by omega) (by omega)
      · rw [hbn]
        exact uint8_toNat (by omega) (by omega)
    all_goals omega

/-- The audio span of a session, planned. -/
theorem plan_audio_ok {s : AccuSession} {r : Nat × Nat} (hsane : toc.Sane) (hstart : -1 ≤ spec.start)
    (hcount : -1 ≤ spec.count) (hr : accudisc_toc_session_audio_range toc s.number = .ok r)
    (hext : ∀ lo hi, AudioExtent toc s.number lo hi → SpecExtent toc spec lo hi) {session : BitVec 8}
    (h : plan_finish toc spec.force (plan_span spec r.1 r.2 session) = some (ACCUDISC_OK, out)) :
    PlanOk toc spec out := by
  obtain ⟨-, -, a, b, ha, hb, hsec, rfl⟩ := audio_range_spec hsane hr
  obtain ⟨ha1, ha2, -⟩ := hsane.track a (first_audio_spec ha).1
  obtain ⟨-, -, hb3⟩ := hsane.track b (last_audio_spec hb).1
  refine plan_span_ok hstart hcount (fun start h1 h2 => ?_)
    (hext _ (b.lba + b.sectors) ⟨a, b, ha, hb, rfl, rfl⟩) h
  -- a span that wraps ends past 2 ^ 32
  unfold sub32 at h1 h2 ⊢
  rw [Nat.mod_eq_of_lt (a := a.lba - a.pregap) (by omega)] at h1 h2 ⊢
  simp only [] at h1 h2 ⊢
  omega

theorem find_session_spec {n : BitVec 8} {s : AccuSession} (h : find_session toc n = some s) :
    s ∈ toc.sessions ∧ s.number = n := by
  have hn := List.find?_some h
  simp only [decide_eq_true_eq] at hn
  exact ⟨List.mem_of_find?_eq_some h, hn⟩

/-- The default session is the only one with audio. -/
theorem default_session_spec {n : BitVec 8} (h : accudisc_toc_default_audio_session toc = .ok n) :
    ∃ s ∈ toc.sessions, s.audio_tracks ≠ 0 ∧ (∀ s' ∈ toc.sessions, s'.audio_tracks ≠ 0 → s' = s) ∧
      s.number = n := by
  unfold accudisc_toc_default_audio_session at h
  rw [check_eq_ok] at h
  obtain ⟨-, h⟩ := h
  split at h
  · cases h
  · rename_i s hs
    cases h
    have hmem : ∀ s' ∈ toc.sessions, s'.audio_tracks ≠ 0 → s' = s := by
      intro s' hs' ha
      have : s' ∈ toc.sessions.filter (·.audio_tracks ≠ 0) := List.mem_filter.2 ⟨hs', by simpa using ha⟩
      rw [hs] at this
      exact List.mem_singleton.1 this
    have hin : s ∈ toc.sessions.filter (·.audio_tracks ≠ 0) := by
      rw [hs]
      exact List.mem_singleton.2 rfl
    obtain ⟨h1, h2⟩ := List.mem_filter.1 hin
    exact ⟨s, h1, by simpa using h2, hmem, rfl⟩
  · cases h

/-- A span of the session or of the disc. -/
theorem plan_audio_cases {session : Int} (hsp : plan_audio toc spec session = .ok sp) :
    (0 < session ∧ ∃ r, accudisc_toc_session_audio_range toc (uint8 session) = .ok r ∧
      sp = plan_span spec r.1 r.2 (uint8 session)) ∨
    (session ≤ 0 ∧ sp = plan_span spec 0 toc.leadout_lba 0) := by
  unfold plan_audio at hsp
  split at hsp
  · rename_i hpos
    cases hr : accudisc_toc_session_audio_range toc (uint8 session) with
    | error rc =>
      rw [hr] at hsp
      simp only [] at hsp
      rw [check_eq_ok] at hsp
      cases hsp.2
    | ok r =>
      rw [hr] at hsp
      cases hsp
      exact .inl ⟨hpos, r, rfl, rfl⟩
  · rename_i hpos
    simp only [] at hsp
    rw [check_eq_ok] at hsp
    cases hsp.2
    exact .inr ⟨by omega, rfl⟩

/-- A session that a produced table has is found under its number. -/
theorem audio_range_session {n : BitVec 8} {r : Nat × Nat} (hsane : toc.Sane)
    (hr : accudisc_toc_session_audio_range toc n = .ok r) : ∃ s ∈ toc.sessions, s.number = n := by
  obtain ⟨hs, -⟩ := audio_range_spec hsane hr
  obtain ⟨s, hs⟩ := Option.isSome_iff_exists.1 hs
  exact ⟨s, find_session_spec hs⟩

theorem plan_resolve_ok (htab : toc.Tabled) (hsane : toc.Sane) (hstart : -1 ≤ spec.start)
    (hcount : -1 ≤ spec.count) (hbyte : spec.first_track ≤ 0 → spec.session ≤ 255)
    (hsp : plan_resolve toc spec = .ok sp) (h : plan_finish toc spec.force sp = some (ACCUDISC_OK, out)) :
    PlanOk toc spec out := by
  unfold plan_resolve at hsp
  split at hsp
  · rename_i hfirst
    exact plan_tracks_ok hsane hstart hcount hfirst hsp h
  rename_i hfirst
  have hbyte := hbyte (by omega)
  cases hses : plan_session toc spec with
  | error e =>
    rw [hses] at hsp
    cases hsp
  | ok session =>
    rw [hses] at hsp
    have hflat : ∀ lo hi : Nat, lo = 0 → hi = toc.leadout_lba → spec.session ≤ 0 →
        (spec.Unnamed → toc.sessions = []) → SpecExtent toc spec lo hi := by
      intro lo hi hlo hhi hle hun
      exact ⟨fun h0 => absurd h0 hfirst, fun _ h0 => by omega, fun _ hu hne => absurd (hun hu) hne,
        fun _ _ _ => ⟨hlo, hhi⟩⟩
    have hdisc : ∀ {sp : PlanSpan}, sp = plan_span spec 0 toc.leadout_lba 0 → spec.session ≤ 0 →
        (spec.Unnamed → toc.sessions = []) →
        plan_finish toc spec.force sp = some (ACCUDISC_OK, out) → PlanOk toc spec out := by
      intro sp hsp hle hun h
      rw [hsp] at h
      exact plan_span_ok hstart hcount (fun _ _ _ => Nat.zero_add _) (hflat 0 _ rfl rfl hle hun) h
    unfold plan_session at hses
    split at hses
    · rename_i hun
      cases hd : accudisc_toc_default_audio_session toc with
      | error rc =>
        rw [hd] at hses
        simp only [] at hses
        rw [check_eq_ok, check_eq_ok] at hses
        obtain ⟨hne1, hne2, he⟩ := hses
        cases he
        have hempty : toc.sessions = [] := by
          by_contra hne
          unfold accudisc_toc_default_audio_session at hd
          rw [if_neg hne] at hd
          split at hd
          · cases hd
            exact hne2 rfl
          · cases hd
          · cases hd
            exact hne1 rfl
        rcases plan_audio_cases hsp with ⟨hpos, -⟩ | ⟨hle, hsp⟩
        · omega
        · exact hdisc hsp hle (fun _ => hempty) h
      | ok n =>
        rw [hd] at hses
        cases hses
        obtain ⟨s, hs, haud, honly, rfl⟩ := default_session_spec hd
        have hn : 0 < s.number.toNat := by
          by_contra h0
          exact (htab s hs).1 (BitVec.eq_of_toNat_eq (by simpa using Nat.eq_zero_of_not_pos h0))
        rw [if_pos hn] at hsp
        rcases plan_audio_cases hsp with ⟨-, r, hr, rfl⟩ | ⟨hle, -⟩
        · rw [uint8_nat] at hr
          refine plan_audio_ok hsane hstart hcount hr (fun lo hi hext => ?_) h
          exact ⟨fun h0 => absurd h0 hfirst, fun _ h0 => by have := hun.1; omega,
            fun _ _ _ => ⟨s, hs, haud, honly, hext⟩, fun _ _ hno => absurd ⟨hun, List.ne_nil_of_mem hs⟩ hno⟩
        · omega
    · rename_i hun
      cases hses
      rcases plan_audio_cases hsp with ⟨hpos, r, hr, rfl⟩ | ⟨hle, hsp⟩
      · obtain ⟨s, hs, hnum⟩ := audio_range_session hsane hr
        have hexact : (s.number.toNat : Int) = spec.session := by
          rw [hnum]
          exact uint8_toNat (by omega) hbyte
        rw [← hnum] at hr
        refine plan_audio_ok hsane hstart hcount hr (fun lo hi hext => ?_) h
        exact ⟨fun h0 => absurd h0 hfirst, fun _ _ => ⟨s, hs, hexact, hext⟩,
          fun _ hu => absurd hu hun, fun _ h0 => by omega⟩
      · exact hdisc hsp hle (fun hu => absurd hu hun) h

/-- A refusal is no success. -/
theorem plan_resolve_error {r : Int × AccuRangePlan} (h : plan_resolve toc spec = .error r) :
    r.1 ≠ ACCUDISC_OK := by
  let P : Int × AccuRangePlan → Prop := fun r => r.1 ≠ ACCUDISC_OK
  show P r
  have hrefuse : ∀ out why, P (refuse out why) := by
    intro out why
    show ACCUDISC_ERR_UNSUPPORTED ≠ ACCUDISC_OK
    decide
  unfold plan_resolve at h
  split at h
  · unfold plan_tracks at h
    refine check_error h (show ACCUDISC_ERR_INVAL ≠ ACCUDISC_OK by decide) fun h => ?_
    split at h
    · refine check_error h (hrefuse _ _) fun h => check_error h (hrefuse _ _) fun h => ?_
      cases h
      exact hrefuse _ _
    · cases h
  · cases hs : plan_session toc spec with
    | error e =>
      rw [hs] at h
      cases h
      unfold plan_session at hs
      split at hs
      · split at hs
        · cases hs
        · exact check_error hs (hrefuse _ _) fun hs => check_error hs (hrefuse _ _) fun hs => by cases hs
      · cases hs
    | ok session =>
      rw [hs] at h
      simp only [Except.bind] at h
      unfold plan_audio at h
      split at h
      · split at h
        · refine check_error h (hrefuse _ _) fun h => ?_
          cases h
          exact hrefuse _ _
        · cases h
      · exact check_error h (hrefuse _ _) fun h => by cases h

/-- A session number past a byte that is planned is aliased. -/
theorem plan_resolve_aliased (hstart : -1 ≤ spec.start) (hcount : -1 ≤ spec.count)
    (hfirst : spec.first_track ≤ 0) (hses : 255 < spec.session) (hsp : plan_resolve toc spec = .ok sp)
    (h : plan_finish toc spec.force sp = some (ACCUDISC_OK, out)) : Aliased toc ACCUDISC_OK spec := by
  unfold plan_resolve plan_session at hsp
  rw [if_neg (by omega), if_neg (by omega)] at hsp
  rcases plan_audio_cases hsp with ⟨-, r, hr, rfl⟩ | ⟨hle, -⟩
  · exact ⟨rfl, hstart, hcount, hfirst, hses, r.1, r.2, hr, (plan_finish_ok h).1⟩
  · omega

end

/-- **Planning a read** always answers, and its plans are what they are to be exactly where the session
number does not pass for another. -/
theorem accudisc_plan_read_range_iff {toc : AccuToc} (h : toc.Produced) (abi : Int) (spec : AccuRangeSpec) :
    (∃ r, accudisc_plan_read_range toc abi spec = some r) ∧
      (PlanRight toc abi spec ↔ ¬Aliased toc abi spec) := by
  obtain ⟨out0, hfl⟩ := h.filled
  have hsane := hfl.sane
  refine ⟨?_, fun hr hal => ?_, fun hal out hout => ?_⟩
  · unfold accudisc_plan_read_range
    split
    · exact ⟨_, rfl⟩
    split
    · exact ⟨_, rfl⟩
    split
    · exact ⟨_, rfl⟩
    · exact plan_finish_answers h spec.force _
  · obtain ⟨rfl, hstart, hcount, hfirst, hses, lba, count, hrange, hplan⟩ := hal
    obtain ⟨out, hout⟩ := plan_finish_of_plannable hplan
    have hrun : accudisc_plan_read_range toc ACCUDISC_OK spec = some (ACCUDISC_OK, out) := by
      unfold accudisc_plan_read_range plan_resolve plan_session plan_audio
      rw [if_neg (not_not.2 rfl), if_neg (by omega), if_neg (by omega), if_neg (by omega)]
      simp only [Except.bind]
      rw [if_pos (by omega), hrange]
      exact hout
    obtain ⟨lo, hi, hext, -⟩ := (hr out hrun).extent
    obtain ⟨s, -, hnum, -⟩ := hext.2.1 hfirst (by omega)
    have := s.number.isLt
    omega
  · unfold accudisc_plan_read_range at hout
    split at hout
    · rename_i habi
      cases hout
      exact absurd rfl habi
    rename_i habi
    split at hout
    · cases hout
    rename_i hneg
    split at hout
    · rename_i r hres
      cases hout
      exact absurd rfl (plan_resolve_error hres)
    · rename_i sp hsp
      by_cases hbyte : spec.first_track ≤ 0 → spec.session ≤ 255
      · exact plan_resolve_ok h.tabled hsane (by omega) (by omega) hbyte hsp hout
      · rw [not_not] at habi
        rw [Classical.not_imp] at hbyte
        exact absurd (habi ▸ plan_resolve_aliased (by omega) (by omega) hbyte.1 (by omega) hsp hout) hal

/-- One session of one audio track. -/
def one_track_fulltoc : AccuFulltoc :=
  ⟨1, 1, [⟨1, 0x10, 0xa0, 0, 0, 0, 1, 0, 0⟩, ⟨1, 0x10, 0xa1, 0, 0, 0, 1, 0, 0⟩,
    ⟨1, 0x10, 0xa2, 0, 0, 0, 0, 30, 0⟩,
    ⟨1, 0x10, 1, 0, 0, 0, 0, 2, 0⟩]⟩

def one_track_toc : AccuToc where
  first_track := 1
  last_track := 1
  leadout_lba := 2100
  tracks := [⟨1, 0x10, 1, 0, 2100, 0⟩]
  sessions := [⟨1, 1, 1, 1, 0, 2100⟩]

theorem one_track_from : adsc_toc_from_fulltoc one_track_fulltoc = .ok (one_track_toc, ⟨1, 1, 0⟩) := by
  decide +kernel

theorem accudisc_plan_read_range_iff_one :
    (∃ r, accudisc_plan_read_range one_track_toc ACCUDISC_OK { session := 257 } = some r) ∧
      (PlanRight one_track_toc ACCUDISC_OK { session := 257 } ↔
        ¬Aliased one_track_toc ACCUDISC_OK { session := 257 }) :=
  accudisc_plan_read_range_iff (.fulltoc one_track_from) ACCUDISC_OK { session := 257 }

/-- Session 257 is planned as session 1. -/
theorem plan_session_aliased :
    ¬∀ toc : AccuToc, toc.Produced → ∀ abi spec, PlanRight toc abi spec := by
  intro h
  have hrun : accudisc_plan_read_range one_track_toc ACCUDISC_OK { session := 257 } =
      some (ACCUDISC_OK, ⟨0, 2100, 2100, 1, .OK, ⟨true, .OK, 1, 0, 0⟩⟩) := by decide +kernel
  obtain ⟨lo, hi, hext, -⟩ := (h one_track_toc (.fulltoc one_track_from) ACCUDISC_OK _ _ hrun).extent
  obtain ⟨s, -, hnum, -⟩ := hext.2.1 (by decide) (by decide)
  have := s.number.isLt
  simp only [] at hnum
  omega

end Accudisc
