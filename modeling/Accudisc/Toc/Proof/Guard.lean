import Accudisc.Toc.Proof.Produced
import Accudisc.Toc.Proof.Swallow

/-!
# The guard against the rule

`check_audio_range_rule`: what the guard answers is what the rule says of every sector, on the TOCs
of the parsers, exactly where `GuardRight` says; and the guard always answers.
-/

namespace Accudisc

/-! ## The guard -/

/-- A range that the guard does not refuse at once. -/
structure AccuToc.Walks (toc : AccuToc) (lba count : Nat) : Prop where
  nonempty : count ≠ 0
  trusted : toc.Trusted
  below : lba < toc.leadout_lba
  fits : count ≤ toc.leadout_lba - lba
  table : toc.NoTableRules

/-- Where the guard is right: no unknown session before a known one, no track hidden under the
pregap of another, and nothing wrong below the lead-out in a range that goes past it. -/
structure AccuToc.GuardRight (toc : AccuToc) (lba count : Nat) : Prop where
  mixes : toc.Walks lba count → toc.Apart → ¬toc.Mixes lba count
  overlap : toc.Walks lba count → ¬toc.Apart → toc.SwallowRight lba count
  beyond : toc.Trusted → lba < toc.leadout_lba → toc.leadout_lba - lba < count →
    toc.Rule lba (toc.leadout_lba - lba)

section
variable {toc : AccuToc} {lba count fuel bad : Nat}

theorem AccuToc.Trusted.unflagged (h : toc.Trusted) :
    ¬toc.anomalies &&& ACCUDISC_TOC_ANOM_UNTRUSTED_GEOMETRY ≠ 0 := not_not.2 h

/-- A refusal of a range that breaks the rule from its first sector. -/
theorem answers_refused {reason : RangeReason} {a b : BitVec 8} (hr : ∀ n, ¬toc.Rule lba n) :
    toc.Answers lba count (reject reason a b lba) := by
  refine ⟨⟨fun h => by simp [reject, ACCUDISC_ERR_UNSUPPORTED, ACCUDISC_OK] at h, fun h => absurd h (hr _)⟩,
    fun _ => ⟨le_rfl, fun h0 => ?_, hr _, fun n h1 h2 => ?_⟩⟩
  · exact Nat.lt_add_of_pos_right (Nat.pos_of_ne_zero h0)
  · simp only [reject, Nat.sub_self] at h2
    omega

/-- What the guard does with a range that it does not refuse at once. -/
theorem check_walks (h : toc.Sane) (hw : toc.Walks lba count) (fuel : Nat) :
    accudisc_check_audio_range fuel toc lba count = range_walk toc (lba + count) fuel lba 0 := by
  obtain ⟨hcount, htr, hlt, hle, hnt⟩ := hw
  have hlead := h.leadout
  have hstop : u32 (lba + count) = lba + count := Nat.mod_eq_of_lt (by omega)
  unfold accudisc_check_audio_range
  rw [if_neg hcount, if_neg htr.unflagged, if_neg, if_neg, hstop]
  · by_cases hs : toc.sessions = []
    · have hnone : toc.tracks.find? (fun t => !t.is_audio) = none :=
        List.find?_eq_none.2 fun t ht => by simp [(hnt hs).2 t ht]
      rw [if_pos hs, hnone]
    · rw [if_neg hs]
  · exact fun hc => (hnt hc.1).1 hc.2
  · rw [sub32_of_le hlt.le hlead]
    omega

theorem AccuToc.Walks.rule (h : toc.Walks lba count) {n : Nat} (h0 : 0 < n) (hn : n ≤ count)
    (hrun : toc.AudioRun lba n) : toc.Rule lba n :=
  ⟨h0, ⟨h.below, hn.trans h.fits⟩, h.trusted, h.table, hrun⟩

/-- The guard's answer on a walk is right when the walk follows the rule. -/
theorem WalkSays.answers {r : Int × AccuRangeCheck} (hwalks : toc.Walks lba count)
    (hw : WalkSays toc lba (lba + count) r) : toc.Answers lba count r := by
  have hcount := hwalks.nonempty
  have hrule : ∀ n, 0 < n → n ≤ count → toc.AudioRun lba n → toc.Rule lba n := fun n => hwalks.rule
  rcases hw with ⟨hok, s, hs⟩ | ⟨hrc, hge, hbad, ⟨s, hs⟩, hno⟩
  · exact ⟨⟨fun _ => hrule _ (Nat.pos_of_ne_zero hcount) le_rfl ⟨s, hs⟩, fun _ => hok⟩,
      fun h => absurd hok h⟩
  · refine ⟨⟨fun h => absurd h hrc, fun hr => ?_⟩, fun _ => ⟨hge, fun _ => hbad, ?_, fun n h0 hn => ?_⟩⟩
    · obtain ⟨s', hs'⟩ := hr.run
      exact absurd ⟨s', fun q h1 h2 => hs' q h1 (by omega)⟩ hno
    · rw [if_neg hcount]
      intro hr
      obtain ⟨s', hs'⟩ := hr.run
      exact hno ⟨s', fun q h1 h2 => hs' q h1 (by omega)⟩
    · exact hrule n h0 (by omega) ⟨s, fun q h1 h2 => hs q h1 (by omega)⟩

/-- **Under the pregap** of the first track the guard is right exactly where `SwallowRight` says. -/
theorem swallow_answers_iff {P : AccuTrack} {r : Int × AccuRangeCheck} (h : toc.Sane)
    (hP : toc.Swallower P) (hw : toc.Walks lba count) (hf : 0 < fuel)
    (hr : range_walk toc (lba + count) fuel lba 0 = some r) :
    toc.Answers lba count r ↔ toc.SwallowRight lba count := by
  have hcount := hw.nonempty
  have hfits := hw.fits
  have hlt := hw.below
  have hin : lba + count ≤ toc.leadout_lba := by omega
  have hp : lba < lba + count := by omega
  obtain ⟨fuel, rfl⟩ : ∃ n, fuel = n + 1 := ⟨fuel - 1, by omega⟩
  obtain ⟨t, ht⟩ := track_at_isSome h hP hlt
  obtain ⟨hm, hpt⟩ := track_at_spec h ht
  by_cases hta : t.is_audio = true
  swap
  · -- data: refused at the first sector, as the rule says
    have hno : ∀ n, ¬toc.Rule lba n := by
      rintro n ⟨h0, -, -, -, s, hs⟩
      exact (hs lba le_rfl (by omega)).2 t hm (by simpa using hta) hpt
    rw [range_walk, if_pos hp, ht] at hr
    simp only [hta, Bool.not_false, if_true] at hr
    obtain rfl := Option.some.inj hr
    refine ⟨fun _ t' ht' hta' => ?_, fun _ => answers_refused hno⟩
    rw [ht] at ht'
    exact absurd (Option.some.inj ht' ▸ hta') hta
  have hright : toc.SwallowRight lba count ↔
      if t.sectors = 0 then ∀ q, lba ≤ q → q < lba + count → toc.Clean q
      else toc.Clean lba ∧ ∀ p, lba ≤ p → p < lba + count → (∀ q, lba ≤ q → q ≤ p → toc.Clean q) →
        ∀ u, track_at toc p = some u → u.session = t.session :=
    ⟨fun hs => hs t ht hta, fun hs t' ht' _ => by rwa [← Option.some.inj (ht.symm.trans ht')]⟩
  rw [range_walk_first h hp ht hta] at hr
  have hpend : lba < t.lba + t.sectors := hpt.2
  rw [hright]
  rcases hP.other t hm lba hpt hlt with rfl | ⟨hs, hsP, hs0⟩
  · -- the range begins in the pregap: the walk leaves it past the lead-out
    have hend : ¬t.lba + t.sectors < lba + count := by
      have := hP.above
      omega
    have hok : r.1 = ACCUDISC_OK := by
      cases fuel with
      | zero => cases hr
      | succ fuel =>
        rw [range_walk, if_neg hend] at hr
        exact Option.some.inj hr ▸ rfl
    rw [if_pos hP.empty, ← audio_run_iff hP hta count hin]
    exact ⟨fun ha => (ha.1.1 hok).run, fun hrun =>
      ⟨⟨fun _ => hw.rule (Nat.pos_of_ne_zero hcount) le_rfl hrun, fun _ => hok⟩, fun hne => absurd hok hne⟩⟩
  rw [if_neg hs]
  by_cases hPa : P.is_audio = true
  swap
  · -- the pregap is data: every range breaks the rule, and the walk went on
    have hdirty : ¬toc.Clean lba := fun hc => hc P hP.mem (by simpa using hPa) (hP.covers hlt)
    have hno : ∀ n, ¬toc.Rule lba n := by
      rintro n ⟨h0, -, -, -, s, hs'⟩
      exact hdirty (hs' lba le_rfl (by omega)).2
    refine ⟨fun ha => ?_, fun hc => absurd hc.1 hdirty⟩
    by_cases hok : r.1 = ACCUDISC_OK
    · exact absurd (ha.1.1 hok) (hno _)
    · rcases range_walk_ge h _ _ _ _ _ hr with hok' | hge
      · exact absurd hok' hok
      · exact absurd ((ha.2 hok).2.2.2 1 Nat.one_pos (by omega)) (hno _)
  -- the walk goes along audio tracks beside the pregap
  have hrule : ∀ n, 0 < n → n ≤ count → (∀ q, lba ≤ q → q < lba + n → toc.Clean q) → toc.Rule lba n :=
    fun n h0 hn hc => hw.rule h0 hn ((audio_run_iff hP hPa n (by omega)).2 hc)
  have hclean : ∀ {q : Nat}, q ∈ t.full → q < toc.leadout_lba → toc.Clean q := clean_beside hP hPa hm hs hta
  have hbeside := range_walk_beside h hP hPa hin hs0 hsP fuel (t.lba + t.sectors) r hpend.le
    (fun q h1 h2 h3 => ⟨hclean ⟨hpt.1.trans h1, h2⟩ (h3.trans_le hin), t,
      track_at_beside h hP ht hs hlt ⟨hpt.1.trans h1, h2⟩ (h3.trans_le hin), rfl⟩) hr
  refine ⟨fun ha => ⟨hclean hpt hlt, fun p h1 h2 hc u hu => ?_⟩, fun hc => ?_⟩
  · rcases hbeside with ⟨-, hup⟩ | ⟨hrc, hge, hbad, hup, -⟩
    · obtain ⟨-, v, hv, hvs⟩ := hup p h1 h2
      rwa [← Option.some.inj (hu.symm.trans hv)] at hvs
    · rcases Nat.lt_or_ge p r.2.first_bad_lba with hpb | hpb
      · obtain ⟨-, v, hv, hvs⟩ := hup p h1 hpb
        rwa [← Option.some.inj (hu.symm.trans hv)] at hvs
      · -- the rule holds up to `p`, so the refusal was wrong
        have hfb := (ha.2 hrc).2.2.1
        rw [if_neg hcount] at hfb
        exact absurd (hrule _ (by omega) (by omega) fun q h1 h2 => hc q h1 (by omega)) hfb
  · rcases hbeside with ⟨hok, hup⟩ | ⟨hrc, hge, hbad, hup, hwhy⟩
    · exact ⟨⟨fun _ => hrule _ (Nat.pos_of_ne_zero hcount) le_rfl fun q h1 h2 => (hup q h1 h2).1,
        fun _ => hok⟩, fun hne => absurd hok hne⟩
    · have hdirty : ¬toc.Clean r.2.first_bad_lba := by
        rcases hwhy with hd | ⟨u, hu, hne⟩
        · exact hd
        · intro hcl
          refine hne (hc.2 _ hge hbad (fun q h1 h2 => ?_) u hu)
          rcases Nat.lt_or_eq_of_le h2 with hlt' | rfl
          · exact (hup q h1 hlt').1
          · exact hcl
      have hno : ∀ n, r.2.first_bad_lba < lba + n → ¬toc.Rule lba n := by
        rintro n hn ⟨-, -, -, -, s, hs'⟩
        exact hdirty (hs' _ hge hn).2
      refine ⟨⟨fun hok => absurd hok hrc, fun hr' => absurd hr' (hno _ hbad)⟩, fun _ =>
        ⟨hge, fun _ => hbad, ?_, fun n h0 hn => ?_⟩⟩
      · rw [if_neg hcount]
        exact hno _ (by omega)
      · exact hrule n h0 (by omega) fun q h1 h2 => (hup q h1 (by omega)).1

/-- No sector at all. -/
theorem check_empty (toc : AccuToc) (fuel lba : Nat) :
    ∃ r, accudisc_check_audio_range fuel toc lba 0 = some r ∧
      (toc.Answers lba 0 r ↔ toc.GuardRight lba 0) := by
  have hno : ¬toc.Rule lba 0 := fun hr => absurd hr.count_pos (lt_irrefl _)
  refine ⟨reject .EMPTY 0 0 lba, if_pos rfl, fun _ =>
    ⟨fun hw => absurd rfl hw.nonempty, fun hw => absurd rfl hw.nonempty, fun _ _ h0 =>
      absurd h0 (Nat.not_lt_zero _)⟩,
    fun _ => ⟨⟨fun h => ?_, fun hr => absurd hr hno⟩, fun _ =>
      ⟨le_rfl, fun h0 => absurd rfl h0, hno, fun n h1 h2 => ?_⟩⟩⟩
  · simp [reject, ACCUDISC_ERR_UNSUPPORTED, ACCUDISC_OK] at h
  · simp only [reject, Nat.sub_self] at h2
    omega

/-- A range that the guard refuses at its first sector, where the rule holds of no range from there. -/
theorem check_refused {reason : RangeReason} {a b : BitVec 8} (hno : ∀ n, ¬toc.Rule lba n)
    (hr : accudisc_check_audio_range fuel toc lba count = some (reject reason a b lba))
      (hg : toc.GuardRight lba count) :
    ∃ r, accudisc_check_audio_range fuel toc lba count = some r ∧
      (toc.Answers lba count r ↔ toc.GuardRight lba count) :=
  ⟨_, hr, fun _ => hg, fun _ => answers_refused hno⟩

/-- The range goes past the lead-out: the guard names the lead-out, which is right where the rule holds
up to there. -/
theorem check_across (h : toc.Sane) (hcount : count ≠ 0) (htr : toc.Trusted) (hlt : lba < toc.leadout_lba)
    (hle : ¬count ≤ toc.leadout_lba - lba) :
    ∃ r, accudisc_check_audio_range fuel toc lba count = some r ∧
      (toc.Answers lba count r ↔ toc.GuardRight lba count) := by
  have hlead := h.leadout
  have hrc : (reject .BEYOND_LEADOUT 0 0 toc.leadout_lba).1 ≠ ACCUDISC_OK := by
    simp [reject, ACCUDISC_ERR_UNSUPPORTED, ACCUDISC_OK]
  refine ⟨reject .BEYOND_LEADOUT 0 0 toc.leadout_lba, ?_, fun ha =>
    ⟨fun hw => absurd hw.fits hle, fun hw => absurd hw.fits hle, fun _ _ _ => ?_⟩, fun hg => ?_⟩
  · unfold accudisc_check_audio_range
    rw [if_neg hcount, if_neg htr.unflagged, if_pos, if_pos hlt]
    rw [sub32_of_le hlt.le hlead]
    omega
  · exact (ha.2 hrc).2.2.2 _ (by omega) le_rfl
  · have hr := hg.beyond htr hlt (by omega)
    refine ⟨⟨fun h => absurd h hrc, fun h => absurd h.below.2 hle⟩, fun _ =>
      ⟨hlt.le, fun _ => ?_, ?_, fun n h0 hn => hr.mono h0 hn⟩⟩
    · simp only [reject]
      omega
    · rw [if_neg hcount]
      intro h
      have := h.below.2
      simp only [reject] at this
      omega

/-- No session table: the guard refuses at the first sector. -/
theorem check_no_table (h : toc.Sane) (hcount : count ≠ 0) (htr : toc.Trusted) (hlt : lba < toc.leadout_lba)
    (hle : count ≤ toc.leadout_lba - lba) (hnt : ¬toc.NoTableRules) (fuel : Nat) :
    ∃ reason b, accudisc_check_audio_range fuel toc lba count = some (reject reason 0 b lba) := by
  have hlead := h.leadout
  unfold AccuToc.NoTableRules at hnt
  rw [Classical.not_imp] at hnt
  obtain ⟨hs, hbad⟩ := hnt
  unfold accudisc_check_audio_range
  rw [if_neg hcount, if_neg htr.unflagged, if_neg]
  · by_cases htot : 1 < toc.sessions_total
    · rw [if_pos ⟨hs, htot⟩]
      exact ⟨_, _, rfl⟩
    · rw [if_neg (fun hc => htot hc.2), if_pos hs]
      cases hfind : toc.tracks.find? (fun t => !t.is_audio) with
      | some t => exact ⟨_, _, rfl⟩
      | none => exact absurd ⟨htot, fun t ht => by simpa using List.find?_eq_none.1 hfind t ht⟩ hbad
  · rw [sub32_of_le hlt.le hlead]
    omega

/-- A walk over tracks whose extents are apart answers as the rule says, unless it comes upon an unknown
session before a known one. -/
theorem walk_answers_iff (h : toc.Sane) (hw : toc.Walks lba count)
    (hap : toc.Apart) {r : Int × AccuRangeCheck}
    (hr : range_walk toc (lba + count) fuel lba 0 = some r) :
    toc.Answers lba count r ↔ toc.GuardRight lba count := by
  refine ⟨fun ha => ⟨fun _ _ hmix => ?_, fun _ h => absurd hap h, fun _ _ h =>
    absurd h (Nat.not_lt.2 hw.fits)⟩,
    fun hg => ?_⟩
  · obtain ⟨pm, s, h1, h2, hzero, hs, hbad⟩ := hmix
    have hrun : ∀ n, pm - lba < n → ¬toc.Rule lba n := by
      rintro n hn ⟨-, -, -, -, s', hs'⟩
      have e0 := Good.unique hap (hzero lba le_rfl h1) (hs' lba le_rfl (by omega))
      have e1 := Good.unique hap hbad (hs' pm h1.le (by omega))
      exact hs (e1.trans e0.symm)
    by_cases hok : r.1 = ACCUDISC_OK
    · exact hrun count (by omega) (ha.1.1 hok)
    · rcases range_walk_mixes h hap h2 hzero hbad fuel lba 0 r le_rfl (fun _ => rfl) hr with hok' | hlater
      · exact hok hok'
      · exact hrun (pm + 1 - lba) (by omega) ((ha.2 hok).2.2.2 _ (by omega) (by omega))
  · refine WalkSays.answers hw (range_walk_follows h hap ?_ fuel lba 0 r
      ⟨le_rfl, fun _ => rfl, fun q h1 h2 => absurd h2 (Nat.not_lt.2 h1)⟩ hr)
    rw [Nat.add_sub_cancel_left]
    exact hg.mixes hw hap

/-- **The guard is the rule** exactly where it is right. -/
theorem check_answers_iff (h : toc.Sane) (hsw : toc.Trusted → ¬toc.Apart → ∃ P, toc.Swallower P)
    (hf : count < fuel) :
    ∃ r, accudisc_check_audio_range fuel toc lba count = some r ∧
      (toc.Answers lba count r ↔ toc.GuardRight lba count) := by
  have hlead := h.leadout
  by_cases hcount : count = 0
  · subst hcount
    exact check_empty toc fuel lba
  by_cases htr : toc.Trusted
  swap
  · refine check_refused (fun n hr => htr hr.trusted) (?_ : _ = some (reject .TOC_UNTRUSTED 0 0 lba))
      ⟨fun hw => absurd hw.trusted htr, fun hw => absurd hw.trusted htr, fun h => absurd h htr⟩
    unfold accudisc_check_audio_range
    exact (if_neg hcount).trans (if_pos htr)
  by_cases hlt : lba < toc.leadout_lba
  swap
  · refine check_refused (fun n hr => hlt hr.below.1) (?_ : _ = some (reject .BEYOND_LEADOUT 0 0 lba))
      ⟨fun hw => absurd hw.below hlt, fun hw => absurd hw.below hlt, fun _ h => absurd h hlt⟩
    unfold accudisc_check_audio_range
    rw [if_neg hcount, if_neg htr.unflagged, if_pos (.inl (Nat.not_lt.1 hlt)), if_neg hlt]
  by_cases hle : count ≤ toc.leadout_lba - lba
  swap
  · exact check_across h hcount htr hlt hle
  by_cases hnt : toc.NoTableRules
  swap
  · obtain ⟨reason, b, hcheck⟩ := check_no_table h hcount htr hlt hle hnt fuel
    exact check_refused (fun n hr => hnt hr.table) hcheck ⟨fun hw => absurd hw.table hnt,
      fun hw => absurd hw.table hnt, fun _ _ h => absurd hle (Nat.not_le.2 h)⟩
  have hw : toc.Walks lba count := ⟨hcount, htr, hlt, hle, hnt⟩
  obtain ⟨r, hr⟩ := range_walk_terminates h (lba + count) fuel lba 0 (by omega)
  refine ⟨r, (check_walks h hw fuel).trans hr, ?_⟩
  by_cases hap : toc.Apart
  · exact walk_answers_iff h hw hap hr
  · obtain ⟨P, hP⟩ := hsw htr hap
    rw [swallow_answers_iff h hP hw (by omega) hr]
    exact ⟨fun hs => ⟨fun _ h => absurd h hap, fun _ _ => hs, fun _ _ h => absurd h (Nat.not_lt.2 hle)⟩,
      fun hg => hg.overlap hw hap⟩

end

/-! ## Produced TOCs -/

/-- Where the geometry is trusted and extents meet, the first track owns nothing and reaches over
every sector below the lead-out. -/
theorem AccuToc.FilledFrom.swallower {toc out : AccuToc} (h : toc.FilledFrom out) (htr : toc.Trusted)
    (hap : ¬toc.Apart) : ∃ P, toc.Swallower P := by
  have hsw : out.Swallows := by
    by_contra hns
    exact hap ((h.apart_iff htr).2 hns)
  have htracks : toc.tracks = (toc_fill_extents out).tracks := h.tracks.resolve_right fun hn => hn.1 hsw
  obtain ⟨-, hbefore, hover⟩ := trusted_fill (h.trusted_iff.1 htr)
  obtain ⟨i, t, hl, ht, hown, -⟩ := hsw
  have hraw := h.raw
  obtain ⟨hts, hlow⟩ := lowest_track_spec hl ht
  have hget : ∀ b ∈ toc.tracks, ∃ j u, out.tracks[j]? = some u ∧ b = filled out j u := by
    intro b hb
    rw [htracks] at hb
    obtain ⟨j, hj⟩ := List.mem_iff_getElem?.1 hb
    rw [fill_getElem?] at hj
    obtain ⟨u, hu, rfl⟩ := Option.map_eq_some_iff.1 hj
    exact ⟨j, u, hu, rfl⟩
  have hempty : (filled out i t).sectors = 0 := by
    by_contra hne
    exact hown ((track_sectors_ne_zero hraw t).1 hne)
  -- its session has no table entry, or the lead-out would be flagged
  have habove : toc.leadout_lba ≤ t.lba := by
    rw [h.leadout]
    have hle : session_leadout out t.session ≤ t.lba := Nat.not_lt.1 fun hlt => hown (.inr hlt)
    unfold session_leadout at hle
    cases hf : out.sessions.find? (·.number = t.session) with
    | none =>
      rw [hf] at hle
      exact hle
    | some ss =>
      rw [hf] at hle
      have hnum : ss.number = t.session := by simpa using List.find?_some hf
      unfold leadout_before at hbefore
      rw [Bool.or_eq_false_iff] at hbefore
      have hss := List.any_eq_false.1 hbefore.1 ss (List.mem_of_find?_eq_some hf)
      have hmin := Loop.firstMin_spec (fun _ : AccuTrack => true) (·.lba)
        (out.tracks.filter (·.session = ss.number))
      have hmem : t ∈ out.tracks.filter (·.session = ss.number) :=
        List.mem_filter.2 ⟨List.mem_of_getElem? ht, by simp [hnum]⟩
      unfold lowest_lba at hss
      cases hm : Loop.firstMin (fun _ : AccuTrack => true) (·.lba)
          (out.tracks.filter (·.session = ss.number)) with
      | none =>
        rw [hm] at hmin
        exact absurd (hmin t hmem) (by simp)
      | some u =>
        rw [hm] at hmin hss
        obtain ⟨hu, -⟩ := hmin
        obtain ⟨hu, hus⟩ := List.mem_filter.1 hu
        have hus : u.session = t.session := (of_decide_eq_true hus).trans hnum
        simp only [Option.map_some, decide_eq_true_eq] at hss
        exact absurd (hle.trans (hlow u hu (hus ▸ hts))) hss
  refine ⟨filled out i t, ?_, hempty, pregap_of_eq hraw ht hl, habove, ?_, ?_⟩
  · rw [htracks]
    exact List.mem_of_getElem? (by rw [fill_getElem?, ht]; rfl)
  · intro a ha b hb hsa hsb p hpa hpb
    obtain ⟨j, u, hu, rfl⟩ := hget a ha
    obtain ⟨k, v, hv, rfl⟩ := hget b hb
    rcases Nat.lt_trichotomy j k with hjk | rfl | hjk
    · exact absurd hpb (Set.disjoint_left.1 (full_disjoint hraw hover hu hv hjk hsa hsb) hpa)
    · rw [hu] at hv
      rw [Option.some.inj hv]
    · exact absurd hpa (Set.disjoint_left.1 (full_disjoint hraw hover hv hu hjk hsb hsa) hpb)
  · intro b hb p hp hpl
    obtain ⟨j, u, hu, rfl⟩ := hget b hb
    by_cases hji : j = i
    · subst hji
      rw [ht] at hu
      rw [Option.some.inj hu]
      exact .inl rfl
    · right
      have hpre : (filled out j u).pregap = 0 :=
        pregap_of_ne hraw hu fun h' => hji (Option.some.inj (hl.symm.trans h')).symm
      obtain ⟨hp1, hp2⟩ := hp
      rw [hpre, Nat.sub_zero] at hp1
      have hs1 : ¬u.session ≤ 1 := fun hus => by
        have h1 := hlow u (List.mem_of_getElem? hu) hus
        exact absurd (hpl.trans_le (habove.trans (h1.trans hp1))) (lt_irrefl p)
      refine ⟨fun h0 => ?_, fun he => hs1 ?_, fun he => hs1 ?_⟩
      · rw [h0, Nat.add_zero] at hp2
        exact absurd (hp2.trans_le hp1) (lt_irrefl p)
      · exact (show u.session = t.session from he) ▸ hts
      · rw [show u.session = 0 from he]
        decide

/-- **The guard and the rule** agree on a TOC of the parsers exactly where `GuardRight` says. The guard
always answers, and neither a track's end nor the range's wraps. -/
theorem check_audio_range_rule {toc : AccuToc} (h : toc.Produced) {lba count fuel : Nat}
    (hf : count < fuel) :
    toc.Sane ∧ (toc.Walks lba count → lba + count < 2 ^ 32) ∧
      ∃ r, accudisc_check_audio_range fuel toc lba count = some r ∧
        (toc.Answers lba count r ↔ toc.GuardRight lba count) := by
  obtain ⟨out, hfl⟩ := h.filled
  refine ⟨hfl.sane, fun hw => ?_, check_answers_iff hfl.sane hfl.swallower hf⟩
  have := hfl.sane.leadout
  have := hw.below
  have := hw.fits
  omega

theorem check_audio_range_rule_swallowed :
    swallowed_toc.Sane ∧ (swallowed_toc.Walks 0 1000 → 0 + 1000 < 2 ^ 32) ∧
      ∃ r, accudisc_check_audio_range 1001 swallowed_toc 0 1000 = some r ∧
        (swallowed_toc.Answers 0 1000 r ↔ swallowed_toc.GuardRight 0 1000) :=
  check_audio_range_rule (.fulltoc swallowed_from) (by decide)

/-- The data track hidden under a pregap is accepted as audio. -/
theorem check_accepts_data :
    ¬∀ (toc : AccuToc), toc.Produced → ∀ lba count fuel : Nat, count < fuel →
      ∃ r, accudisc_check_audio_range fuel toc lba count = some r ∧ toc.Answers lba count r := by
  intro h
  obtain ⟨r, hr, ha⟩ := h swallowed_toc (.fulltoc swallowed_from) 0 1000 1001 (by decide)
  have hok : accudisc_check_audio_range 1001 swallowed_toc 0 1000 =
      some (ACCUDISC_OK, ⟨true, .OK, 1, 0, 0⟩) := by decide +kernel
  obtain rfl := Option.some.inj (hok.symm.trans hr)
  obtain ⟨s, hs⟩ := (ha.1.1 rfl).run
  exact (hs 0 le_rfl (by decide)).2 ⟨2, 0x14, 2, 0, 1000, 0⟩ (by simp [swallowed_toc]) (by decide)
    ⟨by decide, by decide⟩

end Accudisc
