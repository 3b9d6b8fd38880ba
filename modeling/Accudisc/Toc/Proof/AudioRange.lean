import Accudisc.Toc.Session
import Accudisc.Toc.Proof.Toc

/-!
# The audio-range guard against the rule it stands for

The rule is about single sectors; the guard looks at one sector of each track. On a TOC whose
extents do not meet the two agree but for the session of tracks whose session is unknown.
-/

namespace Accudisc

/-- A sector of audio of session `s`, and of no data track. -/
def AccuToc.Good (toc : AccuToc) (s : BitVec 8) (p : Nat) : Prop :=
  (∃ a ∈ toc.tracks, a.is_audio = true ∧ a.session = s ∧ p ∈ a.full) ∧
    ∀ d ∈ toc.tracks, d.is_audio = false → p ∉ d.full

/-- The `n` sectors from `lba` are audio of one session. -/
def AccuToc.AudioRun (toc : AccuToc) (lba n : Nat) : Prop :=
  ∃ s, ∀ p, lba ≤ p → p < lba + n → toc.Good s p

/-- What a TOC without a session table must be. -/
def AccuToc.NoTableRules (toc : AccuToc) : Prop :=
  toc.sessions = [] → ¬1 < toc.sessions_total ∧ ∀ t ∈ toc.tracks, t.is_audio = true

/-- The rule for a range that the guard may accept. -/
structure AccuToc.Rule (toc : AccuToc) (lba count : Nat) : Prop where
  count_pos : 0 < count
  below : lba < toc.leadout_lba ∧ count ≤ toc.leadout_lba - lba
  trusted : toc.Trusted
  table : toc.NoTableRules
  run : toc.AudioRun lba count

/-- The first sector of the range that breaks the rule: no range up to it passes, every shorter does. -/
def AccuToc.FirstBad (toc : AccuToc) (lba count p : Nat) : Prop :=
  lba ≤ p ∧ (count ≠ 0 → p < lba + count) ∧ ¬toc.Rule lba (if count = 0 then 0 else p + 1 - lba) ∧
    ∀ n, 0 < n → n ≤ p - lba → toc.Rule lba n

/-- The guard's answer is the rule's. -/
def AccuToc.Answers (toc : AccuToc) (lba count : Nat) (r : Int × AccuRangeCheck) : Prop :=
  (r.1 = ACCUDISC_OK ↔ toc.Rule lba count) ∧
    (r.1 ≠ ACCUDISC_OK → toc.FirstBad lba count r.2.first_bad_lba)

/-- The range begins in audio whose session is unknown and goes on into audio of a session. -/
def AccuToc.Mixes (toc : AccuToc) (lba count : Nat) : Prop :=
  ∃ p s, lba < p ∧ p < lba + count ∧ (∀ q, lba ≤ q → q < p → toc.Good 0 q) ∧ s ≠ 0 ∧ toc.Good s p

/-- Addresses of 32 bits that no extent leaves. -/
structure AccuToc.Sane (toc : AccuToc) : Prop where
  track : ∀ t ∈ toc.tracks, t.lba < 2 ^ 32 ∧ t.pregap ≤ t.lba ∧ t.lba + t.sectors < 2 ^ 32
  leadout : toc.leadout_lba < 2 ^ 32

section
variable {toc : AccuToc} {lba count stop p n : Nat} {s ses : BitVec 8} {t : AccuTrack}

theorem AccuToc.AudioRun.mono (h : toc.AudioRun lba count) (hn : n ≤ count) : toc.AudioRun lba n := by
  obtain ⟨s, h⟩ := h
  exact ⟨s, fun p h1 h2 => h p h1 (by omega)⟩

theorem AccuToc.Rule.mono (h : toc.Rule lba count) (h0 : 0 < n) (hn : n ≤ count) : toc.Rule lba n :=
  ⟨h0, ⟨h.below.1, hn.trans h.below.2⟩, h.trusted, h.table, h.run.mono hn⟩

/-! ## The owner of a sector -/

theorem AccuToc.Sane.mem_full (h : toc.Sane) (ht : t ∈ toc.tracks) :
    (t.start ≤ p ∧ p < t.stop) ↔ p ∈ t.full := by
  obtain ⟨h1, h2, h3⟩ := h.track t ht
  unfold AccuTrack.start AccuTrack.stop AccuTrack.full u32
  rw [sub32_of_le h2 h1, Nat.mod_eq_of_lt h3]
  exact Iff.rfl

theorem track_at_spec (h : toc.Sane) (ht : track_at toc p = some t) : t ∈ toc.tracks ∧ p ∈ t.full := by
  have hm := List.mem_of_find?_eq_some ht
  have hp := List.find?_some ht
  exact ⟨hm, (h.mem_full hm).1 (by simpa using hp)⟩

theorem track_at_none (h : toc.Sane) (ht : track_at toc p = none) : ∀ t ∈ toc.tracks, p ∉ t.full := by
  intro t hm hp
  have := List.find?_eq_none.1 ht t hm
  exact this (by simpa using (h.mem_full hm).2 hp)

/-- The next sector the walk looks at is the end of the track. -/
theorem walk_next (h : toc.Sane) (ht : t ∈ toc.tracks) (hp : p ∈ t.full) :
    u32 (sub32 (u32 (t.lba + t.sectors)) 1 + 1) = t.lba + t.sectors := by
  obtain ⟨-, -, h3⟩ := h.track t ht
  have hlt : p < t.lba + t.sectors := hp.2
  unfold u32
  rw [Nat.mod_eq_of_lt h3, sub32_of_le (by omega) h3, Nat.sub_add_cancel (by omega)]
  exact Nat.mod_eq_of_lt h3

/-- **The walk ends**, and looks at later sectors only. -/
theorem range_walk_terminates (h : toc.Sane) (stop : Nat) : ∀ (fuel p : Nat) (ses : BitVec 8),
    stop - p < fuel → ∃ r, range_walk toc stop fuel p ses = some r := by
  intro fuel
  induction fuel with
  | zero => exact fun p ses hf => absurd hf (Nat.not_lt_zero _)
  | succ fuel ih =>
    intro p ses hf
    unfold range_walk
    split
    · rename_i hp
      cases ht : track_at toc p with
      | none => exact ⟨_, rfl⟩
      | some t =>
        obtain ⟨hm, hpt⟩ := track_at_spec h ht
        simp only
        split
        · exact ⟨_, rfl⟩
        split
        · exact ⟨_, rfl⟩
        · rw [walk_next h hm hpt]
          have : p < t.lba + t.sectors := hpt.2
          exact ih _ _ (by omega)
    · exact ⟨_, rfl⟩

variable (h : toc.Sane) (hap : toc.Apart)
include h hap

omit h in
/-- Tracks that share a sector are the same. -/
theorem owner_unique {a b : AccuTrack} (ha : a ∈ toc.tracks) (hb : b ∈ toc.tracks) (hpa : p ∈ a.full)
    (hpb : p ∈ b.full) : a = b := by
  obtain ⟨i, hi, rfl⟩ := List.mem_iff_getElem.1 ha
  obtain ⟨j, hj, rfl⟩ := List.mem_iff_getElem.1 hb
  have hp := List.pairwise_iff_getElem.1 hap
  rcases Nat.lt_trichotomy i j with hij | rfl | hij
  · exact absurd hpb (Set.disjoint_left.1 (hp i j hi hj hij) hpa)
  · rfl
  · exact absurd hpa (Set.disjoint_left.1 (hp j i hj hi hij) hpb)

omit h in
theorem good_iff (ht : t ∈ toc.tracks) (hp : p ∈ t.full) :
    toc.Good s p ↔ t.is_audio = true ∧ t.session = s := by
  constructor
  · rintro ⟨⟨a, ha, haud, has, hpa⟩, -⟩
    rw [owner_unique hap ht ha hp hpa]
    exact ⟨haud, has⟩
  · rintro ⟨haud, hs⟩
    refine ⟨⟨t, ht, haud, hs, hp⟩, fun d hd hdd hpd => ?_⟩
    rw [owner_unique hap hd ht hpd hp, haud] at hdd
    cases hdd

omit h in
theorem Good.unique {s' : BitVec 8} (h1 : toc.Good s p) (h2 : toc.Good s' p) : s = s' := by
  obtain ⟨⟨a, ha, -, rfl, hpa⟩, -⟩ := h1
  exact ((good_iff hap ha hpa).1 h2).2

omit h in
/-- A track's sectors are all alike. -/
theorem good_track (ht : t ∈ toc.tracks) (hp : p ∈ t.full) (hg : toc.Good s p) {q : Nat} (h1 : p ≤ q)
    (h2 : q < t.lba + t.sectors) : toc.Good s q :=
  (good_iff hap ht ⟨hp.1.trans h1, h2⟩).2 ((good_iff hap ht hp).1 hg)

/-! ## The walk -/

/-- The walk at `p`: what it passed is audio of the session it holds. -/
def Walked (toc : AccuToc) (lba p : Nat) (ses : BitVec 8) : Prop :=
  lba ≤ p ∧ (p = lba → ses = 0) ∧ ∀ q, lba ≤ q → q < p → toc.Good ses q

/-- What a walk without unknown sessions before known ones says. -/
def WalkSays (toc : AccuToc) (lba stop : Nat) (r : Int × AccuRangeCheck) : Prop :=
  (r.1 = ACCUDISC_OK ∧ ∃ s, ∀ q, lba ≤ q → q < stop → toc.Good s q) ∨
  (r.1 ≠ ACCUDISC_OK ∧ lba ≤ r.2.first_bad_lba ∧ r.2.first_bad_lba < stop ∧
    (∃ s, ∀ q, lba ≤ q → q < r.2.first_bad_lba → toc.Good s q) ∧
    ¬∃ s, ∀ q, lba ≤ q → q ≤ r.2.first_bad_lba → toc.Good s q)

/-- **The walk follows the rule** where no track of unknown session comes first. -/
theorem range_walk_follows (hmix : ¬toc.Mixes lba (stop - lba)) : ∀ (fuel p : Nat) (ses : BitVec 8)
    (r : Int × AccuRangeCheck), Walked toc lba p ses → range_walk toc stop fuel p ses = some r →
    WalkSays toc lba stop r := by
  intro fuel
  induction fuel with
  | zero => exact fun p ses r _ hr => by cases hr
  | succ fuel ih =>
    intro p ses r hw hr
    obtain ⟨hle, hstart, hgood⟩ := hw
    unfold range_walk at hr
    split at hr
    · rename_i hp
      -- a refusal at `p` is right when no session makes `p` good with what came before
      have hrefuse : ∀ reason a b, some (reject reason a b p) = some r →
          (∀ s, (∀ q, lba ≤ q → q < p → toc.Good s q) → ¬toc.Good s p) → WalkSays toc lba stop r := by
        intro reason a b he hbad
        obtain rfl := Option.some.inj he
        refine .inr ⟨by simp [reject, ACCUDISC_ERR_UNSUPPORTED, ACCUDISC_OK], hle, hp, ⟨ses, hgood⟩, ?_⟩
        rintro ⟨s, hs⟩
        exact hbad s (fun q h1 h2 => hs q h1 h2.le) (hs p hle le_rfl)
      cases ht : track_at toc p with
      | none =>
        rw [ht] at hr
        refine hrefuse _ _ _ hr fun s _ hg => ?_
        obtain ⟨⟨a, ha, -, -, hpa⟩, -⟩ := hg
        exact track_at_none h ht a ha hpa
      | some t =>
        obtain ⟨hm, hpt⟩ := track_at_spec h ht
        rw [ht] at hr
        simp only at hr
        split at hr
        · rename_i hdata
          refine hrefuse _ _ _ hr fun s _ hg => ?_
          have := ((good_iff hap hm hpt).1 hg).1
          simp [this] at hdata
        rename_i haud
        have haud : t.is_audio = true := by simpa using haud
        have hgt : toc.Good t.session p := (good_iff hap hm hpt).2 ⟨haud, rfl⟩
        split at hr
        · rename_i hcross
          refine hrefuse _ _ _ hr fun s hs hg => ?_
          have hlt : lba < p := lt_of_le_of_ne hle fun he => hcross.1 (hstart he.symm)
          have h1 := Good.unique hap (hgood lba le_rfl hlt) (hs lba le_rfl hlt)
          have h2 := Good.unique hap hgt hg
          exact hcross.2 (h2.trans h1.symm)
        · rename_i hcross
          rw [walk_next h hm hpt] at hr
          have hpend : p < t.lba + t.sectors := hpt.2
          -- the session held from here on is the track's
          have hses : (if ses = 0 then t.session else ses) = t.session := by
            by_cases h0 : ses = 0
            · rw [if_pos h0]
            · rw [if_neg h0]
              by_contra hne
              exact hcross ⟨h0, fun he => hne he.symm⟩
          have hprev : ∀ q, lba ≤ q → q < p → toc.Good t.session q := by
            intro q h1 h2
            by_cases h0 : ses = 0
            · by_cases hts : t.session = 0
              · rw [hts, ← h0]
                exact hgood q h1 h2
              · exact absurd ⟨p, t.session, h1.trans_lt h2, by omega, h0 ▸ hgood, hts, hgt⟩ hmix
            · rw [if_neg h0] at hses
              exact hses ▸ hgood q h1 h2
          rw [hses] at hr
          refine ih _ _ _ ⟨hle.trans hpend.le, fun he => absurd he (by omega), fun q h1 h2 => ?_⟩ hr
          rcases Nat.lt_or_ge q p with hq | hq
          · exact hprev q h1 hq
          · exact good_track hap hm hpt hgt hq h2
    · rename_i hp
      obtain rfl := Option.some.inj hr
      exact .inl ⟨rfl, ses, fun q h1 h2 => hgood q h1 (by omega)⟩

/-- **Where an unknown session comes first** the walk goes on past the sector that breaks the rule. -/
theorem range_walk_mixes {pm : Nat} (hpm : pm < stop) (hzero : ∀ q, lba ≤ q → q < pm → toc.Good 0 q)
    (hbad : toc.Good s pm) : ∀ (fuel p : Nat) (ses : BitVec 8) (r : Int × AccuRangeCheck),
    lba ≤ p → (p ≤ pm → ses = 0) → range_walk toc stop fuel p ses = some r →
    r.1 = ACCUDISC_OK ∨ pm < r.2.first_bad_lba := by
  intro fuel
  induction fuel with
  | zero => exact fun p ses r _ _ hr => by cases hr
  | succ fuel ih =>
    intro p ses r hle hses hr
    unfold range_walk at hr
    split at hr
    · -- before `pm` and at it every sector has an audio track of a session that fits
      have hok : p ≤ pm → ∃ s', toc.Good s' p ∧ (p < pm → s' = 0) := by
        intro hp
        rcases Nat.lt_or_eq_of_le hp with hlt | rfl
        · exact ⟨0, hzero p hle hlt, fun _ => rfl⟩
        · exact ⟨s, hbad, fun hlt => absurd hlt (lt_irrefl _)⟩
      have hrefuse : ∀ reason a b, some (reject reason a b p) = some r → ¬p ≤ pm →
          r.1 = ACCUDISC_OK ∨ pm < r.2.first_bad_lba := by
        intro reason a b he hp
        obtain rfl := Option.some.inj he
        exact .inr (Nat.not_le.1 hp)
      cases ht : track_at toc p with
      | none =>
        rw [ht] at hr
        refine hrefuse _ _ _ hr fun hp => ?_
        obtain ⟨s', ⟨⟨a, ha, -, -, hpa⟩, -⟩, -⟩ := hok hp
        exact track_at_none h ht a ha hpa
      | some t =>
        obtain ⟨hm, hpt⟩ := track_at_spec h ht
        rw [ht] at hr
        simp only at hr
        split at hr
        · rename_i hdata
          refine hrefuse _ _ _ hr fun hp => ?_
          obtain ⟨s', hg, -⟩ := hok hp
          have := ((good_iff hap hm hpt).1 hg).1
          simp [this] at hdata
        split at hr
        · rename_i hcross
          exact hrefuse _ _ _ hr fun hp => hcross.1 (hses hp)
        · rw [walk_next h hm hpt] at hr
          have hpend : p < t.lba + t.sectors := hpt.2
          refine ih _ _ _ (hle.trans hpend.le) (fun hend => ?_) hr
          -- a track that ends at or before `pm` is one of unknown session
          have hlt : p < pm := hpend.trans_le hend
          obtain ⟨s', hg, h0⟩ := hok hlt.le
          rw [hses hlt.le, if_pos rfl, ← h0 hlt]
          exact ((good_iff hap hm hpt).1 hg).2
    · obtain rfl := Option.some.inj hr
      exact .inl rfl

end

end Accudisc
