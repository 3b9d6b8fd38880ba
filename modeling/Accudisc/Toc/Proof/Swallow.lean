import Accudisc.Toc.Proof.AudioRange

/-!
# The guard on a TOC whose first track reaches over others

The first track of session 1 can own no sector of its own and still, with its pregap, have every
sector below the lead-out. There the guard is right on some ranges only.
-/

namespace Accudisc

/-- A track that owns nothing but its pregap, which reaches over every sector below the lead-out. -/
structure AccuToc.Swallower (toc : AccuToc) (P : AccuTrack) : Prop where
  mem : P ∈ toc.tracks
  empty : P.sectors = 0
  reach : P.pregap = P.lba
  above : toc.leadout_lba ≤ P.lba
  apart : ∀ a ∈ toc.tracks, ∀ b ∈ toc.tracks, a.sectors ≠ 0 → b.sectors ≠ 0 →
    ∀ p, p ∈ a.full → p ∈ b.full → a = b
  other : ∀ b ∈ toc.tracks, ∀ p ∈ b.full, p < toc.leadout_lba →
    b = P ∨ b.sectors ≠ 0 ∧ b.session ≠ P.session ∧ b.session ≠ 0

/-- A sector of no data track. -/
def AccuToc.Clean (toc : AccuToc) (p : Nat) : Prop :=
  ∀ d ∈ toc.tracks, d.is_audio = false → p ∉ d.full

/-- Where the guard is right under such a track: a range that begins in the pregap has no data, and
one that begins in another audio track meets no second session before data. -/
def AccuToc.SwallowRight (toc : AccuToc) (lba count : Nat) : Prop :=
  ∀ t, track_at toc lba = some t → t.is_audio = true →
    if t.sectors = 0 then ∀ q, lba ≤ q → q < lba + count → toc.Clean q
    else toc.Clean lba ∧ ∀ p, lba ≤ p → p < lba + count → (∀ q, lba ≤ q → q ≤ p → toc.Clean q) →
      ∀ u, track_at toc p = some u → u.session = t.session

/-- Two searches that each pass what the other finds find the same. -/
theorem find?_swap {α : Type} {f g : α → Bool} {u v : α} : ∀ {l : List α}, l.find? f = some u →
    l.find? g = some v → f v = true → g u = true → u = v
  | [], hu, _, _, _ => by cases hu
  | x :: l, hu, hv, hfv, hgu => by
    rw [List.find?_cons_eq_some] at hu hv
    rcases hu with ⟨hf, rfl⟩ | ⟨hf, hu⟩
    · rcases hv with ⟨-, rfl⟩ | ⟨hg, -⟩
      · rfl
      · simp [hgu] at hg
    · rcases hv with ⟨-, rfl⟩ | ⟨-, hv⟩
      · simp [hfv] at hf
      · exact find?_swap hu hv hfv hgu

section
variable {toc : AccuToc} {P t u : AccuTrack} {lba count stop p q fuel : Nat} {r : Int × AccuRangeCheck}

/-- A refusal names a sector that the walk has come to. -/
theorem range_walk_ge (h : toc.Sane) (stop : Nat) :
    ∀ (fuel p : Nat) (ses : BitVec 8) (r : Int × AccuRangeCheck),
    range_walk toc stop fuel p ses = some r → r.1 = ACCUDISC_OK ∨ p ≤ r.2.first_bad_lba := by
  intro fuel
  induction fuel with
  | zero => exact fun p ses r hr => by cases hr
  | succ fuel ih =>
    intro p ses r hr
    unfold range_walk at hr
    split at hr
    · cases ht : track_at toc p with
      | none =>
        rw [ht] at hr
        obtain rfl := Option.some.inj hr
        exact .inr le_rfl
      | some t =>
        obtain ⟨hm, hpt⟩ := track_at_spec h ht
        rw [ht] at hr
        simp only at hr
        split at hr
        · obtain rfl := Option.some.inj hr
          exact .inr le_rfl
        split at hr
        · obtain rfl := Option.some.inj hr
          exact .inr le_rfl
        · rw [walk_next h hm hpt] at hr
          have : p < t.lba + t.sectors := hpt.2
          exact (ih _ _ _ hr).imp_right fun hle => this.le.trans hle
    · obtain rfl := Option.some.inj hr
      exact .inl rfl

/-- The first turn of a walk in audio. -/
theorem range_walk_first (h : toc.Sane) (hp : p < stop) (ht : track_at toc p = some t)
    (haud : t.is_audio = true) :
    range_walk toc stop (fuel + 1) p 0 = range_walk toc stop fuel (t.lba + t.sectors) t.session := by
  obtain ⟨hm, hpt⟩ := track_at_spec h ht
  rw [range_walk, if_pos hp, ht]
  simp [haud, walk_next h hm hpt]

variable (h : toc.Sane) (hP : toc.Swallower P)
include hP

theorem AccuToc.Swallower.covers (hp : p < toc.leadout_lba) : p ∈ P.full := by
  refine ⟨?_, (hp.trans_le hP.above).trans_le (Nat.le_add_right _ _)⟩
  rw [hP.reach, Nat.sub_self]
  exact Nat.zero_le _

/-- Under an audio track of that kind a sector is good unless it is data. -/
theorem good_of_clean (haud : P.is_audio = true) (hp : p < toc.leadout_lba) (hc : toc.Clean p) :
    toc.Good P.session p := ⟨⟨P, hP.mem, haud, rfl, hP.covers hp⟩, hc⟩

theorem audio_run_iff (haud : P.is_audio = true) (n : Nat) (hn : lba + n ≤ toc.leadout_lba) :
    toc.AudioRun lba n ↔ ∀ q, lba ≤ q → q < lba + n → toc.Clean q :=
  ⟨fun ⟨_, hs⟩ q h1 h2 => (hs q h1 h2).2,
    fun hc => ⟨P.session, fun q h1 h2 => good_of_clean hP haud (by omega) (hc q h1 h2)⟩⟩

/-- The sectors of another audio track are clean. -/
theorem clean_beside (haud : P.is_audio = true) (ht : t ∈ toc.tracks) (hs : t.sectors ≠ 0)
    (hta : t.is_audio = true) (hp : p ∈ t.full) (hlt : p < toc.leadout_lba) : toc.Clean p := by
  intro d hd hda hpd
  rcases hP.other d hd p hpd hlt with rfl | ⟨hds, -⟩
  · rw [haud] at hda
    cases hda
  · rw [hP.apart d hd t ht hds hs p hpd hp, hta] at hda
    cases hda

include h

theorem track_at_isSome (hp : p < toc.leadout_lba) : ∃ t, track_at toc p = some t := by
  cases ht : track_at toc p with
  | none => exact absurd (hP.covers hp) (track_at_none h ht P hP.mem)
  | some t => exact ⟨t, rfl⟩

/-- A track found at one of its sectors is found at the others. -/
theorem track_at_beside (ht : track_at toc p = some t) (hs : t.sectors ≠ 0) (hp : p < toc.leadout_lba)
    (hq : q ∈ t.full) (hql : q < toc.leadout_lba) : track_at toc q = some t := by
  obtain ⟨hm, hpt⟩ := track_at_spec h ht
  obtain ⟨v, hv⟩ := track_at_isSome h hP hql
  obtain ⟨hvm, hqv⟩ := track_at_spec h hv
  rcases hP.other v hvm q hqv hql with rfl | ⟨hvs, -⟩
  · rw [hv, find?_swap ht hv (by simpa using (h.mem_full hvm).2 (hP.covers hp))
      (by simpa using (h.mem_full hm).2 hq)]
  · rw [hv, hP.apart v hvm t hm hvs hs q hqv hq]

/-- What a walk says that has begun in an audio track beside. -/
def BesideSays (toc : AccuToc) (lba stop : Nat) (ses : BitVec 8) (r : Int × AccuRangeCheck) : Prop :=
  let upTo n := ∀ q, lba ≤ q → q < n → toc.Clean q ∧ ∃ u, track_at toc q = some u ∧ u.session = ses
  (r.1 = ACCUDISC_OK ∧ upTo stop) ∨
  (r.1 ≠ ACCUDISC_OK ∧ lba ≤ r.2.first_bad_lba ∧ r.2.first_bad_lba < stop ∧ upTo r.2.first_bad_lba ∧
    (¬toc.Clean r.2.first_bad_lba ∨
      ∃ u, track_at toc r.2.first_bad_lba = some u ∧ u.session ≠ ses))

theorem range_walk_beside (haud : P.is_audio = true) (hstop : stop ≤ toc.leadout_lba) {ses : BitVec 8}
    (hs0 : ses ≠ 0) (hsP : ses ≠ P.session) : ∀ (fuel p : Nat) (r : Int × AccuRangeCheck), lba ≤ p →
    (∀ q, lba ≤ q → q < p → q < stop → toc.Clean q ∧ ∃ u, track_at toc q = some u ∧ u.session = ses) →
    range_walk toc stop fuel p ses = some r → BesideSays toc lba stop ses r := by
  intro fuel
  induction fuel with
  | zero => exact fun p r _ _ hr => by cases hr
  | succ fuel ih =>
    intro p r hle hw hr
    unfold range_walk at hr
    split at hr
    · rename_i hp
      have hpl : p < toc.leadout_lba := hp.trans_le hstop
      have hrefuse : ∀ reason a b, some (reject reason a b p) = some r →
          (¬toc.Clean p ∨ ∃ u, track_at toc p = some u ∧ u.session ≠ ses) →
            BesideSays toc lba stop ses r := by
        intro reason a b he hbad
        obtain rfl := Option.some.inj he
        exact .inr ⟨by simp [reject, ACCUDISC_ERR_UNSUPPORTED, ACCUDISC_OK], hle, hp,
          fun q h1 h2 => hw q h1 h2 (h2.trans hp), hbad⟩
      obtain ⟨t, ht⟩ := track_at_isSome h hP hpl
      obtain ⟨hm, hpt⟩ := track_at_spec h ht
      rw [ht] at hr
      simp only at hr
      split at hr
      · rename_i hdata
        exact hrefuse _ _ _ hr (.inl fun hc => hc t hm (by simpa using hdata) hpt)
      rename_i hta
      have hta : t.is_audio = true := by simpa using hta
      split at hr
      · rename_i hcross
        exact hrefuse _ _ _ hr (.inr ⟨t, ht, hcross.2⟩)
      · rename_i hcross
        have hts : t.session = ses := by
          by_contra hne
          exact hcross ⟨hs0, hne⟩
        have hne : t.sectors ≠ 0 := by
          rcases hP.other t hm p hpt hpl with rfl | ⟨hs, -⟩
          · exact absurd hts.symm hsP
          · exact hs
        rw [walk_next h hm hpt] at hr
        have hpend : p < t.lba + t.sectors := hpt.2
        refine ih _ _ (hle.trans hpend.le) (fun q h1 h2 h3 => ?_) hr
        rcases Nat.lt_or_ge q p with hq | hq
        · exact hw q h1 hq h3
        · have hqt : q ∈ t.full := ⟨hpt.1.trans hq, h2⟩
          exact ⟨clean_beside hP haud hm hne hta hqt (h3.trans_le hstop),
            t, track_at_beside h hP ht hne hpl hqt (h3.trans_le hstop), hts⟩
    · rename_i hp
      obtain rfl := Option.some.inj hr
      exact .inl ⟨rfl, fun q h1 h2 => hw q h1 (by omega) h2⟩

end

end Accudisc
