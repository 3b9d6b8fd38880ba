import Accudisc.Toc.Proof.Extents

/-!
# No hidden data track

The extents of a parsed TOC whose geometry is trusted. A cooked TOC is one session, so its first
track owns sectors and no two extents meet; the raw lead-in of several sessions can leave the first
track of session 1 past its lead-out, where its pregap still reaches back to 0.
-/

namespace Accudisc

/-! ## The cooked TOC -/

theorem be32_lt (p : Mem) : be32 p < 2 ^ 32 := by
  unfold be32
  have h (i : Nat) : (p i).toNat < 2 ^ 8 := (p i).isLt
  refine Nat.or_lt_two_pow (Nat.or_lt_two_pow (Nat.or_lt_two_pow ?_ ?_) ?_) ?_
  · rw [Nat.shiftLeft_eq]
    have := h 0
    omega
  · rw [Nat.shiftLeft_eq]
    have := h 1
    omega
  · rw [Nat.shiftLeft_eq]
    have := h 2
    omega
  · have := h 3
    omega

/-- What the descriptors can say. -/
structure TocScan.Ok (s : TocScan) : Prop where
  leadout : ∀ l ∈ s.leadout, l < 2 ^ 32
  track : ∀ t ∈ s.tracks, t.lba < 2 ^ 32 ∧ t.sectors = 0 ∧ t.pregap = 0 ∧ t.session = 0

theorem toc_descriptor_ok {s : TocScan} (h : s.Ok) (d : Mem) : (toc_descriptor s d).Ok := by
  unfold toc_descriptor
  simp only
  split
  · refine ⟨fun l hl => ?_, h.track⟩
    rw [← Option.some.inj hl]
    exact be32_lt _
  split
  · refine ⟨h.leadout, fun t ht => ?_⟩
    rcases List.mem_append.1 ht with ht | ht
    · exact h.track t ht
    · rw [List.mem_singleton.1 ht]
      exact ⟨be32_lt _, rfl, rfl, rfl⟩
  · exact h

theorem toc_place_raw {buf : Mem} {len : Nat} {out : AccuToc} (h : toc_place buf len = .ok out) :
    out.Raw ∧ out.sessions = [] ∧ ∀ t ∈ out.tracks, t.session = 0 := by
  unfold toc_place at h
  rw [check_eq_ok] at h
  have hok := Loop.foldl_range_inv (fun _ s => TocScan.Ok s) (f := fun s k =>
      toc_descriptor s (ptr buf (4 + 8 * k))) (n := (toc_end buf len - 4) / 8) (s := {})
    ⟨by simp, by simp⟩ fun i _ s hs => toc_descriptor_ok hs _
  simp only at h
  generalize (List.range ((toc_end buf len - 4) / 8)).foldl _ _ = scan at h hok
  cases hl : scan.leadout with
  | none => simp [hl] at h
  | some l =>
    simp only [hl, Except.ok.injEq] at h
    obtain ⟨-, rfl⟩ := h
    have ht := hok.track
    exact ⟨⟨fun t h => ⟨(ht t h).1, (ht t h).2.1, (ht t h).2.2.1⟩, by simp, hok.leadout l hl⟩, rfl,
      fun t h => (ht t h).2.2.2⟩

/-- The tracks of one session: none lies below the first. -/
theorem toc_place_swallows {buf : Mem} {len : Nat} {out : AccuToc} (h : toc_place buf len = .ok out) :
    ¬out.Swallows := by
  rintro ⟨i, t, hl, ht, -, b, hb, -, hlt⟩
  obtain ⟨-, -, hs⟩ := toc_place_raw h
  have hb1 : b.session ≤ 1 := by rw [hs b hb]; decide
  exact absurd hlt (Nat.not_lt.2 ((lowest_track_spec hl ht).2 b hb hb1))

/-! ## The raw lead-in -/

/-- What the entries can say. -/
structure FulltocScan.Ok (s : FulltocScan) : Prop where
  slot : ∀ n, ∀ t ∈ s.slot n, t.lba < 2 ^ 32 ∧ t.sectors = 0 ∧ t.pregap = 0
  sess : ∀ n, ∀ x ∈ s.sess n, x.leadout_lba < 2 ^ 32
  leadout : ∀ l ∈ s.leadout, l < 2 ^ 32

section
variable {s : FulltocScan} {e : FulltocEntry}

theorem msf_to_lba_lt (m s f : BitVec 8) : (accudisc_msf_to_lba m s f).toNat < 2 ^ 32 := by
  have hm := m.isLt
  have hs := s.isLt
  have hf := f.isLt
  unfold accudisc_msf_to_lba
  omega

theorem FulltocScan.Ok.setSess (h : s.Ok) (n : BitVec 8) {f : AccuSession → AccuSession}
    (hf : ∀ x : AccuSession, x.leadout_lba < 2 ^ 32 → (f x).leadout_lba < 2 ^ 32) : (s.setSess n f).Ok := by
  refine ⟨h.slot, fun k x hx => ?_, h.leadout⟩
  simp only [FulltocScan.setSess, Function.update_apply] at hx
  split at hx
  · obtain ⟨y, hy, rfl⟩ := Option.map_eq_some_iff.1 hx
    exact hf y (h.sess _ y hy)
  · exact h.sess k x hx

theorem fulltoc_session_ok (h : s.Ok) : (fulltoc_session s e).Ok := by
  unfold fulltoc_session
  simp only
  split
  · split
    · refine ⟨h.slot, fun k x hx => ?_, h.leadout⟩
      simp only [Function.update_apply] at hx
      split at hx
      · rw [← Option.some.inj hx]
        exact Nat.two_pow_pos 32
      · exact h.sess k x hx
    · exact ⟨h.slot, h.sess, h.leadout⟩
  · exact ⟨h.slot, h.sess, h.leadout⟩

theorem fulltoc_track_ok (h : s.Ok) {lba : Int} (hl : lba.toNat < 2 ^ 32) : (fulltoc_track s e lba).Ok := by
  unfold fulltoc_track
  split
  · exact ⟨h.slot, h.sess, h.leadout⟩
  split
  · exact h
  · refine ⟨fun k t ht => ?_, h.sess, h.leadout⟩
    simp only [Function.update_apply] at ht
    split at ht
    · rw [← Option.some.inj ht]
      exact ⟨hl, rfl, rfl⟩
    · exact h.slot k t ht

theorem fulltoc_a0_ok (h : s.Ok) : (fulltoc_a0 s e).Ok := by
  unfold fulltoc_a0
  split
  · exact ⟨h.slot, h.sess, h.leadout⟩
  split
  · have := h.setSess e.session (f := fun x => { x with first_track := e.pmin }) fun _ hx => hx
    exact ⟨this.slot, this.sess, this.leadout⟩
  · exact h

theorem fulltoc_a1_ok (h : s.Ok) : (fulltoc_a1 s e).Ok := by
  unfold fulltoc_a1
  split
  · exact ⟨h.slot, h.sess, h.leadout⟩
  split
  · have := h.setSess e.session (f := fun x => { x with last_track := e.pmin }) fun _ hx => hx
    exact ⟨this.slot, this.sess, this.leadout⟩
  · exact h

theorem fulltoc_a2_ok (h : s.Ok) {lba : Int} (hl : lba.toNat < 2 ^ 32) : (fulltoc_a2 s e lba).Ok := by
  have hs : ∀ s' : FulltocScan, s'.Ok → FulltocScan.Ok (if s'.leadout.isNone ∨ s'.last_session ≤ e.session
      then { s' with leadout := some lba.toNat } else s') := by
    intro s' h'
    split
    · refine ⟨h'.slot, h'.sess, fun l hl' => ?_⟩
      rw [← Option.some.inj hl']
      exact hl
    · exact h'
  unfold fulltoc_a2
  split
  · exact hs _ (h.setSess _ fun _ _ => hl)
  · exact hs _ h

theorem fulltoc_point_ok (h : s.Ok) (e : FulltocEntry) : (fulltoc_point s e).Ok := by
  have hl := msf_to_lba_lt e.pmin e.psec e.pframe
  have hs := fulltoc_session_ok (e := e) h
  unfold fulltoc_point
  simp only
  split
  · exact fulltoc_track_ok hs hl
  split
  · exact fulltoc_a0_ok hs
  split
  · exact fulltoc_a1_ok hs
  split
  · exact fulltoc_a2_ok hs hl
  · exact hs

theorem foldl_census (own : List AccuTrack) (x : AccuSession) :
    (own.foldl census x).leadout_lba = x.leadout_lba := by
  induction own generalizing x with
  | nil => rfl
  | cons t own ih =>
    rw [List.foldl_cons, ih]
    unfold census
    split <;> rfl

end

theorem fulltoc_place_raw {ft : AccuFulltoc} {out : AccuToc} {info : TocInfo}
    (h : fulltoc_place ft = .ok (out, info)) : out.Raw := by
  have hfold : ∀ (es : List FulltocEntry) (s : FulltocScan), s.Ok → (es.foldl fulltoc_point s).Ok := by
    intro es
    induction es with
    | nil => exact fun s hs => hs
    | cons e es ih => exact fun s hs => ih _ (fulltoc_point_ok hs e)
  have hok := hfold ft.entries {} ⟨by simp, by simp, by simp⟩
  unfold fulltoc_place at h
  simp only at h
  generalize ft.entries.foldl fulltoc_point {} = s at h hok
  split at h
  · rename_i l first last hl hf hla
    simp only [Except.ok.injEq, Prod.mk.injEq] at h
    obtain ⟨rfl, -⟩ := h
    refine ⟨fun t ht => ?_, fun x hx => ?_, hok.leadout l hl⟩
    · obtain ⟨n, -, hn⟩ := List.mem_filterMap.1 ht
      exact hok.slot n t hn
    · obtain ⟨n, -, hn⟩ := List.mem_filterMap.1 hx
      obtain ⟨y, hy, he⟩ := Option.bind_eq_some_iff.1 hn
      unfold session_entry at he
      split at he
      · cases he
      · rw [← Option.some.inj he]
        simp only [foldl_census]
        exact hok.sess n y hy
  · cases h

/-- The TOC of a parsed lead-in before its extents. -/
theorem from_fulltoc_place {ft : AccuFulltoc} {x : AccuToc × TocInfo}
    (h : adsc_toc_from_fulltoc ft = .ok x) :
    ∃ out, fulltoc_place ft = .ok (out, x.2) ∧ x.1 = toc_fill_extents out := by
  unfold adsc_toc_from_fulltoc at h
  cases hp : fulltoc_place ft with
  | error e =>
    rw [hp] at h
    cases h
  | ok y =>
    rw [hp] at h
    simp only [Except.map, Except.ok.injEq] at h
    subst h
    exact ⟨y.1, rfl, rfl⟩

/-! ## Hidden tracks -/

/-- **No track is hidden** in a trusted TOC: never in a cooked one, and in a lead-in's unless the
first track of session 1 owns no sector and lies above a track that does. -/
theorem toc_extents_apart (raw : Mem) (len : Nat) :
    (∀ toc : AccuToc, adsc_toc_parse raw len = .ok toc → toc.Trusted → toc.Apart ∧ toc.NoHiddenData) ∧
    ∀ (ft : AccuFulltoc) (x : AccuToc × TocInfo),
      accudisc_fulltoc_parse raw len = .ok ft → adsc_toc_from_fulltoc ft = .ok x → x.1.Trusted →
      (x.1.Apart ∧ x.1.NoHiddenData ↔ ∀ out, fulltoc_place ft = .ok (out, x.2) → ¬out.Swallows) := by
  constructor
  · intro toc h htr
    unfold adsc_toc_parse at h
    cases hp : toc_place raw len with
    | error e =>
      rw [hp] at h
      cases h
    | ok out =>
      rw [hp] at h
      simp only [Except.map, Except.ok.injEq] at h
      subst h
      have hap := (fill_apart_iff (toc_place_raw hp).1 htr).2 (toc_place_swallows hp)
      exact ⟨hap, hap.noHiddenData⟩
  · intro ft x _ h htr
    obtain ⟨out, hp, he⟩ := from_fulltoc_place h
    rw [he] at htr ⊢
    have hiff := fill_apart_iff (fulltoc_place_raw hp) htr
    constructor
    · rintro ⟨hap, -⟩ out' hp'
      rw [hp] at hp'
      simp only [Except.ok.injEq, Prod.mk.injEq, and_true] at hp'
      exact hp' ▸ hiff.1 hap
    · intro hns
      have hap := hiff.2 (hns out hp)
      exact ⟨hap, hap.noHiddenData⟩

/-- Two tracks of 256 sectors. -/
theorem toc_extents_apart_two :
    let toc : AccuToc :=
      { first_track := 1, last_track := 2, leadout_lba := 512
        tracks := [⟨1, 0x10, 0, 0, 256, 0⟩, ⟨2, 0x14, 0, 256, 256, 0⟩] }
    toc.Apart ∧ toc.NoHiddenData :=
  (toc_extents_apart
    (fun i => ([0, 26, 1, 2, 0, 0x10, 1, 0, 0, 0, 0, 0, 0, 0x14, 2, 0, 0, 0, 1, 0,
      0, 0x10, 0xAA, 0, 0, 0, 2, 0] : List (BitVec 8)).getD i 0) 28).1 _ (by decide +kernel)
    (by unfold AccuToc.Trusted; decide)

/-- A lead-in of two sessions: track 1 of session 1, audio, at 2000 and with no lead-out of its own;
track 2 of session 2, data, at 0, and that session's lead-out at 1000. -/
def swallowed_raw : Mem := fun i =>
  ([0, 35, 1, 2,
    1, 0x10, 0, 1, 0, 0, 0, 0, 0, 28, 50,
    2, 0x14, 0, 2, 0, 0, 0, 0, 0, 2, 0,
    2, 0x14, 0, 0xA2, 0, 0, 0, 0, 0, 15, 25] : List (BitVec 8)).getD i 0

def swallowed_fulltoc : AccuFulltoc :=
  ⟨1, 2, [⟨1, 0x10, 1, 0, 0, 0, 0, 28, 50⟩, ⟨2, 0x14, 2, 0, 0, 0, 0, 2, 0⟩,
    ⟨2, 0x14, 0xA2, 0, 0, 0, 0, 15, 25⟩]⟩

def swallowed_toc : AccuToc :=
  { first_track := 1
    last_track := 2
    leadout_lba := 1000
    tracks := [⟨1, 0x10, 1, 2000, 0, 2000⟩, ⟨2, 0x14, 2, 0, 1000, 0⟩]
    sessions := [⟨2, 2, 2, 0, 1, 1000⟩]
    anomalies := ACCUDISC_TOC_ANOM_PAST_LEADOUT ||| ACCUDISC_TOC_ANOM_EMPTY_TRACK }

theorem swallowed_parse : accudisc_fulltoc_parse swallowed_raw 37 = .ok swallowed_fulltoc := by
    decide +kernel

theorem swallowed_from : adsc_toc_from_fulltoc swallowed_fulltoc = .ok (swallowed_toc, ⟨1, 2, 0⟩) := by
  decide +kernel

/-- Sector 0 is in the data track, and in the pregap of the audio track, and nothing is flagged. -/
theorem swallowed_data :
    ¬∀ (raw : Mem) (len : Nat) (ft : AccuFulltoc) (x : AccuToc × TocInfo),
      accudisc_fulltoc_parse raw len = .ok ft → adsc_toc_from_fulltoc ft = .ok x → x.1.Trusted →
      x.1.Apart ∧ x.1.NoHiddenData := by
  intro h
  obtain ⟨-, hidden⟩ := h swallowed_raw 37 _ _ swallowed_parse swallowed_from
    (by unfold AccuToc.Trusted; decide)
  have := hidden ⟨2, 0x14, 2, 0, 1000, 0⟩ (by simp [swallowed_toc]) (by decide) (by decide)
    ⟨1, 0x10, 1, 2000, 0, 2000⟩ (by simp [swallowed_toc]) (by decide)
  exact Set.disjoint_left.1 this (show 0 ∈ Set.Ico _ _ from ⟨by decide, by decide⟩)
    (show 0 ∈ Set.Ico _ _ from ⟨by decide, by decide⟩)

end Accudisc
