import Accudisc.Toc.Proof.Produced
import Accudisc.Toc.Range

/-!
# Ranges by name, without wrap-around

The extents of a produced TOC are `Sane`, so the end of a range does not wrap; its start is below its end
where the function looks. `accudisc_toc_session_audio_range` does not look, and the last audio track of a
session can lie below the first.
-/

namespace Accudisc

/-- A range of at least a sector below 2 ^ 32, that ends at `stop`. -/
def RangeTo (r : Nat × Nat) (stop : Nat) : Prop := 1 ≤ r.2 ∧ r.1 + r.2 < 2 ^ 32 ∧ r.1 + r.2 = stop

/-- The first and the last audio track of a session that the table has, in the order of the tracks. -/
def first_audio (toc : AccuToc) (session : BitVec 8) : Option AccuTrack :=
  toc.tracks.find? fun t => t.session = session ∧ t.is_audio = true

def last_audio (toc : AccuToc) (session : BitVec 8) : Option AccuTrack :=
  toc.tracks.findRev? fun t => t.session = session ∧ t.is_audio = true

/-- The audio of the session is one run of the track numbers whose last track has sectors, and that track
lies below the first. -/
def AudioDescends (toc : AccuToc) (session : BitVec 8) : Prop :=
  (find_session toc session).isSome ∧ (∃ s, toc.tracks.foldlM (audio_span_track session) {} = .ok s) ∧
    ∃ a b, first_audio toc session = some a ∧ last_audio toc session = some b ∧
      b.sectors ≠ 0 ∧ b.lba < a.lba

/-! ## The session table -/

section
variable {s : FulltocScan} {e : FulltocEntry}

/-- The accumulators are kept by number. -/
def FulltocScan.Numbered (s : FulltocScan) : Prop := ∀ n, ∀ x ∈ s.sess n, x.number.toNat = n

theorem FulltocScan.Numbered.setSess (h : s.Numbered) (n : BitVec 8) {f : AccuSession → AccuSession}
    (hf : ∀ x, (f x).number = x.number) : (s.setSess n f).Numbered := by
  intro k x hx
  simp only [FulltocScan.setSess, Function.update_apply] at hx
  split at hx
  · rename_i hk
    obtain ⟨y, hy, rfl⟩ := Option.map_eq_some_iff.1 hx
    rw [hf, h _ y hy, hk]
  · exact h k x hx

theorem fulltoc_session_numbered (h : s.Numbered) : (fulltoc_session s e).Numbered := by
  unfold fulltoc_session
  simp only
  split
  · split
    · intro k x hx
      simp only [Function.update_apply] at hx
      split at hx
      · rename_i hk
        rw [← Option.some.inj hx]
        exact hk.symm
      · exact h k x hx
    · exact h
  · exact h

theorem fulltoc_point_numbered (h : s.Numbered) (e : FulltocEntry) : (fulltoc_point s e).Numbered := by
  have hs := fulltoc_session_numbered (e := e) h
  unfold fulltoc_point
  simp only
  split
  · unfold fulltoc_track
    split
    · exact hs
    split
    · exact hs
    · exact hs
  split
  · unfold fulltoc_a0
    split
    · exact hs
    split
    · exact hs.setSess e.session (f := fun x => { x with first_track := e.pmin }) fun _ => rfl
    · exact hs
  split
  · unfold fulltoc_a1
    split
    · exact hs
    split
    · exact hs.setSess e.session (f := fun x => { x with last_track := e.pmin }) fun _ => rfl
    · exact hs
  split
  · unfold fulltoc_a2
    split
    · simp only []
      split
      · exact hs.setSess e.session fun _ => rfl
      · exact hs.setSess e.session fun _ => rfl
    · simp only []
      split
      · exact hs
      · exact hs
  · exact hs

theorem foldl_census_number (own : List AccuTrack) (x : AccuSession) :
    (own.foldl census x).number = x.number := by
  induction own generalizing x with
  | nil => rfl
  | cons t own ih =>
    rw [List.foldl_cons, ih]
    unfold census
    split <;> rfl

end

/-- The sessions of a table: numbered from 1, their lead-outs of 32 bits. -/
def AccuToc.Tabled (toc : AccuToc) : Prop := ∀ s ∈ toc.sessions, s.number ≠ 0 ∧ s.leadout_lba < 2 ^ 32

theorem fulltoc_place_tabled {ft : AccuFulltoc} {out : AccuToc} {info : TocInfo}
    (h : fulltoc_place ft = .ok (out, info)) : out.Tabled := by
  intro x hx
  refine ⟨?_, (fulltoc_place_raw h).session x hx⟩
  have hfold : ∀ (es : List FulltocEntry) (s : FulltocScan), s.Numbered →
    (es.foldl fulltoc_point s).Numbered := by
    intro es
    induction es with
    | nil => exact fun s hs => hs
    | cons e es ih => exact fun s hs => ih _ (fulltoc_point_numbered hs e)
  have hnum := hfold ft.entries {} (by intro n x hx; cases hx)
  unfold fulltoc_place at h
  simp only at h
  generalize ft.entries.foldl fulltoc_point {} = s at h hnum
  split at h
  · simp only [Except.ok.injEq, Prod.mk.injEq] at h
    obtain ⟨rfl, -⟩ := h
    obtain ⟨n, hn, hx⟩ := List.mem_filterMap.1 hx
    obtain ⟨y, hy, he⟩ := Option.bind_eq_some_iff.1 hx
    have hy' := hnum n y hy
    unfold session_entry at he
    split at he
    · cases he
    · rw [← Option.some.inj he]
      simp only [foldl_census_number]
      intro h0
      rw [h0] at hy'
      have := (List.mem_range'_1.1 hn).1
      simp at hy'
      omega
  · cases h

theorem parse_place {buf : Mem} {len : Nat} {toc : AccuToc} (h : adsc_toc_parse buf len = .ok toc) :
    ∃ out, toc_place buf len = .ok out ∧ toc = toc_fill_extents out := by
  unfold adsc_toc_parse at h
  cases hq : toc_place buf len with
  | error rc =>
    rw [hq] at h
    cases h
  | ok out =>
    rw [hq] at h
    cases h
    exact ⟨out, rfl, rfl⟩

theorem parse_sessions {buf : Mem} {len : Nat} {toc : AccuToc} (h : adsc_toc_parse buf len = .ok toc) :
    toc.sessions = [] ∧ toc.leadout_lba < 2 ^ 32 := by
  obtain ⟨out, hq, rfl⟩ := parse_place h
  exact ⟨(toc_place_raw hq).2.1, (toc_place_raw hq).1.leadout⟩

theorem degraded_tabled {cooked info : Answer} {d : TocDegrade} {e : Int} {x : AccuToc × TocSrcInfo}
    (h : read_toc_degraded cooked info d e = .ok x) : x.1.Tabled := by
  unfold read_toc_degraded accudisc_read_toc at h
  cases hc : cooked with
  | error rc =>
    rw [hc] at h
    cases h
  | ok y =>
    rw [hc] at h
    simp only [Except.bind] at h
    cases hp : adsc_toc_parse y.1 y.2 with
    | error rc =>
      rw [hp] at h
      cases h
    | ok toc =>
      rw [hp] at h
      simp only [Except.map, Except.ok.injEq] at h
      obtain ⟨hsess, hlead⟩ := parse_sessions hp
      subst h
      intro s hs
      split at hs
      · rw [List.mem_singleton.1 hs, foldl_census_number, foldl_census]
        exact ⟨(by decide : (1 : BitVec 8) ≠ 0), hlead⟩
      · have hs' : s ∈ toc.sessions := hs
        rw [hsess] at hs'
        cases hs'

theorem fulltoc_tabled {ft : AccuFulltoc} {x : AccuToc × TocInfo} (h : adsc_toc_from_fulltoc ft = .ok x) :
    x.1.Tabled := by
  obtain ⟨out, hp, he⟩ := from_fulltoc_place h
  rw [he]
  intro s hs
  exact fulltoc_place_tabled hp s hs

/-- **The session table** of a produced TOC. -/
theorem AccuToc.Produced.tabled {toc : AccuToc} (h : toc.Produced) : toc.Tabled := by
  cases h with
  | parse hp =>
    intro s hs
    rw [(parse_sessions hp).1] at hs
    cases hs
  | fulltoc hx => exact fulltoc_tabled hx
  | @src full cooked info x hx =>
    unfold accudisc_read_toc_src at hx
    cases hf : full with
    | error rc =>
      rw [hf] at hx
      exact degraded_tabled hx
    | ok raw =>
      obtain ⟨raw, len⟩ := raw
      rw [hf] at hx
      simp only at hx
      cases hp : (accudisc_fulltoc_parse raw len).bind adsc_toc_from_fulltoc with
      | error prc =>
        rw [hp] at hx
        exact degraded_tabled hx
      | ok y =>
        rw [hp] at hx
        simp only [Except.ok.injEq] at hx
        subst hx
        cases hq : accudisc_fulltoc_parse raw len with
        | error e =>
          rw [hq] at hp
          cases hp
        | ok ft =>
          rw [hq] at hp
          exact fulltoc_tabled (x := y) hp

/-! ## The ranges -/

section
variable {toc : AccuToc} {session first last : BitVec 8} {t a b : AccuTrack}

/-- What the walk over the tracks keeps. -/
theorem audio_span_run {tracks : List AccuTrack} {s : AudioSpan}
    (h : tracks.foldlM (audio_span_track session) {} = .ok s) :
    s.first = tracks.find? (fun t => t.session = session ∧ t.is_audio = true) ∧
      s.last = tracks.findRev? (fun t => t.session = session ∧ t.is_audio = true) := by
  have hrun : ∀ (tracks : List AccuTrack) (s0 s : AudioSpan),
      tracks.foldlM (audio_span_track session) s0 = .ok s →
      s.first = s0.first.or (tracks.find? (fun t => t.session = session ∧ t.is_audio = true)) ∧
        s.last = (tracks.findRev? (fun t => t.session = session ∧ t.is_audio = true)).or s0.last := by
    intro tracks
    induction tracks with
    | nil =>
      intro s0 s h
      cases h
      simp [List.findRev?]
    | cons t tracks ih =>
      intro s0 s h
      simp only [List.foldlM_cons, bind, Except.bind] at h
      cases hs : audio_span_track session s0 t with
      | error rc =>
        rw [hs] at h
        cases h
      | ok s1 =>
        rw [hs] at h
        obtain ⟨h1, h2⟩ := ih s1 s h
        unfold audio_span_track at hs
        by_cases hses : t.session = session
        · rw [if_neg (not_not.2 hses)] at hs
          cases haud : t.is_audio with
          | false =>
            simp only [haud, Bool.not_false, if_true] at hs
            split at hs
            · cases hs
            · cases hs
              rw [h1, h2, List.find?_cons_of_neg (by simp [haud])]
              refine ⟨rfl, ?_⟩
              simp only [List.findRev?]
              cases tracks.findRev? (fun t => t.session = session ∧ t.is_audio = true) with
              | none => simp [haud]
              | some u => rfl
          | true =>
            simp only [haud, Bool.not_true, Bool.false_eq_true, if_false] at hs
            cases hs
            rw [h1, h2]
            constructor
            · rw [List.find?_cons_of_pos (by simp [hses, haud])]
              cases s0.first <;> rfl
            · simp only [List.findRev?]
              cases tracks.findRev? (fun t => t.session = session ∧ t.is_audio = true) with
              | none => simp [hses, haud]
              | some u => rfl
        · rw [if_pos hses] at hs
          cases hs
          rw [h1, h2, List.find?_cons_of_neg (by simp [hses])]
          refine ⟨rfl, ?_⟩
          simp only [List.findRev?]
          cases tracks.findRev? (fun t => t.session = session ∧ t.is_audio = true) with
          | none => simp [hses]
          | some u => rfl
  obtain ⟨h1, h2⟩ := hrun tracks {} s h
  refine ⟨h1, ?_⟩
  rw [h2]
  cases tracks.findRev? (fun t => t.session = session ∧ t.is_audio = true) <;> rfl

/-- In one session, a track ends before any above it, and only the lowest has a pregap. -/
def AccuToc.Ordered (toc : AccuToc) : Prop :=
  ∀ a ∈ toc.tracks, ∀ b ∈ toc.tracks, a.session = b.session → b.lba < a.lba →
    b.lba + b.sectors ≤ a.lba ∧ a.pregap = 0

theorem track_next_le {out : AccuToc} {u : AccuTrack} (hu : u ∈ out.tracks) (hs : u.session = t.session)
    (hlt : t.lba < u.lba) : track_next out t ≤ u.lba := by
  have hmin := Loop.firstMin_spec (fun u : AccuTrack => u.session = t.session ∧ t.lba < u.lba)
    (·.lba) out.tracks
  unfold track_next next_by_address
  cases hf : Loop.firstMin (fun u : AccuTrack => u.session = t.session ∧ t.lba < u.lba)
    (·.lba) out.tracks with
  | none =>
    rw [hf] at hmin
    have := hmin u hu
    simp only [decide_eq_false_iff_not, not_and] at this
    exact absurd hlt (this hs)
  | some v =>
    rw [hf] at hmin
    exact hmin.2.2 u hu (decide_eq_true ⟨hs, hlt⟩)

theorem fill_ordered {out : AccuToc} (hraw : out.Raw) : (toc_fill_extents out).Ordered := by
  intro a ha b hb hs hlt
  obtain ⟨i, hi⟩ := List.mem_iff_getElem?.1 ha
  obtain ⟨j, hj⟩ := List.mem_iff_getElem?.1 hb
  rw [fill_getElem?] at hi hj
  obtain ⟨u, hu, rfl⟩ := Option.map_eq_some_iff.1 hi
  obtain ⟨v, hv, rfl⟩ := Option.map_eq_some_iff.1 hj
  have hlt' : v.lba < u.lba := hlt
  have hs' : u.session = v.session := hs
  have hnext := track_next_le (List.mem_of_getElem? hu) hs' hlt'
  constructor
  · show v.lba + track_sectors out v ≤ u.lba
    unfold track_sectors
    split
    · rename_i hown
      rw [sub32_of_le hown.le (track_next_lt hraw v)]
      omega
    · exact hlt'.le
  · refine pregap_of_ne hraw hu fun hlow => ?_
    obtain ⟨h1, hmin⟩ := lowest_track_spec hlow hu
    exact absurd hlt' (Nat.not_lt.2 (hmin v (List.mem_of_getElem? hv) (hs' ▸ h1)))

theorem parse_ordered {buf : Mem} {len : Nat} (h : adsc_toc_parse buf len = .ok toc) :
    toc.Ordered ∧ ∀ t ∈ toc.tracks, t.session = 0 := by
  obtain ⟨out, hq, rfl⟩ := parse_place h
  obtain ⟨hraw, -, hzero⟩ := toc_place_raw hq
  refine ⟨fill_ordered hraw, fun t ht => ?_⟩
  obtain ⟨i, hi⟩ := List.mem_iff_getElem?.1 ht
  rw [fill_getElem?] at hi
  obtain ⟨u, hu, rfl⟩ := Option.map_eq_some_iff.1 hi
  exact hzero u (List.mem_of_getElem? hu)

theorem degraded_ordered {cooked info : Answer} {d : TocDegrade} {e : Int} {x : AccuToc × TocSrcInfo}
    (h : read_toc_degraded cooked info d e = .ok x) : x.1.Ordered := by
  unfold read_toc_degraded accudisc_read_toc at h
  cases hc : cooked with
  | error rc =>
    rw [hc] at h
    cases h
  | ok y =>
    rw [hc] at h
    simp only [Except.bind] at h
    cases hp : adsc_toc_parse y.1 y.2 with
    | error rc =>
      rw [hp] at h
      cases h
    | ok toc =>
      rw [hp] at h
      simp only [Except.map, Except.ok.injEq] at h
      obtain ⟨hord, hzero⟩ := parse_ordered hp
      subst h
      split
      · intro a ha b hb _ hlt
        obtain ⟨u, hu, rfl⟩ := List.mem_map.1 ha
        obtain ⟨v, hv, rfl⟩ := List.mem_map.1 hb
        exact hord u hu v hv ((hzero u hu).trans (hzero v hv).symm) hlt
      · exact hord

theorem fulltoc_ordered {ft : AccuFulltoc} {x : AccuToc × TocInfo} (h : adsc_toc_from_fulltoc ft = .ok x) :
    x.1.Ordered := by
  obtain ⟨out, hp, he⟩ := from_fulltoc_place h
  rw [he]
  exact fill_ordered (fulltoc_place_raw hp)

/-- **The tracks** of a produced TOC, session by session. -/
theorem AccuToc.Produced.ordered (h : toc.Produced) : toc.Ordered := by
  cases h with
  | parse hp => exact (parse_ordered hp).1
  | fulltoc hx => exact fulltoc_ordered hx
  | @src full cooked info x hx =>
    unfold accudisc_read_toc_src at hx
    cases hf : full with
    | error rc =>
      rw [hf] at hx
      exact degraded_ordered hx
    | ok raw =>
      obtain ⟨raw, len⟩ := raw
      rw [hf] at hx
      simp only at hx
      cases hp : (accudisc_fulltoc_parse raw len).bind adsc_toc_from_fulltoc with
      | error prc =>
        rw [hp] at hx
        exact degraded_ordered hx
      | ok y =>
        rw [hp] at hx
        simp only [Except.ok.injEq] at hx
        subst hx
        cases hq : accudisc_fulltoc_parse raw len with
        | error e =>
          rw [hq] at hp
          cases hp
        | ok ft =>
          rw [hq] at hp
          exact fulltoc_ordered (x := y) hp

/-- A span from a start below its end. -/
theorem rangeTo_sub {start stop : Nat} (h : start < stop) (hlt : stop < 2 ^ 32) :
    RangeTo (start, sub32 stop start) stop := by
  unfold RangeTo
  simp only [sub32_of_le h.le hlt]
  omega

theorem session_range_spec (htab : toc.Tabled) {r : Nat × Nat}
    (h : accudisc_toc_session_range toc session = .ok r) :
    ∃ s, find_session toc session = some s ∧ RangeTo r s.leadout_lba := by
  unfold accudisc_toc_session_range at h
  split at h
  · cases h
  · rename_i s hs
    split at h
    · cases h
    · rename_i start hstart
      split at h
      · cases h
      · rename_i hlt
        cases h
        have := (htab s (List.mem_of_find?_eq_some hs)).2
        exact ⟨s, hs, rangeTo_sub (by omega) this⟩

theorem track_numbered_spec {n : BitVec 8} (h : track_numbered toc n = some t) :
    t ∈ toc.tracks ∧ t.number = n := by
  unfold track_numbered at h
  rw [List.findRev?_eq_find?_reverse] at h
  have hn := List.find?_some h
  simp only [decide_eq_true_eq] at hn
  exact ⟨List.mem_reverse.1 (List.mem_of_find?_eq_some h), hn⟩

theorem track_range_spec (hsane : toc.Sane) {r : Nat × Nat}
    (h : accudisc_toc_track_range toc first last = .ok r) :
    ∃ a b, track_numbered toc first = some a ∧ track_numbered toc last = some b ∧
      r.1 = a.lba - a.pregap ∧ RangeTo r (b.lba + b.sectors) := by
  unfold accudisc_toc_track_range at h
  rw [check_eq_ok] at h
  obtain ⟨-, h⟩ := h
  split at h
  · rename_i a b ha hb
    rw [check_eq_ok, check_eq_ok] at h
    obtain ⟨-, hend, h⟩ := h
    obtain ⟨ha1, ha2, -⟩ := hsane.track a (track_numbered_spec ha).1
    obtain ⟨-, -, hb3⟩ := hsane.track b (track_numbered_spec hb).1
    have hu : u32 (b.lba + b.sectors) = b.lba + b.sectors := Nat.mod_eq_of_lt hb3
    rw [hu] at hend
    simp only [sub32_of_le ha2 ha1, hu] at h
    cases h
    exact ⟨a, b, ha, hb, rfl, rangeTo_sub (by omega) hb3⟩
  · cases h

/-- What the audio range is, whether or not it wraps. -/
theorem audio_range_spec (hsane : toc.Sane) {r : Nat × Nat}
    (h : accudisc_toc_session_audio_range toc session = .ok r) :
    (find_session toc session).isSome ∧ (∃ s, toc.tracks.foldlM (audio_span_track session) {} = .ok s) ∧
      ∃ a b, first_audio toc session = some a ∧ last_audio toc session = some b ∧ b.sectors ≠ 0 ∧
        r = (a.lba - a.pregap, sub32 (b.lba + b.sectors) (a.lba - a.pregap)) := by
  unfold accudisc_toc_session_audio_range at h
  cases hs : find_session toc session with
  | none =>
    rw [hs] at h
    cases h
  | some s =>
    rw [hs] at h
    simp only [] at h
    cases hf : toc.tracks.foldlM (audio_span_track session) {} with
    | error rc =>
      rw [hf] at h
      cases h
    | ok sp =>
      rw [hf] at h
      obtain ⟨hfst, hlst⟩ := audio_span_run hf
      obtain ⟨fst, lst⟩ := sp
      cases fst with
      | none => cases h
      | some a =>
        cases lst with
        | none => cases h
        | some b =>
          simp only [] at h
          rw [check_eq_ok] at h
          obtain ⟨hsec, h⟩ := h
          have ha : a ∈ toc.tracks := List.mem_of_find?_eq_some hfst.symm
          have hb : b ∈ toc.tracks := by
            have := hlst.symm
            rw [List.findRev?_eq_find?_reverse] at this
            exact List.mem_reverse.1 (List.mem_of_find?_eq_some this)
          obtain ⟨ha1, ha2, -⟩ := hsane.track a ha
          obtain ⟨-, -, hb3⟩ := hsane.track b hb
          rw [sub32_of_le ha2 ha1, show u32 (b.lba + b.sectors) = b.lba +
            b.sectors from Nat.mod_eq_of_lt hb3] at h
          cases h
          exact ⟨rfl, ⟨_, rfl⟩, a, b, hfst.symm, hlst.symm, hsec, rfl⟩

/-- The audio range is answered where its parts are there. -/
theorem audio_range_ok {a b : AccuTrack} (hs : (find_session toc session).isSome)
    (hf : ∃ s, toc.tracks.foldlM (audio_span_track session) {} = .ok s)
      (ha : first_audio toc session = some a)
    (hb : last_audio toc session = some b) (hsec : b.sectors ≠ 0) :
    ∃ r, accudisc_toc_session_audio_range toc session = .ok r := by
  obtain ⟨s, hs⟩ := Option.isSome_iff_exists.1 hs
  obtain ⟨sp, hf⟩ := hf
  obtain ⟨hfst, hlst⟩ := audio_span_run hf
  obtain ⟨fst, lst⟩ := sp
  have hfst' : fst = some a := hfst.trans ha
  have hlst' : lst = some b := hlst.trans hb
  rw [hfst', hlst'] at hf
  unfold accudisc_toc_session_audio_range
  rw [hs]
  simp only [hf]
  exact ⟨_, if_neg hsec⟩

theorem first_audio_spec (h : first_audio toc session = some a) : a ∈ toc.tracks ∧ a.session = session := by
  have hp := List.find?_some h
  simp only [decide_eq_true_eq] at hp
  exact ⟨List.mem_of_find?_eq_some h, hp.1⟩

theorem last_audio_spec (h : last_audio toc session = some b) : b ∈ toc.tracks ∧ b.session = session := by
  unfold last_audio at h
  rw [List.findRev?_eq_find?_reverse] at h
  have hp := List.find?_some h
  simp only [decide_eq_true_eq] at hp
  exact ⟨List.mem_reverse.1 (List.mem_of_find?_eq_some h), hp.1⟩

/-- **The audio range** does not wrap exactly where the last audio track is not below the first. -/
theorem audio_range_iff (hsane : toc.Sane) (hord : toc.Ordered) :
    (∀ r, accudisc_toc_session_audio_range toc session = .ok r →
      ∃ b, last_audio toc session = some b ∧ RangeTo r (b.lba + b.sectors)) ↔
        ¬AudioDescends toc session := by
  constructor
  · intro h hd
    obtain ⟨hs, hf, a, b, ha, hb, hsec, hlt⟩ := hd
    obtain ⟨r, hr⟩ := audio_range_ok hs hf ha hb hsec
    obtain ⟨b', hb', h1, h2, h3⟩ := h r hr
    rw [hb] at hb'
    cases hb'
    obtain ⟨-, -, a', b', ha', hlast, -, he⟩ := audio_range_spec hsane hr
    rw [ha] at ha'
    rw [hb] at hlast
    cases ha'
    cases hlast
    rw [he] at h1 h3
    obtain ⟨hstop, hpre⟩ := hord a (first_audio_spec ha).1 b (last_audio_spec hb).1
      ((first_audio_spec ha).2.trans (last_audio_spec hb).2.symm) hlt
    rw [hpre] at h1 h3
    simp only [] at h1 h3
    omega
  · intro hd r hr
    obtain ⟨hs, hf, a, b, ha, hb, hsec, rfl⟩ := audio_range_spec hsane hr
    refine ⟨b, hb, ?_⟩
    have hle : a.lba ≤ b.lba := by
      by_contra hlt
      exact hd ⟨hs, hf, a, b, ha, hb, hsec, by omega⟩
    obtain ⟨-, -, hb3⟩ := hsane.track b (last_audio_spec hb).1
    exact rangeTo_sub (by omega) hb3

end

/-- No range of the three functions wraps, and each ends where it should. -/
structure RangesRight (toc : AccuToc) (session first last : BitVec 8) : Prop where
  whole : ∀ r, accudisc_toc_session_range toc session = .ok r →
    ∃ s, find_session toc session = some s ∧ RangeTo r s.leadout_lba
  audio : ∀ r, accudisc_toc_session_audio_range toc session = .ok r →
    ∃ b, last_audio toc session = some b ∧ RangeTo r (b.lba + b.sectors)
  track : ∀ r, accudisc_toc_track_range toc first last = .ok r →
    ∃ b, track_numbered toc last = some b ∧ RangeTo r (b.lba + b.sectors)

/-- **The ranges** of a produced TOC are right exactly where the session's audio does not descend. -/
theorem toc_ranges_right_iff {toc : AccuToc} (h : toc.Produced) (session first last : BitVec 8) :
    RangesRight toc session first last ↔ ¬AudioDescends toc session := by
  obtain ⟨out, hfl⟩ := h.filled
  constructor
  · intro hr
    exact (audio_range_iff hfl.sane h.ordered).1 hr.audio
  · intro hd
    refine ⟨fun r hr => session_range_spec h.tabled hr,
      (audio_range_iff hfl.sane h.ordered).2 hd, fun r hr => ?_⟩
    obtain ⟨a, b, -, hb, -, hto⟩ := track_range_spec hfl.sane hr
    exact ⟨b, hb, hto⟩

/-- A lead-in whose tracks descend: 1 at LBA 1350, 2 at 600 and 3 at 0. -/
def descending_fulltoc : AccuFulltoc :=
  ⟨1, 1, [⟨1, 0x10, 0xa0, 0, 0, 0, 1, 0, 0⟩, ⟨1, 0x10, 0xa1, 0, 0, 0, 3, 0, 0⟩,
    ⟨1, 0x10, 0xa2, 0, 0, 0, 0, 30, 0⟩,
    ⟨1, 0x10, 1, 0, 0, 0, 0, 20, 0⟩, ⟨1, 0x10, 2, 0, 0, 0, 0, 10, 0⟩, ⟨1, 0x10, 3, 0, 0, 0, 0, 2, 0⟩]⟩

def descending_toc : AccuToc :=
  match adsc_toc_from_fulltoc descending_fulltoc with
  | .ok x => x.1
  | .error _ => {}

theorem descending_produced : descending_toc.Produced := by
  have h : ∃ x, adsc_toc_from_fulltoc descending_fulltoc = .ok x ∧ descending_toc = x.1 := by
    unfold descending_toc
    cases hx : adsc_toc_from_fulltoc descending_fulltoc with
    | ok x => exact ⟨x, rfl, rfl⟩
    | error e =>
      have : (adsc_toc_from_fulltoc descending_fulltoc).isOk = true := by decide +kernel
      rw [hx] at this
      cases this
  obtain ⟨x, hx, he⟩ := h
  rw [he]
  exact .fulltoc hx

theorem toc_ranges_right_iff_descending :
    RangesRight descending_toc 1 1 3 ↔ ¬AudioDescends descending_toc 1 :=
  toc_ranges_right_iff descending_produced 1 1 3

/-- The audio of that session is given as a span of nearly 2 ^ 32 sectors. -/
theorem session_audio_range_wraps :
    ¬∀ toc : AccuToc, toc.Produced → ∀ session first last, RangesRight toc session first last := by
  intro h
  have hr : accudisc_toc_session_audio_range descending_toc 1 = .ok (1350, 4294966546) := by decide +kernel
  obtain ⟨b, -, -, hlt, -⟩ := (h descending_toc descending_produced 1 1 3).audio _ hr
  exact absurd hlt (by decide)

end Accudisc
