import Accudisc.Toc.Proof.AudioRange

/-!
# The guard on the TOCs that the parsers produce
-/

namespace Accudisc

/-- A TOC of one of the three sources. -/
inductive AccuToc.Produced : AccuToc → Prop where
  | parse {buf : Mem} {len : Nat} {toc : AccuToc} (h : adsc_toc_parse buf len = .ok toc) : Produced toc
  | fulltoc {ft : AccuFulltoc} {x : AccuToc × TocInfo} (h : adsc_toc_from_fulltoc ft = .ok x) : Produced x.1
  | src {full cooked info : Answer} {x : AccuToc × TocSrcInfo}
      (h : accudisc_read_toc_src full cooked info = .ok x) : Produced x.1

/-- The extents of `toc` are those of a TOC `out` before its extents; the sessions of a cooked TOC
may have been filled in since. -/
structure AccuToc.FilledFrom (toc out : AccuToc) : Prop where
  raw : out.Raw
  leadout : toc.leadout_lba = out.leadout_lba
  anomalies : toc.anomalies = (toc_fill_extents out).anomalies
  tracks : toc.tracks = (toc_fill_extents out).tracks ∨
    ¬out.Swallows ∧ toc.tracks = (toc_fill_extents out).tracks.map fun t => { t with session := 1 }

section
variable {toc out : AccuToc}

theorem AccuToc.FilledFrom.sane (h : toc.FilledFrom out) : toc.Sane := by
  have hfill : ∀ t ∈ (toc_fill_extents out).tracks,
      t.lba < 2 ^ 32 ∧ t.pregap ≤ t.lba ∧ t.lba + t.sectors < 2 ^ 32 := by
    intro t ht
    obtain ⟨i, hi⟩ := List.mem_iff_getElem?.1 ht
    rw [fill_getElem?] at hi
    obtain ⟨u, hu, rfl⟩ := Option.map_eq_some_iff.1 hi
    exact ⟨(h.raw.track u (List.mem_of_getElem? hu)).1, pregap_le h.raw hu, (extent_eq h.raw hu).2.2⟩
  refine ⟨fun t ht => ?_, h.leadout ▸ h.raw.leadout⟩
  rcases h.tracks with he | ⟨-, he⟩
  · exact hfill t (he ▸ ht)
  · rw [he] at ht
    obtain ⟨u, hu, rfl⟩ := List.mem_map.1 ht
    exact hfill u hu

theorem AccuToc.FilledFrom.trusted_iff (h : toc.FilledFrom out) :
    toc.Trusted ↔ (toc_fill_extents out).Trusted := by
  unfold AccuToc.Trusted
  rw [h.anomalies]

theorem AccuToc.FilledFrom.apart_iff (h : toc.FilledFrom out) (htr : toc.Trusted) :
    toc.Apart ↔ ¬out.Swallows := by
  rw [← fill_apart_iff h.raw (h.trusted_iff.1 htr)]
  unfold AccuToc.Apart
  rcases h.tracks with he | ⟨-, he⟩
  · rw [he]
  · rw [he, List.pairwise_map]
    rfl

theorem filled_of_parse {buf : Mem} {len : Nat} (h : adsc_toc_parse buf len = .ok toc) :
    ∃ out, toc = toc_fill_extents out ∧ out.Raw ∧ ¬out.Swallows := by
  unfold adsc_toc_parse at h
  cases hp : toc_place buf len with
  | error e =>
    rw [hp] at h
    cases h
  | ok out =>
    rw [hp] at h
    simp only [Except.map, Except.ok.injEq] at h
    exact ⟨out, h.symm, (toc_place_raw hp).1, toc_place_swallows hp⟩

theorem filled_of_fulltoc {ft : AccuFulltoc} {x : AccuToc × TocInfo}
    (h : adsc_toc_from_fulltoc ft = .ok x) :
    x.1.FilledFrom (match fulltoc_place ft with | .ok y => y.1 | .error _ => {}) := by
  obtain ⟨out, hp, he⟩ := from_fulltoc_place h
  rw [hp, he]
  exact ⟨fulltoc_place_raw hp, rfl, rfl, .inl rfl⟩

theorem filled_of_degraded {cooked info : Answer} {d : TocDegrade} {e : Int} {x : AccuToc × TocSrcInfo}
    (h : read_toc_degraded cooked info d e = .ok x) : ∃ out, x.1.FilledFrom out := by
  unfold read_toc_degraded accudisc_read_toc at h
  cases hc : cooked with
  | error rc =>
    rw [hc] at h
    cases h
  | ok y =>
    rw [hc] at h
    simp only [Except.bind] at h
    cases hp : adsc_toc_parse y.1 y.2 with
    | error rc =>
      rw [hp] at h
      cases h
    | ok toc =>
      rw [hp] at h
      simp only [Except.map, Except.ok.injEq] at h
      obtain ⟨out, rfl, hraw, hns⟩ := filled_of_parse hp
      subst h
      refine ⟨out, ?_⟩
      split
      · exact ⟨hraw, rfl, rfl, .inr ⟨hns, rfl⟩⟩
      · exact ⟨hraw, rfl, rfl, .inl rfl⟩

theorem AccuToc.Produced.filled (h : toc.Produced) : ∃ out, toc.FilledFrom out := by
  cases h with
  | parse h =>
    obtain ⟨out, rfl, hraw, -⟩ := filled_of_parse h
    exact ⟨out, hraw, rfl, rfl, .inl rfl⟩
  | fulltoc h => exact ⟨_, filled_of_fulltoc h⟩
  | @src full cooked info x h =>
    unfold accudisc_read_toc_src at h
    cases hf : full with
    | error rc =>
      rw [hf] at h
      exact filled_of_degraded h
    | ok raw =>
      obtain ⟨raw, len⟩ := raw
      rw [hf] at h
      simp only at h
      cases hp : (accudisc_fulltoc_parse raw len).bind adsc_toc_from_fulltoc with
      | error prc =>
        rw [hp] at h
        exact filled_of_degraded h
      | ok y =>
        rw [hp] at h
        simp only [Except.ok.injEq] at h
        subst h
        cases hq : accudisc_fulltoc_parse raw len with
        | error e =>
          rw [hq] at hp
          cases hp
        | ok ft =>
          rw [hq] at hp
          have hfl := filled_of_fulltoc (x := y) hp
          exact ⟨_, hfl.raw, hfl.leadout, hfl.anomalies, hfl.tracks⟩

end

end Accudisc
