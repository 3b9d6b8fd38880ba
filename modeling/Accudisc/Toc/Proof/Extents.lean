import Accudisc.Toc.Toc
import Mathlib.Order.CompletePartialOrder
import Mathlib.Order.Interval.Set.Disjoint

/-!
# The extents do not meet

What `toc_fill_extents` gives each track, and when two of a TOC whose geometry is trusted can share
a sector: only when the first track of session 1, with its pregap, owns no sector of its own.
-/

namespace Accudisc

/-- The sectors of a track, its pregap included. -/
def AccuTrack.full (t : AccuTrack) : Set Nat := Set.Ico (t.lba - t.pregap) (t.lba + t.sectors)

/-- No two tracks share a sector. -/
def AccuToc.Apart (toc : AccuToc) : Prop := toc.tracks.Pairwise fun a b => Disjoint a.full b.full

/-- No sector of a data track that owns any lies in an audio track. -/
def AccuToc.NoHiddenData (toc : AccuToc) : Prop :=
  ∀ d ∈ toc.tracks, d.is_audio = false → d.sectors ≠ 0 →
    ∀ a ∈ toc.tracks, a.is_audio = true → Disjoint d.full a.full

/-- No anomaly that makes the geometry untrusted. -/
def AccuToc.Trusted (toc : AccuToc) : Prop :=
  toc.anomalies &&& ACCUDISC_TOC_ANOM_UNTRUSTED_GEOMETRY = 0

/-- A TOC before its extents: addresses of 32 bits, and no extent yet. -/
structure AccuToc.Raw (out : AccuToc) : Prop where
  track : ∀ t ∈ out.tracks, t.lba < 2 ^ 32 ∧ t.sectors = 0 ∧ t.pregap = 0
  session : ∀ s ∈ out.sessions, s.leadout_lba < 2 ^ 32
  leadout : out.leadout_lba < 2 ^ 32

/-- A track that something follows: a track of its session, or its lead-out. -/
def AccuToc.Owns (out : AccuToc) (t : AccuTrack) : Prop :=
  (∃ u ∈ out.tracks, u.session = t.session ∧ t.lba < u.lba) ∨ t.lba < session_leadout out t.session

/-- The first track of session 1 owns nothing, and its pregap reaches over a track that does. -/
def AccuToc.Swallows (out : AccuToc) : Prop :=
  ∃ i t, lowest_track out.tracks = some i ∧ out.tracks[i]? = some t ∧ ¬out.Owns t ∧
    ∃ b ∈ out.tracks, out.Owns b ∧ b.lba < t.lba

section
variable {out : AccuToc} {t a b : AccuTrack} {i j : Nat}

/-! ## The fields that are filled in -/

theorem sub32_of_le {m n : Nat} (h : n ≤ m) (hm : m < 2 ^ 32) : sub32 m n = m - n := by
  unfold sub32
  rw [Nat.mod_eq_of_lt (h.trans_lt hm)]
  omega

theorem session_leadout_lt (h : out.Raw) (n : BitVec 8) : session_leadout out n < 2 ^ 32 := by
  unfold session_leadout
  split
  · rename_i s hs
    exact h.session s (List.mem_of_find?_eq_some hs)
  · exact h.leadout

/-- What a track runs to. -/
theorem track_next_spec (out : AccuToc) (t : AccuTrack) :
    (∃ u ∈ out.tracks, u.session = t.session ∧ t.lba < u.lba ∧ track_next out t = u.lba) ∨
    (∀ u ∈ out.tracks, u.session = t.session → u.lba ≤ t.lba) ∧
      track_next out t = session_leadout out t.session := by
  have hmin := Loop.firstMin_spec (fun u : AccuTrack => u.session = t.session ∧ t.lba < u.lba) (·.lba)
    out.tracks
  unfold track_next next_by_address
  cases hf : Loop.firstMin (fun u : AccuTrack => u.session = t.session ∧ t.lba < u.lba) (·.lba)
      out.tracks with
  | none =>
    rw [hf] at hmin
    refine .inr ⟨fun u hu hs => ?_, rfl⟩
    have := hmin u hu
    simp only [decide_eq_false_iff_not, not_and, Nat.not_lt] at this
    exact this hs
  | some u =>
    rw [hf] at hmin
    obtain ⟨hu, hp, -⟩ := hmin
    obtain ⟨hs, hl⟩ := of_decide_eq_true hp
    exact .inl ⟨u, hu, hs, hl, rfl⟩

theorem track_next_lt (h : out.Raw) (t : AccuTrack) : track_next out t < 2 ^ 32 := by
  rcases track_next_spec out t with ⟨u, hu, -, -, he⟩ | ⟨-, he⟩
  · rw [he]
    exact (h.track u hu).1
  · rw [he]
    exact session_leadout_lt h _

theorem owns_iff (out : AccuToc) (t : AccuTrack) : out.Owns t ↔ t.lba < track_next out t := by
  unfold AccuToc.Owns
  rcases track_next_spec out t with ⟨u, hu, hs, hl, he⟩ | ⟨hall, he⟩
  · rw [he]
    exact ⟨fun _ => hl, fun _ => .inl ⟨u, hu, hs, hl⟩⟩
  · rw [he]
    refine ⟨?_, .inr⟩
    rintro (⟨u, hu, hs, hl⟩ | h)
    · exact absurd hl (Nat.not_lt.2 (hall u hu hs))
    · exact h

/-- A track's sectors end where the next begins, in 32 bits. -/
theorem track_sectors_spec (h : out.Raw) (t : AccuTrack) :
    t.lba + track_sectors out t < 2 ^ 32 ∨ ¬out.Owns t ∧ track_sectors out t = 0 := by
  have hn := track_next_lt h t
  unfold track_sectors
  rw [owns_iff]
  split
  · rename_i hlt
    rw [sub32_of_le hlt.le hn]
    exact .inl (by omega)
  · rename_i hge
    exact .inr ⟨hge, rfl⟩

theorem track_sectors_ne_zero (h : out.Raw) (t : AccuTrack) : track_sectors out t ≠ 0 ↔ out.Owns t := by
  have hn := track_next_lt h t
  unfold track_sectors
  rw [owns_iff]
  split
  · rename_i hlt
    rw [sub32_of_le hlt.le hn]
    exact ⟨fun _ => hlt, fun _ => by omega⟩
  · rename_i hge
    exact ⟨fun h => absurd rfl h, fun h => absurd h hge⟩

/-- The track with its extent. -/
def filled (out : AccuToc) (i : Nat) (t : AccuTrack) : AccuTrack :=
  { t with
    sectors := track_sectors out t
    pregap := if lowest_track out.tracks = some i ∧ t.lba ≠ 0 then t.lba else t.pregap }

theorem lowest_track_sectors (f : AccuTrack → Nat) (tracks : List AccuTrack) :
    lowest_track (tracks.map fun t => { t with sectors := f t }) = lowest_track tracks := by
  unfold lowest_track
  rw [List.length_map]
  refine Loop.firstMin_congr (fun i _ => ?_) fun i _ => ?_ <;>
    cases h : tracks[i]? <;> simp [h]

theorem fill_getElem? (out : AccuToc) (i : Nat) :
    (toc_fill_extents out).tracks[i]? = out.tracks[i]?.map (filled out i) := by
  unfold toc_fill_extents fill_pregap
  simp only [lowest_track_sectors]
  cases hl : lowest_track out.tracks with
  | none => cases h : out.tracks[i]? <;> simp [filled, hl, h]
  | some k =>
    simp only [List.getElem?_modify, List.getElem?_map]
    cases out.tracks[i]? with
    | none => simp
    | some t =>
      by_cases hk : k = i
      · by_cases h0 : t.lba = 0 <;> simp [filled, hl, hk, h0]
      · simp [filled, hl, hk]

/-- The lowest track of the first session. -/
theorem lowest_track_spec (h : lowest_track out.tracks = some i) (ht : out.tracks[i]? = some t) :
    t.session ≤ 1 ∧ ∀ u ∈ out.tracks, u.session ≤ 1 → t.lba ≤ u.lba := by
  have hmin := Loop.firstMin_spec (fun i => out.tracks[i]?.any (·.session ≤ 1))
    (fun i => (out.tracks[i]?.map (·.lba)).getD 0) (List.range out.tracks.length)
  unfold lowest_track at h
  rw [h] at hmin
  obtain ⟨-, hp, hle⟩ := hmin
  simp only [ht, Option.any_some, decide_eq_true_eq, Option.map_some, Option.getD_some] at hp hle
  refine ⟨hp, fun u hu hs => ?_⟩
  obtain ⟨j, hj, rfl⟩ := List.mem_iff_getElem.1 hu
  have := hle j (List.mem_range.2 hj) (by simpa [List.getElem?_eq_getElem hj] using hs)
  simpa [List.getElem?_eq_getElem hj] using this

/-! ## Anomalies -/

theorem anomaly_and (found : Bool) (bit mask : Nat) (h : bit &&& mask ≠ 0) :
    anomaly found bit &&& mask = 0 ↔ found = false := by
  cases found <;> simp [anomaly, h]

/-- A trusted TOC: what its flags say. -/
theorem trusted_fill (h : (toc_fill_extents out).Trusted) :
    lba_order out = false ∧ leadout_before out = false ∧
      overlap (toc_fill_extents out).tracks = false := by
  unfold AccuToc.Trusted toc_fill_extents at h
  simp only [Nat.and_or_distrib_right, Nat.or_eq_zero_iff] at h
  obtain ⟨⟨⟨⟨⟨-, ho⟩, -⟩, -⟩, hb⟩, hv⟩ := h
  exact ⟨(anomaly_and _ _ _ (by decide)).1 ho, (anomaly_and _ _ _ (by decide)).1 hb,
    (anomaly_and _ _ _ (by decide)).1 hv⟩

/-! ## Extents of a filled TOC -/

variable (hraw : out.Raw)
include hraw

theorem pregap_of_ne (ht : out.tracks[i]? = some t) (h : lowest_track out.tracks ≠ some i) :
    (filled out i t).pregap = 0 := by
  have := (hraw.track t (List.mem_of_getElem? ht)).2.2
  simp [filled, h, this]

theorem pregap_of_eq (ht : out.tracks[i]? = some t) (h : lowest_track out.tracks = some i) :
    (filled out i t).pregap = t.lba := by
  have := (hraw.track t (List.mem_of_getElem? ht)).2.2
  by_cases h0 : t.lba = 0 <;> simp [filled, h, this, h0]

theorem pregap_le (ht : out.tracks[i]? = some t) : (filled out i t).pregap ≤ t.lba := by
  by_cases h : lowest_track out.tracks = some i
  · exact (pregap_of_eq hraw ht h).le
  · rw [pregap_of_ne hraw ht h]
    exact Nat.zero_le _

/-- Neither end of an extent wraps. -/
theorem extent_eq (ht : out.tracks[i]? = some t) :
    (filled out i t).start = (filled out i t).lba - (filled out i t).pregap ∧
      (filled out i t).stop = (filled out i t).lba + (filled out i t).sectors ∧
      (filled out i t).lba + (filled out i t).sectors < 2 ^ 32 := by
  have hlt := (hraw.track t (List.mem_of_getElem? ht)).1
  have hs : t.lba + track_sectors out t < 2 ^ 32 := by
    rcases track_sectors_spec hraw t with h | ⟨-, h⟩
    · exact h
    · rw [h]
      exact hlt
  exact ⟨sub32_of_le (pregap_le hraw ht) hlt, Nat.mod_eq_of_lt hs, hs⟩

/-- Two tracks that own sectors do not meet, unless that is flagged. -/
theorem full_disjoint (hover : overlap (toc_fill_extents out).tracks = false)
    (ha : out.tracks[i]? = some a) (hb : out.tracks[j]? = some b) (hij : i < j)
    (hsa : (filled out i a).sectors ≠ 0) (hsb : (filled out j b).sectors ≠ 0) :
    Disjoint (filled out i a).full (filled out j b).full := by
  have hfa : (toc_fill_extents out).tracks[i]? = some (filled out i a) := by rw [fill_getElem?, ha]; rfl
  have hfb : (toc_fill_extents out).tracks[j]? = some (filled out j b) := by rw [fill_getElem?, hb]; rfl
  obtain ⟨ha1, ha2, -⟩ := extent_eq hraw ha
  obtain ⟨hb1, hb2, -⟩ := extent_eq hraw hb
  have hi : i < (toc_fill_extents out).tracks.length := (List.getElem?_eq_some_iff.1 hfa).1
  have hmem : filled out j b ∈ (toc_fill_extents out).tracks.drop (i + 1) := by
    refine List.mem_iff_getElem?.2 ⟨j - (i + 1), ?_⟩
    rw [List.getElem?_drop, Nat.add_sub_cancel' hij, hfb]
  unfold overlap at hover
  have hrow := List.any_eq_false.1 hover i (List.mem_range.2 hi)
  simp only [hfa, Bool.and_eq_true, decide_eq_true_eq, not_and, Bool.not_eq_true,
    List.any_eq_false] at hrow
  have hcell := hrow hsa _ hmem hsb
  rw [ha1, ha2, hb1, hb2] at hcell
  unfold AccuTrack.full
  rw [Set.Ico_disjoint_Ico]
  omega

/-- **The extents meet only under the pregap of a first track that owns nothing.** -/
theorem fill_apart_iff (htr : (toc_fill_extents out).Trusted) :
    (toc_fill_extents out).Apart ↔ ¬out.Swallows := by
  obtain ⟨-, -, hover⟩ := trusted_fill htr
  have hget : ∀ k (hk : k < (toc_fill_extents out).tracks.length), ∃ t, out.tracks[k]? = some t ∧
      (toc_fill_extents out).tracks[k] = filled out k t := by
    intro k hk
    have h := fill_getElem? out k
    rw [List.getElem?_eq_getElem hk] at h
    cases ht : out.tracks[k]? with
    | none => simp [ht] at h
    | some t => exact ⟨t, rfl, by simpa [ht] using h⟩
  have howns : ∀ k (t : AccuTrack), (filled out k t).sectors ≠ 0 ↔ out.Owns t := fun k t =>
    track_sectors_ne_zero hraw t
  constructor
  · rintro h ⟨i, t, hl, ht, hown, b, hb, hbo, hlt⟩
    obtain ⟨j, hj⟩ := List.mem_iff_getElem?.1 hb
    have hij : i ≠ j := by
      rintro rfl
      rw [ht] at hj
      exact hown (Option.some.inj hj ▸ hbo)
    have hmt : b.lba ∈ (filled out i t).full := by
      refine ⟨?_, Nat.lt_of_lt_of_le hlt (Nat.le_add_right _ _)⟩
      rw [pregap_of_eq hraw ht hl]
      exact (Nat.sub_self t.lba).le.trans (Nat.zero_le _)
    have hmb : b.lba ∈ (filled out j b).full :=
      ⟨Nat.sub_le _ _, Nat.lt_add_of_pos_right (Nat.pos_of_ne_zero ((howns j b).2 hbo))⟩
    have hft : (toc_fill_extents out).tracks[i]? = some (filled out i t) := by rw [fill_getElem?, ht]; rfl
    have hfb : (toc_fill_extents out).tracks[j]? = some (filled out j b) := by rw [fill_getElem?, hj]; rfl
    obtain ⟨hi', het⟩ := List.getElem?_eq_some_iff.1 hft
    obtain ⟨hj', heb⟩ := List.getElem?_eq_some_iff.1 hfb
    have hp := List.pairwise_iff_getElem.1 h
    rcases Nat.lt_or_gt_of_ne hij with hlt' | hlt'
    · have := hp i j hi' hj' hlt'
      rw [het, heb] at this
      exact Set.disjoint_left.1 this hmt hmb
    · have := hp j i hj' hi' hlt'
      rw [het, heb] at this
      exact Set.disjoint_left.1 this hmb hmt
  · intro hsw
    refine List.pairwise_iff_getElem.2 fun i j hi hj hij => ?_
    obtain ⟨a, ha, hea⟩ := hget i hi
    obtain ⟨b, hb, heb⟩ := hget j hj
    rw [hea, heb]
    -- a track that owns nothing has no sector, but for the pregap of the first
    have hempty : ∀ k l (x y : AccuTrack), k ≠ l → out.tracks[k]? = some x → out.tracks[l]? = some y →
        (filled out k x).sectors = 0 → Disjoint (filled out k x).full (filled out l y).full := by
      intro k l x y hkl hx hy hs
      have hnx : ¬out.Owns x := fun h => (howns k x).2 h hs
      unfold AccuTrack.full
      rw [Set.Ico_disjoint_Ico]
      by_cases hk : lowest_track out.tracks = some k
      · have hl : lowest_track out.tracks ≠ some l := fun h => hkl (Option.some.inj (hk.symm.trans h))
        have hpl := pregap_of_ne hraw hy hl
        by_cases hys : (filled out l y).sectors = 0
        · simp only [hys, hpl, Nat.add_zero, Nat.sub_zero]
          exact (min_le_right _ _).trans (le_max_right _ _)
        · have hge : x.lba ≤ y.lba := Nat.not_lt.1 fun hlt =>
            hsw ⟨k, x, hk, hx, hnx, y, List.mem_of_getElem? hy, (howns l y).1 hys, hlt⟩
          rw [hs, hpl]
          exact (min_le_left _ _).trans (hge.trans (le_max_right _ _))
      · rw [hs, pregap_of_ne hraw hx hk]
        exact (min_le_left _ _).trans (le_max_left _ _)
    by_cases hsa : (filled out i a).sectors = 0
    · exact hempty i j a b hij.ne ha hb hsa
    by_cases hsb : (filled out j b).sectors = 0
    · exact (hempty j i b a hij.ne' hb ha hsb).symm
    · exact full_disjoint hraw hover ha hb hij hsa hsb

omit hraw in
/-- Where no two tracks share a sector, no data track is hidden. -/
theorem AccuToc.Apart.noHiddenData {toc : AccuToc} (h : toc.Apart) : toc.NoHiddenData := by
  intro d hd hda hds a ha haa
  obtain ⟨i, hi, rfl⟩ := List.mem_iff_getElem.1 hd
  obtain ⟨j, hj, rfl⟩ := List.mem_iff_getElem.1 ha
  have hp := List.pairwise_iff_getElem.1 h
  rcases Nat.lt_trichotomy i j with hij | rfl | hij
  · exact hp i j hi hj hij
  · rw [hda] at haa
    cases haa
  · exact (hp j i hj hi hij).symm

end

end Accudisc
