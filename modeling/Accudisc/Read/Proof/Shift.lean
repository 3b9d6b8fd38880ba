import Accudisc.Read.Proof.Sector

/-!
# What the slip detector finds

`adsc_shift_find` tries every shift up to half a sector, but a shift of more than 278 samples forward takes
the anchor past the end of the second sector (`shift_at_iff`).
-/

namespace Accudisc

/-- A displacement that is not none, within half a sector. -/
def Near (d : Int) : Prop := d ≠ 0 ∧ d.natAbs ≤ 294

/-- The overlap of two sectors at a shift is byte-identical. -/
def SameOverlap (a b : Mem) (d : Int) : Prop :=
  ∀ i < 2352 - (4 * d).natAbs, a ((-(4 * d)).toNat + i) = b ((4 * d).toNat + i)

/-- The shift leaves the anchor inside the second sector. -/
def AnchorInside (d : Int) : Prop := d ≠ 0 ∧ -294 ≤ d ∧ d ≤ 278

/-- The detector does what it is for. -/
structure FindsSlips (a b : Mem) : Prop where
  found : (adsc_shift_find a b).isSome = true ↔ ∃ d, Near d ∧ SameOverlap a b d
  shift : ∀ d, adsc_shift_find a b = some d → Near d ∧ SameOverlap a b d

section
variable {a b : Mem} {d : Int}

theorem AnchorInside.near (h : AnchorInside d) : Near d := by
  obtain ⟨h0, hlo, hhi⟩ := h
  exact ⟨h0, by omega⟩

/-- The anchor is part of the overlap. -/
theorem SameOverlap.anchor (h : SameOverlap a b d) (hd : AnchorInside d) {i : Nat} (hi : i < 64) :
    a (1176 + i) = b ((1176 + 4 * d).toNat + i) := by
  obtain ⟨-, hlo, hhi⟩ := hd
  have := h (1176 + i - (-(4 * d)).toNat) (by omega)
  rwa [show (-(4 * d)).toNat + (1176 + i - (-(4 * d)).toNat) = 1176 + i by omega,
    show (4 * d).toNat + (1176 + i - (-(4 * d)).toNat) = (1176 + 4 * d).toNat + i by omega] at this

/-- **One shift**: the anchor has to fit, and the overlap has to agree. -/
theorem shift_at_iff : shift_at a b d = true ↔ AnchorInside d ∧ SameOverlap a b d := by
  unfold shift_at
  simp only [ ACCUDISC_BYTES_AUDIO, ADSC_ANCHOR_BYTES]
  by_cases hin : AnchorInside d
  · obtain ⟨h0, hlo, hhi⟩ := id hin
    rw [if_neg (by omega), ← Int.mul_comm 4 d]
    have hoverlap : memeq (ptr a (-(4 * d)).toNat) (ptr b (4 * d).toNat) (2352 - (4 * d).natAbs) = true ↔
        SameOverlap a b d := memeq_iff
    split
    · next hanchor =>
      refine iff_of_false Bool.false_ne_true fun hs => ?_
      rw [Bool.not_eq_true', ← Bool.not_eq_true] at hanchor
      exact hanchor (memeq_iff.2 fun i hi => hs.2.anchor hin hi)
    · exact hoverlap.trans (and_iff_right hin).symm
  · have hout : d = 0 ∨ ((2352 : Nat) / 2 : Int) + d * 4 < 0 ∨
        ((2352 : Nat) / 2 : Int) + d * 4 + (64 : Nat) > (2352 : Nat) := by
      unfold AnchorInside at hin
      omega
    rw [if_pos hout]
    exact iff_of_false Bool.false_ne_true fun h => hin h.1

/-- The centre of a sector is its anchor. -/
theorem anchor_flat : ((List.range ADSC_ANCHOR_BYTES).any fun i =>
      ptr a ( ACCUDISC_BYTES_AUDIO / 2) i != ptr a ( ACCUDISC_BYTES_AUDIO / 2) 0) = false ↔
    ∀ i < 64, a (1176 + i) = a 1176 := by
  simp only [List.any_eq_false, List.mem_range, bne_iff_ne, ne_eq, not_not, ptr, Nat.add_zero]
  exact Iff.rfl

/-- Every shift of the range is tried. -/
theorem shift_tried (hd : AnchorInside d) :
    d ∈ (List.range (2 * ADSC_SHIFT_MAX + 1)).map fun k : Nat => (k : Int) - ADSC_SHIFT_MAX := by
  obtain ⟨-, hlo, hhi⟩ := hd
  refine List.mem_map.2 ⟨(d + 588).toNat, List.mem_range.2 ?_, ?_⟩
  · show (d + 588).toNat < 2 * 588 + 1
    omega
  · show ((d + 588).toNat : Int) - (588 : Nat) = d
    omega

theorem shift_find_some (h : adsc_shift_find a b = some d) : AnchorInside d ∧ SameOverlap a b d := by
  unfold adsc_shift_find at h
  dsimp only at h
  split at h
  · cases h
  · exact shift_at_iff.1 (List.find?_some h)

/-- **The search**: it finds a shift when there is one that leaves the anchor inside. -/
theorem shift_find_isSome (hsignal : ¬∀ i < 64, a (1176 + i) = a 1176) :
    (adsc_shift_find a b).isSome = true ↔ ∃ d, AnchorInside d ∧ SameOverlap a b d := by
  constructor
  · intro h
    obtain ⟨d, hd⟩ := Option.isSome_iff_exists.1 h
    exact ⟨d, shift_find_some hd⟩
  · rintro ⟨d, hd, hs⟩
    have hany := mt anchor_flat.1 hsignal
    rw [Bool.not_eq_false] at hany
    unfold adsc_shift_find
    simp only [hany, Bool.not_true, Bool.false_eq_true, if_false, List.find?_isSome]
    exact ⟨d, shift_tried hd, shift_at_iff.2 ⟨hd, hs⟩⟩

/-- **The slip detector** does what it is for unless the only shifts are of 279 to 294 samples forward. -/
theorem adsc_shift_find_spec (hsignal : ∃ i < 64, a (1176 + i) ≠ a 1176) :
    FindsSlips a b ↔
      ((∃ d, 278 < d ∧ d ≤ 294 ∧ SameOverlap a b d) → ∃ d, d ≠ 0 ∧ -294 ≤ d ∧ d ≤ 278 ∧
        SameOverlap a b d) := by
  have hsome := shift_find_isSome (b := b) (show ¬∀ i < 64, a (1176 + i) = a 1176 by simpa using hsignal)
  constructor
  · rintro ⟨hfound, -⟩ ⟨d, hlo, hhi, hs⟩
    obtain ⟨e, ⟨h0, hlo, hhi⟩, he⟩ := hsome.1 (hfound.2 ⟨d, ⟨by omega, by omega⟩, hs⟩)
    exact ⟨e, h0, hlo, hhi, he⟩
  · intro h
    refine ⟨hsome.trans ⟨fun ⟨d, hd, hs⟩ => ⟨d, hd.near, hs⟩, ?_⟩, fun d hd => ?_⟩
    · rintro ⟨d, ⟨h0, hnear⟩, hs⟩
      by_cases hin : d ≤ 278
      · exact ⟨d, ⟨h0, by omega, hin⟩, hs⟩
      · obtain ⟨e, h0, hlo, hhi, he⟩ := h ⟨d, by omega, by omega, hs⟩
        exact ⟨e, ⟨h0, hlo, hhi⟩, he⟩
    · obtain ⟨hd, hs⟩ := shift_find_some hd
      exact ⟨hd.near, hs⟩

end

/-- A click at the centre. -/
def click : Mem := fun i => if i = 1176 then 1 else 0

/-- The click 279 samples on, after another sound. -/
def click_late : Mem := fun i => if i < 1116 then 2 else if i = 2292 then 1 else 0

theorem click_overlap : SameOverlap click click_late 279 := by
  intro i hi
  show (if 0 + i = 1176 then (1 : BitVec 8) else 0) =
    if 1116 + i < 1116 then 2 else if 1116 + i = 2292 then 1 else 0
  rw [if_neg (show ¬1116 + i < 1116 by omega)]
  exact if_congr (by omega) rfl rfl

/-- The first byte of the other sound is in every shorter shift. -/
theorem click_apart {d : Int} (hd : AnchorInside d) : ¬SameOverlap click click_late d := by
  obtain ⟨-, hlo, hhi⟩ := hd
  intro h
  have h := h 0 (by omega)
  unfold click click_late at h
  rw [if_pos (show (4 * d).toNat + 0 < 1116 by omega)] at h
  split at h <;> exact absurd h (by decide)

/-- Of another sound, the click is no shift. -/
theorem adsc_shift_find_spec_click : FindsSlips click (fun _ => 2) := by
  refine (adsc_shift_find_spec ⟨1, by decide, by decide⟩).2 ?_
  rintro ⟨d, hlo, hhi, hs⟩
  have h : click ((-(4 * d)).toNat + 0) = 2 := hs 0 (by omega)
  unfold click at h
  split at h <;> exact absurd h (by decide)

theorem click_missed : (∃ i < 64, click (1176 + i) ≠ click 1176) ∧ ¬FindsSlips click click_late := by
  refine ⟨⟨1, by decide, by decide⟩, fun h => ?_⟩
  have hfound := h.found.2 ⟨279, ⟨by decide, by decide⟩, click_overlap⟩
  obtain ⟨d, hd⟩ := Option.isSome_iff_exists.1 hfound
  obtain ⟨hin, hs⟩ := shift_find_some hd
  exact click_apart hin hs

end Accudisc
