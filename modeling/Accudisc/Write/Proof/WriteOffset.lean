import Accudisc.Write.WriteOffset
import Mathlib.Algebra.Order.Ring.Int

/-!
# The write offset is measured

Before the displaced burst everything in the search window is quiet, and the burst's first run is loud
(`burst_run_loud`, a property of the seed), so the first run found is the burst's first pair. The window
is searched in corrected indices, where the burst of the pulse at `pos` begins at `pos + W`.
-/

namespace Accudisc

/-- At most 500 in magnitude. -/
def PcmPair.Quiet (p : PcmPair) : Prop := p.1.toInt.natAbs ≤ 500 ∧ p.2.toInt.natAbs ≤ 500

/-- What is read back of a signal burnt `W` late by a drive that reads `R` early. -/
structure ReadBack (pcm : Nat → PcmPair) (samples : Nat) (R W : Int) : Prop where
  long : ACCUDISC_WOFF_SAMPLES ≤ samples
  signal : ∀ i : Int, 0 ≤ i + R → i + R < samples → 0 ≤ i - W → i - W < ACCUDISC_WOFF_SAMPLES →
    pcm (i + R).toNat = woff_signal (i - W).toNat
  quiet : ∀ raw < samples, ¬(0 ≤ (raw : Int) - R - W ∧ (raw : Int) - R - W < ACCUDISC_WOFF_SAMPLES) →
    (pcm raw).Quiet
  first_inside : 0 ≤ (ACCUDISC_WOFF_PULSE_A : Int) + W + R
  last_inside : (ACCUDISC_WOFF_PULSE_B : Int) + W + R + ACCUDISC_WOFF_PULSE_LEN ≤ samples

/-- A pulse as it is accepted: in the search window, with a loud pair first and half of its run loud. -/
structure PulseAt (pcm : Nat → PcmPair) (samples : Nat) (R : Int) (pos : Nat) (found : Int) : Prop where
  window : (pos : Int) - ACCUDISC_WOFF_SEARCH ≤ found ∧ found < pos + ACCUDISC_WOFF_SEARCH
  inside : 0 ≤ found + R ∧ found + R < samples
  loud : woff_loud (pcm (found + R).toNat) = true
  run : WOFF_RUN_MIN ≤ woff_hits pcm samples (found + R).toNat

variable {pcm : Nat → PcmPair} {samples : Nat} {R W lo hi found : Int}

/-! ## The scan -/

theorem woff_find_eq (hlo : lo ≤ found) (hhi : found < hi) (hs : woff_starts pcm samples R found = true)
    (hq : ∀ i, lo ≤ i → i < found → woff_starts pcm samples R i = false) :
      woff_find pcm samples R lo hi = found := by
  unfold woff_find
  have h : (List.range (hi - lo).toNat).find? (fun k : Nat => woff_starts pcm samples R (lo + k)) =
      some (found - lo).toNat := by
    refine List.find?_range_eq_some.2 ⟨?_, List.mem_range.2 (by omega), fun j hj => ?_⟩
    · rw [show lo + ((found - lo).toNat : Int) = found by omega]
      exact hs
    · rw [hq (lo + j) (by omega) (by omega)]
      rfl
  rw [h]
  show lo + ((found - lo).toNat : Int) = found
  omega

theorem woff_find_some (h : 0 ≤ woff_find pcm samples R lo hi) : lo ≤ woff_find pcm samples R lo hi ∧
    woff_find pcm samples R lo hi < hi ∧
      woff_starts pcm samples R (woff_find pcm samples R lo hi) = true := by
  unfold woff_find at h ⊢
  cases hf : (List.range (hi - lo).toNat).find? (fun k : Nat => woff_starts pcm samples R (lo + k)) with
  | none =>
    rw [hf] at h
    exact absurd h (show ¬(0 : Int) ≤ -1 by decide)
  | some k =>
    obtain ⟨hk, hmem, _⟩ := List.find?_range_eq_some.1 hf
    have hmem := List.mem_range.1 hmem
    exact ⟨by show lo ≤ lo + k; omega, by show lo + k < hi; omega, hk⟩

/-- **What is accepted**, of any read-back. -/
theorem woff_pulse_at {pos : Nat} (hpos : ACCUDISC_WOFF_SEARCH ≤ pos)
    (h : 0 ≤ woff_pulse pcm samples R pos) :
    PulseAt pcm samples R pos (woff_pulse pcm samples R pos) := by
  unfold woff_pulse at h ⊢
  simp only [if_neg (show ¬(pos : Int) - ACCUDISC_WOFF_SEARCH < 0 by omega)] at h ⊢
  obtain ⟨h1, h2, h3⟩ := woff_find_some h
  generalize woff_find pcm samples R _ _ = i at h1 h2 h3
  unfold woff_starts at h3
  simp only [] at h3
  split at h3
  · cases h3
  rename_i hin
  split at h3
  · cases h3
  rename_i hloud
  exact ⟨⟨h1, h2⟩, by omega, by simpa using hloud, of_decide_eq_true h3⟩

/-! ## The signal -/

theorem quiet_not_loud {p : PcmPair} (h : p.Quiet) : woff_loud p = false := by
  obtain ⟨h1, h2⟩ := h
  unfold woff_loud WOFF_THRESHOLD
  simp only [decide_eq_false_iff_not, not_or]
  split <;> split <;> omega

/-- The leading edge is loud, and half of the pairs of the first run are. -/
theorem burst_run_loud : woff_loud (woff_burst 0) = true ∧
    WOFF_RUN_MIN ≤ (List.range WOFF_RUN_LEN).countP fun j => woff_loud (woff_burst j) := by decide +kernel

theorem signal_silent {i : Nat} (ha : i < ACCUDISC_WOFF_PULSE_A ∨
    ACCUDISC_WOFF_PULSE_A + ACCUDISC_WOFF_PULSE_LEN ≤ i)
    (hb : i < ACCUDISC_WOFF_PULSE_B ∨ ACCUDISC_WOFF_PULSE_B + ACCUDISC_WOFF_PULSE_LEN ≤ i) :
      woff_signal i = (0, 0) := by
  unfold woff_signal
  rw [if_neg (by omega), if_neg (by omega)]

/-- A pulse of the signal: where it begins, and that the second is apart from the first. -/
def IsPulse (pos : Nat) : Prop := pos = ACCUDISC_WOFF_PULSE_A ∨ pos = ACCUDISC_WOFF_PULSE_B

theorem signal_burst {pos j : Nat} (hpos : IsPulse pos) (hj : j < ACCUDISC_WOFF_PULSE_LEN) :
    woff_signal (pos + j) = woff_burst j := by
  unfold woff_signal
  unfold ACCUDISC_WOFF_PULSE_LEN at hj ⊢
  rcases hpos with rfl | rfl
  · unfold ACCUDISC_WOFF_PULSE_A ACCUDISC_WOFF_PULSE_B
    rw [if_neg (by omega), if_pos (by omega), Nat.add_sub_cancel_left]
  · rw [if_pos (by omega), Nat.add_sub_cancel_left]

/-! ## The measurement -/

section
variable (h : ReadBack pcm samples R W) {pos : Nat} (hpos : IsPulse pos)
include h hpos

/-- The burst is in the buffer. -/
theorem ReadBack.inside : 0 ≤ (pos : Int) + W + R ∧
    (pos : Int) + W + R + ACCUDISC_WOFF_PULSE_LEN ≤ samples := by
  have h1 := h.first_inside
  have h2 := h.last_inside
  unfold ACCUDISC_WOFF_PULSE_A at h1
  unfold ACCUDISC_WOFF_PULSE_B at h2
  rcases hpos with rfl | rfl
  · unfold ACCUDISC_WOFF_PULSE_A
    omega
  · unfold ACCUDISC_WOFF_PULSE_B
    omega

/-- The burst in what is read back. -/
theorem ReadBack.burst {j : Nat} (hj : j < ACCUDISC_WOFF_PULSE_LEN) :
    pcm (((pos : Int) + W + R).toNat + j) = woff_burst j := by
  obtain ⟨h1, h2⟩ := h.inside hpos
  have hlt : pos + j < ACCUDISC_WOFF_SAMPLES := by
    unfold ACCUDISC_WOFF_SAMPLES
    unfold ACCUDISC_WOFF_PULSE_LEN at hj
    rcases hpos with rfl | rfl
    · unfold ACCUDISC_WOFF_PULSE_A
      omega
    · unfold ACCUDISC_WOFF_PULSE_B
      omega
  have := h.signal (pos + W + j) (by omega) (by omega) (by omega) (by omega)
  rw [show ((pos : Int) + W + j + R).toNat = ((pos : Int) + W + R).toNat + j by omega,
    show ((pos : Int) + W + j - W).toNat = pos + j by omega, signal_burst hpos hj] at this
  exact this

/-- Before the burst the window is quiet. -/
theorem ReadBack.before (hW : W < ACCUDISC_WOFF_SEARCH) {i : Int}
    (hlo : (pos : Int) - ACCUDISC_WOFF_SEARCH ≤ i)
    (hi : i < pos + W) : woff_starts pcm samples R i = false := by
  unfold woff_starts
  simp only []
  split
  · rfl
  rename_i hin
  have hquiet : woff_loud (pcm (i + R).toNat) = false := by
    by_cases hsig : 0 ≤ i - W ∧ i - W < ACCUDISC_WOFF_SAMPLES
    · rw [h.signal i (by omega) (by omega) hsig.1 hsig.2, signal_silent]
      · decide
      · unfold ACCUDISC_WOFF_SEARCH at hW hlo
        unfold ACCUDISC_WOFF_PULSE_A ACCUDISC_WOFF_PULSE_LEN
        rcases hpos with rfl | rfl
        · unfold ACCUDISC_WOFF_PULSE_A at hi
          omega
        · unfold ACCUDISC_WOFF_PULSE_B at hlo
          omega
      · unfold ACCUDISC_WOFF_SEARCH at hW hlo
        unfold ACCUDISC_WOFF_PULSE_B
        rcases hpos with rfl | rfl
        · unfold ACCUDISC_WOFF_PULSE_A at hi
          omega
        · unfold ACCUDISC_WOFF_PULSE_B at hi
          omega
    · exact quiet_not_loud (h.quiet _ (by omega) (by
        rw [show (((i + R).toNat : Nat) : Int) - R - W = i - W by omega]
        exact hsig))
  rw [if_pos (by rw [hquiet]; rfl)]

/-- **The burst is found where it begins.** -/
theorem ReadBack.located (hlo : -(ACCUDISC_WOFF_SEARCH : Int) ≤ W) (hW : W < ACCUDISC_WOFF_SEARCH) :
    woff_pulse pcm samples R pos = pos + W := by
  obtain ⟨h1, h2⟩ := h.inside hpos
  have hge : ACCUDISC_WOFF_SEARCH ≤ pos := by rcases hpos with rfl | rfl <;> decide
  unfold woff_pulse
  simp only [if_neg (show ¬(pos : Int) - ACCUDISC_WOFF_SEARCH < 0 by omega)]
  refine woff_find_eq (by omega) (by omega) ?_ fun i hi hi' => h.before hpos hW hi hi'
  have hburst := fun {j : Nat} (hj : j < ACCUDISC_WOFF_PULSE_LEN) => h.burst hpos hj
  obtain ⟨hloud, hrun⟩ := burst_run_loud
  have hfirst := hburst (show 0 < ACCUDISC_WOFF_PULSE_LEN by decide)
  rw [Nat.add_zero] at hfirst
  unfold woff_starts
  unfold ACCUDISC_WOFF_PULSE_LEN at h2 hburst
  simp only []
  rw [if_neg (by omega), hfirst, hloud, if_neg (by simp)]
  refine decide_eq_true (hrun.trans_eq ?_)
  unfold woff_hits
  simp only []
  unfold WOFF_RUN_LEN
  rw [if_neg (by omega), Nat.add_sub_cancel_left]
  refine List.countP_congr fun j hj => ?_
  have hj := List.mem_range.1 hj
  rw [hburst (by omega)]

end

/-- **The write offset** is measured within the search, and what is accepted of any read-back is two loud
runs at one distance. -/
theorem accudisc_write_offset_locate_measures :
    (∀ pcm samples R W size, ReadBack pcm samples R W → -(ACCUDISC_WOFF_SEARCH : Int) ≤ W →
      W < ACCUDISC_WOFF_SEARCH →
      0 < size → size ≤ sizeof_write_offset_info →
      (accudisc_write_offset_locate pcm samples R true size).1 = ACCUDISC_OK ∧
        (accudisc_write_offset_locate pcm samples R true size).2.write_offset = W) ∧
    ∀ pcm samples R args size out, accudisc_write_offset_locate pcm samples R args size =
      (ACCUDISC_OK, out) →
      out.found_a - ACCUDISC_WOFF_PULSE_A = out.write_offset ∧
        out.found_b - ACCUDISC_WOFF_PULSE_B = out.write_offset ∧
        PulseAt pcm samples R ACCUDISC_WOFF_PULSE_A out.found_a ∧
          PulseAt pcm samples R ACCUDISC_WOFF_PULSE_B out.found_b := by
  constructor
  · intro pcm samples R W size h hlo hW h0 hs
    have ha := h.located (.inl rfl) hlo hW
    have hb := h.located (.inr rfl) hlo hW
    have hpa : ¬(ACCUDISC_WOFF_PULSE_A : Int) + W < 0 := by
      unfold ACCUDISC_WOFF_SEARCH at hlo
      unfold ACCUDISC_WOFF_PULSE_A
      omega
    have hpb : ¬(ACCUDISC_WOFF_PULSE_B : Int) + W < 0 := by
      unfold ACCUDISC_WOFF_SEARCH at hlo
      unfold ACCUDISC_WOFF_PULSE_B
      omega
    have hda : woff_distance pcm samples R ACCUDISC_WOFF_PULSE_A = W := by
      unfold woff_distance
      rw [ha, if_neg hpa]
      omega
    have hdb : woff_distance pcm samples R ACCUDISC_WOFF_PULSE_B = W := by
      unfold woff_distance
      rw [hb, if_neg hpb]
      omega
    have hlong := h.long
    unfold accudisc_write_offset_locate
    rw [if_neg (by simp), if_neg (by omega), if_neg (by omega)]
    simp only [ha, hb, hda, hdb]
    rw [if_neg (not_or.2 ⟨hpa, hpb⟩), if_neg (not_not.2 rfl)]
    exact ⟨rfl, rfl⟩
  · intro pcm samples R args size out h
    unfold accudisc_write_offset_locate at h
    split at h
    · cases h
    split at h
    · cases h
    split at h
    · cases h
    simp only [] at h
    split at h
    · cases h
    rename_i hfound
    split at h
    · cases h
    rename_i hsame
    obtain ⟨hna, hnb⟩ := not_or.1 hfound
    have hsame := not_not.1 hsame
    have hout := (Prod.mk.inj h).2
    rw [← hout]
    simp only [if_neg hna, if_neg hnb]
    refine ⟨?_, ?_, woff_pulse_at (by decide) (by omega), woff_pulse_at (by decide) (by omega)⟩
    · unfold woff_distance
      rw [if_neg hna]
    · rw [hsame]
      unfold woff_distance
      rw [if_neg hnb]

/-- The signal itself, read back where it was burnt. -/
theorem signal_readBack : ReadBack woff_signal ACCUDISC_WOFF_SAMPLES 0 0 where
  long := Nat.le_refl _
  signal i _ _ _ _ := by rw [Int.add_zero, Int.sub_zero]
  quiet raw hraw hno := absurd ⟨by omega, by omega⟩ hno
  first_inside := by decide
  last_inside := by decide

theorem accudisc_write_offset_locate_measures_signal :
    (accudisc_write_offset_locate woff_signal ACCUDISC_WOFF_SAMPLES 0 true
      sizeof_write_offset_info).2.write_offset = 0 :=
  (accudisc_write_offset_locate_measures.1 woff_signal ACCUDISC_WOFF_SAMPLES 0 0
    sizeof_write_offset_info signal_readBack
    (by decide) (by decide) (by decide) (by decide)).2

end Accudisc
