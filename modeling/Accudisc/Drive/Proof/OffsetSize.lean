import Accudisc.Drive.Proof.Offsets
import Accudisc.Write.WriteOffset

/-!
# Declared sizes of the offset structures

Both functions accept every size from 1 to their own and store named fields whatever the size, so the size
has to reach the last field stored on the path taken.
-/

namespace Accudisc

variable {offsets : List OffsetEntry} {vendor product : Chars} {s : OffsetScan} {size n : Nat}

/-- What is stored behind the first fourteen bytes is gated on the size. -/
theorem offset_answer_writes_inside (hlen : s.vals.length ≤ 4) {w : StructWrite}
    (hw : w ∈ offset_answer_writes size n s) :
    w.off + w.len ≤ 14 ∨ w.off + w.len ≤ size := by
  unfold offset_answer_writes at hw
  rcases List.mem_append.1 hw with hw | hw
  · obtain ⟨l, hl, hw⟩ := List.mem_flatten.1 hw
    rw [(List.mem_replicate.1 hl).2] at hw
    rcases List.mem_cons.1 hw with rfl | hw
    · exact .inl (by decide)
    · rw [List.mem_singleton.1 hw]
      exact .inl (by decide)
  split at hw
  · cases hw
  simp only [List.mem_append] at hw
  rcases hw with ((((hw | hw) | hw) | hw) | hw) | hw
  · split at hw
    · rename_i hc
      have hc : 36 ≤ size := of_decide_eq_true hc
      obtain ⟨k, hk, hw⟩ := List.mem_flatMap.1 hw
      have hk := List.mem_range.1 hk
      refine .inr ?_
      rcases List.mem_cons.1 hw with rfl | hw
      · show 16 + 4 * k + 4 ≤ size
        omega
      · rw [List.mem_singleton.1 hw]
        show 32 + k + 1 ≤ size
        omega
    · cases hw
  · rw [List.mem_singleton.1 hw]
    exact .inl (by decide)
  · split at hw
    · rw [List.mem_singleton.1 hw]
      exact .inl (by decide)
    · cases hw
  · rcases List.mem_cons.1 hw with rfl | hw
    · exact .inl (by decide)
    · rw [List.mem_singleton.1 hw]
      exact .inl (by decide)
  · split at hw
    · rename_i hc
      have hc : 44 ≤ size := of_decide_eq_true hc
      refine .inr ?_
      rcases List.mem_cons.1 hw with rfl | hw
      · show 36 + 4 ≤ size
        omega
      · rw [List.mem_singleton.1 hw]
        exact hc
    · cases hw
  · split at hw
    · cases hw
    · rw [List.mem_singleton.1 hw]
      exact .inl (by decide)

/-- Where a row answers, `n_values` is the last field stored that is not gated. -/
theorem offset_writes_matched (h0 : 0 < size) (hs : size ≤ sizeof_offset_info) (hp : inquiry32 product ≠ [])
    (hC : offset_candidates offsets vendor product ≠ []) :
    SizeHonoured size (offset_writes offsets vendor product size) ↔ 14 ≤ size := by
  have hscan := scanned_all (offset_candidates offsets vendor product)
  have hlen := hscan.length
  have hmatched := hscan.matched.2 hC
  rw [offset_candidates_eq] at hscan hlen hmatched
  unfold sizeof_offset_info at hs
  unfold offset_writes
  rw [if_neg (by unfold sizeof_offset_info; omega), if_neg hp]
  refine sizeHonoured_iff (by decide) (by omega) (fun w hw => ?_) ⟨OFF_n_values, ?_, rfl⟩
  · rcases List.mem_append.1 hw with hw | hw
    · rcases List.mem_cons.1 hw with rfl | hw
      · exact .inr (.inr rfl)
      · rw [List.mem_singleton.1 hw]
        exact .inl (by decide)
    · exact (offset_answer_writes_inside (s := offset_scan offsets vendor product)
        (hlen.trans_le (Nat.min_le_left _ _)) hw).imp_right .inl
  · refine List.mem_append_right _ (List.mem_append_right _ ?_)
    have hm : ¬(offset_scan offsets vendor product).matched = false := by
      unfold offset_scan
      rw [hmatched]
      exact Bool.noConfusion
    rw [if_neg hm]
    simp

/-- Where no row does, it is the sentinel. -/
theorem offset_writes_unmatched (h0 : 0 < size) (hs : size ≤ sizeof_offset_info)
    (hno : inquiry32 product = [] ∨ offset_candidates offsets vendor product = []) :
    SizeHonoured size (offset_writes offsets vendor product size) ↔ 8 ≤ size := by
  unfold sizeof_offset_info at hs
  have hwrites : offset_writes offsets vendor product size = [clear_struct size, OFF_read_offset] := by
    unfold offset_writes
    rw [if_neg (by unfold sizeof_offset_info; omega)]
    by_cases hp : inquiry32 product = []
    · rw [if_pos hp, List.append_nil]
    · have hC := hno.resolve_left hp
      rw [offset_candidates_eq] at hC
      unfold offset_scan
      rw [if_neg hp, hC]
      rfl
  rw [hwrites]
  refine sizeHonoured_iff (by decide) (by omega) (fun w hw => ?_) ⟨OFF_read_offset, by simp, rfl⟩
  rcases List.mem_cons.1 hw with rfl | hw
  · exact .inr (.inr rfl)
  · rw [List.mem_singleton.1 hw]
    exact .inl (by decide)

/-- The bytes that the locator stores to: up to `found_b`, and the flags where the pulses disagree. -/
theorem locate_writes_iff (pcm : Nat → PcmPair) (samples : Nat) (R : Int) (h0 : 0 < size)
    (hs : size ≤ sizeof_write_offset_info) (hlong : ACCUDISC_WOFF_SAMPLES ≤ samples) :
    SizeHonoured size (locate_writes pcm samples R size) ↔
      (if ¬(woff_pulse pcm samples R ACCUDISC_WOFF_PULSE_A < 0 ∨
        woff_pulse pcm samples R ACCUDISC_WOFF_PULSE_B < 0) ∧
          woff_distance pcm samples R ACCUDISC_WOFF_PULSE_A ≠
            woff_distance pcm samples R ACCUDISC_WOFF_PULSE_B then 25
        else 24) ≤ size := by
  unfold sizeof_write_offset_info at hs
  unfold locate_writes
  rw [if_neg (by unfold sizeof_write_offset_info; omega), if_neg (by omega)]
  generalize hhead : [WOFF_write_offset, WOFF_found_b, WOFF_found_a, WOFF_found_a,
    WOFF_found_b, WOFF_offset_a,
    WOFF_offset_b] = head
  have hinside : ∀ w ∈ head, w.off + w.len ≤ 24 := by rw [← hhead]; decide
  have hlast : WOFF_found_b ∈ head := by rw [← hhead]; decide
  have hws : ∀ (tail : List StructWrite) (n : Nat), 24 ≤ n → (∀ w ∈ tail, w.off + w.len ≤ n) →
      (∃ w ∈ head ++ tail, w.off + w.len = n) →
        (SizeHonoured size (clear_struct size :: head ++ tail) ↔ n ≤ size) := by
    intro tail n hn htail hmax
    refine sizeHonoured_iff (by omega) (by omega) (fun w hw => ?_) ?_
    · rcases List.mem_cons.1 hw with rfl | hw
      · exact .inr (.inr rfl)
      · refine .inl ?_
        rcases List.mem_append.1 hw with hw | hw
        · exact (hinside w hw).trans hn
        · exact htail w hw
    · obtain ⟨w, hw, hn⟩ := hmax
      exact ⟨w, List.mem_cons_of_mem _ hw, hn⟩
  by_cases hfound : woff_pulse pcm samples R ACCUDISC_WOFF_PULSE_A < 0 ∨
    woff_pulse pcm samples R ACCUDISC_WOFF_PULSE_B < 0
  · rw [if_pos hfound, if_neg fun h => h.1 hfound]
    exact hws [] 24 (Nat.le_refl _) (fun w hw => absurd hw List.not_mem_nil)
      ⟨_, List.mem_append_left _ hlast, rfl⟩
  · rw [if_neg hfound]
    by_cases hdiff : woff_distance pcm samples R ACCUDISC_WOFF_PULSE_A ≠
      woff_distance pcm samples R ACCUDISC_WOFF_PULSE_B
    · rw [if_pos hdiff, if_pos ⟨hfound, hdiff⟩]
      exact hws [WOFF_flags] 25 (by decide) (by decide) ⟨WOFF_flags, List.mem_append_right _ (by simp), rfl⟩
    · rw [if_neg hdiff, if_neg fun h => hdiff h.2]
      exact hws [WOFF_write_offset] 24 (Nat.le_refl _) (by decide) ⟨_, List.mem_append_left _ hlast, rfl⟩

/-- **The declared size is honoured** exactly where it reaches the last field stored: of the sizes not
refused, and on every path. -/
theorem struct_size_honoured_iff (offsets : List OffsetEntry) (vendor product : Chars) (pcm : Nat → PcmPair)
    (samples : Nat) (R : Int) (size size' : Nat) (h0 : 0 < size) (hs : size ≤ sizeof_offset_info)
      (h0' : 0 < size')
    (hs' : size' ≤ sizeof_write_offset_info) :
    (SizeHonoured size (offset_writes offsets vendor product size) ↔
      8 ≤ size ∧ (inquiry32 product ≠ [] → offset_candidates offsets vendor product ≠ [] → 14 ≤ size)) ∧
    (SizeHonoured size' (locate_writes pcm samples R size') ↔
      (ACCUDISC_WOFF_SAMPLES ≤ samples → 24 ≤ size' ∧
        (0 ≤ woff_pulse pcm samples R ACCUDISC_WOFF_PULSE_A →
          0 ≤ woff_pulse pcm samples R ACCUDISC_WOFF_PULSE_B →
          woff_distance pcm samples R ACCUDISC_WOFF_PULSE_A ≠
            woff_distance pcm samples R ACCUDISC_WOFF_PULSE_B →
          25 ≤ size'))) := by
  constructor
  · by_cases hno : inquiry32 product = [] ∨ offset_candidates offsets vendor product = []
    · rw [offset_writes_unmatched h0 hs hno]
      refine ⟨fun h => ⟨h, fun hp hC => ?_⟩, And.left⟩
      exact absurd hno (not_or.2 ⟨hp, hC⟩)
    · obtain ⟨hp, hC⟩ := not_or.1 hno
      rw [offset_writes_matched h0 hs hp hC]
      exact ⟨fun h => ⟨by omega, fun _ _ => h⟩, fun h => h.2 hp hC⟩
  · by_cases hlong : ACCUDISC_WOFF_SAMPLES ≤ samples
    · rw [locate_writes_iff pcm samples R h0' hs' hlong]
      split
      · rename_i h
        obtain ⟨hfound, hdiff⟩ := h
        obtain ⟨ha, hb⟩ := not_or.1 hfound
        exact ⟨fun h _ => ⟨by omega, fun _ _ _ => h⟩, fun h => (h hlong).2 (by omega) (by omega) hdiff⟩
      · rename_i h
        exact ⟨fun h24 _ => ⟨h24, fun ha hb hdiff => absurd ⟨not_or.2 ⟨by omega, by omega⟩, hdiff⟩ h⟩,
          fun h => (h hlong).1⟩
    · have hnil : locate_writes pcm samples R size' = [] := by
        unfold locate_writes
        split
        · rfl
        · rw [if_pos (by omega)]
      rw [hnil]
      exact ⟨fun _ h => absurd h hlong, fun _ =>
        ⟨fun h => absurd h List.not_mem_nil, fun w hw => absurd hw List.not_mem_nil⟩⟩

theorem struct_size_honoured_iff_full :
    SizeHonoured sizeof_offset_info (offset_writes [] [] [] sizeof_offset_info) :=
  (struct_size_honoured_iff [] [] [] (fun _ =>
    (0, 0)) 0 0 sizeof_offset_info sizeof_write_offset_info (by decide)
    (Nat.le_refl _) (by decide) (Nat.le_refl _)).1.2 ⟨by decide, fun h => absurd rfl h⟩

/-- A structure of four bytes, its size alone: the sentinel is stored behind it. -/
theorem four_bytes_overrun : ¬SizeHonoured 4 (offset_writes [] [] [] 4) := by
  intro h
  exact absurd (h.inside OFF_read_offset (by decide)) (by decide)

end Accudisc
