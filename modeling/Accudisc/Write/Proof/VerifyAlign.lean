import Accudisc.Write.Proof.VerifyRead
import Mathlib.Data.Nat.Count

/-!
# The displacement that a verification measures

The scan with its abandonment finds what an exhaustive one would (`score_shifts_iff`), and the source's
window loses no shift: over the span, sample `j` of the disc is scored against sample `j + s` of the
source (`anchor_scored`).
-/

namespace Accudisc

/-- The mismatches of a whole window. -/
def mismatches (disc src : Mem) (nsamp off : Nat) : Nat :=
  Nat.count (fun i => sample_at disc (i * BYTES_PER_SAMPLE) ≠
    sample_at src ((off + i) * BYTES_PER_SAMPLE)) nsamp

section
variable (disc src : Mem) (nsamp src_samples : Nat) (src_base_shift : Int)

/-- A shift of the search at which the window has every sample. -/
def Evaluable (s : Int) : Prop :=
  -(ACCUDISC_VERIFY_SHIFT_MAX : Int) ≤ s ∧ s ≤ ACCUDISC_VERIFY_SHIFT_MAX ∧ 0 ≤ s - src_base_shift ∧
    s - src_base_shift + nsamp ≤ src_samples

def shift_bad (s : Int) : Nat := mismatches disc src nsamp (s - src_base_shift).toNat

/-- The minimiser of an exhaustive search, good enough and apart from the others. -/
structure ClearWinner (s : Int) : Prop where
  evaluable : Evaluable nsamp src_samples src_base_shift s
  least : ∀ t, Evaluable nsamp src_samples src_base_shift t →
    shift_bad disc src nsamp src_base_shift s ≤ shift_bad disc src nsamp src_base_shift t
  limit : shift_bad disc src nsamp src_base_shift s ≤ nsamp / 100 * 50
  apart : ∀ t, Evaluable nsamp src_samples src_base_shift t → t ≠ s →
    shift_bad disc src nsamp src_base_shift s + nsamp / 10 ≤ shift_bad disc src nsamp src_base_shift t

end

/-! ## The scan -/

section
variable {disc src : Mem} {nsamp src_samples : Nat} {src_base_shift : Int}

/-- What is counted, unless the bound was reached. -/
theorem count_bad_spec (off second n i bad : Nat) :
    count_bad disc src off second n i bad = bad +
      Nat.count (fun k => sample_at disc ((k + i) * BYTES_PER_SAMPLE) ≠
        sample_at src ((off + (k + i)) * BYTES_PER_SAMPLE)) n ∨
      (second ≤ count_bad disc src off second n i bad ∧
        count_bad disc src off second n i bad ≤ bad + Nat.count (fun k =>
          sample_at disc ((k + i) * BYTES_PER_SAMPLE) ≠ sample_at src
            ((off + (k + i)) * BYTES_PER_SAMPLE)) n) := by
  induction n generalizing i bad with
  | zero => exact .inl rfl
  | succ n ih =>
    have hrest := ih (i + 1)
    rw [Nat.count_succ']
    simp only [Nat.zero_add, Nat.add_assoc, Nat.add_comm 1] at hrest ⊢
    unfold count_bad
    by_cases hne : sample_at disc (i * BYTES_PER_SAMPLE) ≠ sample_at src ((off + i) * BYTES_PER_SAMPLE)
    · rw [if_pos hne, if_pos hne]
      by_cases hstop : second ≤ bad + 1
      · rw [if_pos hstop]
        exact .inr ⟨hstop, by omega⟩
      · rw [if_neg hstop]
        have := hrest (bad + 1)
        omega
    · rw [if_neg hne, if_neg hne]
      exact hrest bad

theorem count_bad_abandons : LeastTwo.Abandons
    (fun second s => count_bad disc src (s - src_base_shift).toNat second nsamp 0 0)
    (shift_bad disc src nsamp src_base_shift) := by
  intro second s
  have := @count_bad_spec disc src (s - src_base_shift).toNat second nsamp 0 0
  simp only [Nat.zero_add, Nat.add_zero] at this
  exact this

theorem mem_shifts {s : Int} :
    s ∈ verify_shifts.filter (evaluable nsamp src_samples src_base_shift) ↔
      Evaluable nsamp src_samples src_base_shift s := by
  unfold verify_shifts evaluable Evaluable
  simp only [List.mem_filter, List.mem_map, List.mem_range, decide_eq_true_eq]
  constructor
  · rintro ⟨⟨k, hk, rfl⟩, h⟩
    exact ⟨by omega, by omega, h⟩
  · rintro ⟨h1, h2, h⟩
    exact ⟨⟨(s + ACCUDISC_VERIFY_SHIFT_MAX).toNat, by omega, by omega⟩, h⟩

theorem shifts_increase :
    (verify_shifts.filter (evaluable nsamp src_samples src_base_shift)).Pairwise (· < ·) := by
  refine List.Pairwise.filter _ ?_
  unfold verify_shifts
  rw [List.pairwise_map]
  exact List.Pairwise.imp (by omega) List.pairwise_lt_range

/-- What the search has found decides what it returns. -/
theorem score_shifts_eq (hn : nsamp < 2 ^ 32) :
    (score_shifts disc src nsamp src_samples src_base_shift = none ∧
      ∀ s, Evaluable nsamp src_samples src_base_shift s →
        0xFFFFFFFF ≤ shift_bad disc src nsamp src_base_shift s) ∨
    ∃ r before after, LeastTwo.Found 0xFFFFFFFF (shift_bad disc src nsamp src_base_shift)
        (verify_shifts.filter (evaluable nsamp src_samples src_base_shift)) r before after ∧
      score_shifts disc src nsamp src_samples src_base_shift =
        if r.best ≤ nsamp / 100 * 50 ∧ r.best + nsamp / 10 ≤ r.second then some r.pick else none := by
  rcases LeastTwo.scan_spec (@count_bad_abandons disc src nsamp src_base_shift)
      (verify_shifts.filter (evaluable nsamp src_samples src_base_shift)) 0xFFFFFFFF 0
    with ⟨hb, -, hall⟩ | ⟨before, after, hf⟩
  · refine .inl ⟨?_, fun s hs => hall s (mem_shifts.2 hs)⟩
    unfold score_shifts
    exact if_pos hb
  · refine .inr ⟨_, before, after, hf, ?_⟩
    have hbelow := hf.below
    have hle := hf.second_le
    unfold score_shifts
    simp only []
    generalize (verify_shifts.filter _).foldl _ _ = r at hbelow hle
    unfold ANCHOR_MAX_BAD_PCT ANCHOR_SEP_DIV
    rw [if_neg (by omega)]
    by_cases hlim : r.best ≤ nsamp / 100 * 50
    · -- below the limit the sum keeps its value
      have hu : u32 (r.best + nsamp / 10) = r.best + nsamp / 10 := Nat.mod_eq_of_lt (by omega)
      rw [if_neg (by omega), hu]
      by_cases hsec : r.best + nsamp / 10 ≤ r.second
      · rw [if_neg (by omega), if_pos ⟨hlim, hsec⟩]
      · rw [if_pos (by omega), if_neg (by omega)]
    · rw [if_pos (by omega), if_neg (by omega)]

/-- The winner of the scan. -/
theorem found_winner {r : LeastTwo.Scores Int} {before after : List Int}
    (hf : LeastTwo.Found 0xFFFFFFFF (shift_bad disc src nsamp src_base_shift)
      (verify_shifts.filter (evaluable nsamp src_samples src_base_shift)) r before after) :
    Evaluable nsamp src_samples src_base_shift r.pick ∧
      (∀ t, Evaluable nsamp src_samples src_base_shift t →
        r.best ≤ shift_bad disc src nsamp src_base_shift t) ∧
      (∀ t, Evaluable nsamp src_samples src_base_shift t → t ≠ r.pick →
        r.second ≤ shift_bad disc src nsamp src_base_shift t) ∧
      (∀ t, Evaluable nsamp src_samples src_base_shift t → t < r.pick →
        r.best < shift_bad disc src nsamp src_base_shift t) ∧
      ∀ t ∈ before ++ after, Evaluable nsamp src_samples src_base_shift t ∧ t ≠ r.pick := by
  have hsplit := hf.split
  have hinc := hsplit ▸ @shifts_increase nsamp src_samples src_base_shift
  obtain ⟨-, hcons, hbefore⟩ := List.pairwise_append.1 hinc
  have hafter := (List.pairwise_cons.1 hcons).1
  have hmem : ∀ t, Evaluable nsamp src_samples src_base_shift t ↔ t ∈ before ∨ t = r.pick ∨ t ∈ after := by
    intro t
    rw [← mem_shifts, hsplit, List.mem_append, List.mem_cons]
  refine ⟨(hmem _).2 (.inr (.inl rfl)), fun t ht => ?_, fun t ht hne => ?_, fun t ht hlt =>
    ?_, fun t ht => ?_⟩
  · rcases (hmem t).1 ht with ht | rfl | ht
    · exact Nat.le_of_lt (hf.first t ht)
    · exact Nat.le_of_eq hf.best.symm
    · exact hf.least t ht
  · rcases (hmem t).1 ht with ht | rfl | ht
    · exact hf.second t (List.mem_append_left _ ht)
    · exact absurd rfl hne
    · exact hf.second t (List.mem_append_right _ ht)
  · rcases (hmem t).1 ht with ht | rfl | ht
    · exact hf.first t ht
    · exact absurd hlt (Int.lt_irrefl _)
    · exact absurd hlt (Int.not_lt.2 (Int.le_of_lt (hafter t ht)))
  · rcases List.mem_append.1 ht with ht | ht
    · exact ⟨(hmem t).2 (.inl ht), Int.ne_of_lt (hbefore t ht r.pick (by simp))⟩
    · exact ⟨(hmem t).2 (.inr (.inr ht)), Int.ne_of_gt (hafter t ht)⟩

/-- **A shift that is returned** is the exhaustive search's, and the first of its minimisers. -/
theorem score_shifts_some (hn : nsamp < 2 ^ 32) {s : Int}
    (h : score_shifts disc src nsamp src_samples src_base_shift = some s) :
    ClearWinner disc src nsamp src_samples src_base_shift s ∧
      ∀ t, Evaluable nsamp src_samples src_base_shift t → t < s →
        shift_bad disc src nsamp src_base_shift s < shift_bad disc src nsamp src_base_shift t := by
  rcases @score_shifts_eq disc src nsamp src_samples src_base_shift hn
    with ⟨hnone, -⟩ | ⟨r, before, after, hf, heq⟩
  · rw [hnone] at h
    cases h
  · rw [heq] at h
    by_cases hc : r.best ≤ nsamp / 100 * 50 ∧ r.best + nsamp / 10 ≤ r.second
    · rw [if_pos hc] at h
      obtain rfl := Option.some.inj h
      obtain ⟨hev, hleast, hsecond, hfirst, -⟩ := found_winner hf
      rw [← hf.best] at hleast hfirst hc
      exact ⟨⟨hev, hleast, hc.1, fun t ht hne => Nat.le_trans hc.2 (hsecond t ht hne)⟩, hfirst⟩
    · rw [if_neg hc] at h
      cases h

/-- **Success** is that of the exhaustive search. -/
theorem score_shifts_iff (hn : nsamp < 2 ^ 32) :
    (score_shifts disc src nsamp src_samples src_base_shift).isSome = true ↔
      ∃ s, ClearWinner disc src nsamp src_samples src_base_shift s := by
  constructor
  · intro h
    obtain ⟨s, hs⟩ := Option.isSome_iff_exists.1 h
    exact ⟨s, (score_shifts_some hn hs).1⟩
  · rintro ⟨s, hw⟩
    have hlimit := hw.limit
    rcases @score_shifts_eq disc src nsamp src_samples src_base_shift hn
      with ⟨-, hall⟩ | ⟨r, before, after, hf, heq⟩
    · have := hall s hw.evaluable
      omega
    · obtain ⟨hev, hleast, -, -, hother⟩ := found_winner hf
      have hbest : shift_bad disc src nsamp src_base_shift s = r.best :=
        Nat.le_antisymm (hf.best ▸ hw.least _ hev) (hleast s hw.evaluable)
      rw [hbest] at hlimit
      have hsecond : r.best + nsamp / 10 ≤ r.second := by
        by_cases hs : r.pick = s
        · rcases hf.attained with htop | ⟨t, ht, hk⟩
          · omega
          · have := hw.apart t (hother t ht).1 (hs ▸ (hother t ht).2)
            rw [hbest, hk] at this
            exact this
        · -- two minimisers: nothing is asked of the distance
          have := hw.apart _ hev hs
          rw [hbest, hf.best] at this
          have := hf.ordered
          omega
      rw [heq, if_pos ⟨hlimit, hsecond⟩]
      rfl

end

/-! ## Over the span -/

/-- Sample `j` of the file. -/
def VerifyEnv.source (e : VerifyEnv) (j : Nat) : Sample := sample_at e.bin (j * BYTES_PER_SAMPLE)

section
variable (disc source : Nat → Sample) (src_samples base nsamp : Nat)

/-- A shift of the search at which the source has every sample that the anchor is compared with. -/
def Reaches (s : Int) : Prop :=
  -(ACCUDISC_VERIFY_SHIFT_MAX : Int) ≤ s ∧ s ≤ ACCUDISC_VERIFY_SHIFT_MAX ∧ 0 ≤ base + s ∧
    base + s + nsamp ≤ src_samples

/-- The anchor's samples `j` with `disc[j] != source[j + s]`. -/
def span_bad (s : Int) : Nat :=
  Nat.count (fun i : Nat => disc (base + i) ≠ source (((base + i : Nat) : Int) + s).toNat) nsamp

/-- The displacement that an exhaustive search over the source finds for the anchor. -/
structure SpanAligned (s : Int) : Prop where
  reaches : Reaches src_samples base nsamp s
  least : ∀ t, Reaches src_samples base nsamp t →
    span_bad disc source base nsamp s ≤ span_bad disc source base nsamp t
  limit : span_bad disc source base nsamp s ≤ nsamp / 100 * 50
  apart : ∀ t, Reaches src_samples base nsamp t → t ≠ s →
    span_bad disc source base nsamp s + nsamp / 10 ≤ span_bad disc source base nsamp t

end

section
variable {disc : Nat → Sample} {e : VerifyEnv} {buf : Mem} {src_samples base nsamp : Nat}

/-- The window costs no shift. -/
theorem evaluable_window (hwin : win_lo base + nsamp < win_hi src_samples base nsamp) (s : Int) :
    Evaluable nsamp (win_hi src_samples base nsamp - win_lo base) (win_lo base - base) s ↔
      Reaches src_samples base nsamp s := by
  unfold Evaluable Reaches
  unfold win_lo win_hi at *
  by_cases hlo : ACCUDISC_VERIFY_SHIFT_MAX < base <;>
    by_cases hhi : src_samples < base + nsamp + ACCUDISC_VERIFY_SHIFT_MAX <;>
    simp only [hlo, hhi, if_true, if_false] at hwin ⊢ <;> omega

/-- **The equation**: at shift `s` sample `j` of the disc is scored against sample `j + s` of the source. -/
theorem anchor_scored (hbuf : ∀ i < nsamp, sample_at buf (i * BYTES_PER_SAMPLE) = disc (base + i)) {s : Int}
    (hs : Reaches src_samples base nsamp s) :
    shift_bad buf (anchor_window e base) nsamp (win_lo base - base) s =
      span_bad disc e.source base nsamp s := by
  have hlo : 0 ≤ s - ((win_lo base : Int) - base) := by
    unfold Reaches at hs
    unfold win_lo
    split <;> omega
  unfold shift_bad mismatches span_bad
  rw [Nat.count_eq_card_filter_range, Nat.count_eq_card_filter_range]
  congr 1
  refine Finset.filter_congr fun i hi => ?_
  rw [hbuf i (Finset.mem_range.1 hi)]
  have hat : sample_at (anchor_window e base)
    (((s - ((win_lo base : Int) - base)).toNat + i) * BYTES_PER_SAMPLE) =
      e.source (((base + i : Nat) : Int) + s).toNat := by
    unfold VerifyEnv.source
    rw [show (((base + i : Nat) : Int) + s).toNat = win_lo base +
      ((s - ((win_lo base : Int) - base)).toNat + i) by omega,
      Nat.add_mul (win_lo base)]
    rfl
  rw [hat]

/-- An anchor with a clear displacement finds it. -/
theorem score_shifts_aligned (hn : nsamp < 2 ^ 32) (h10 : 10 ≤ nsamp)
    (hbuf : ∀ i < nsamp, sample_at buf (i * BYTES_PER_SAMPLE) = disc (base + i))
    (hwin : win_lo base + nsamp < win_hi src_samples base nsamp) {s : Int}
    (h : SpanAligned disc e.source src_samples base nsamp s) :
    score_shifts buf (anchor_window e base) nsamp (win_hi src_samples base nsamp - win_lo base)
      (win_lo base - base) =
      some s := by
  have hev := evaluable_window hwin
  have hscore {t : Int} (ht : Reaches src_samples base nsamp t) := anchor_scored (e := e) hbuf ht
  have hwinner : ClearWinner buf (anchor_window e base) nsamp (win_hi src_samples base nsamp - win_lo base)
      (win_lo base - base) s := by
    refine ⟨(hev s).2 h.reaches, fun t ht => ?_, ?_, fun t ht hne => ?_⟩
    · rw [hscore h.reaches, hscore ((hev t).1 ht)]
      exact h.least t ((hev t).1 ht)
    · rw [hscore h.reaches]
      exact h.limit
    · rw [hscore h.reaches, hscore ((hev t).1 ht)]
      exact h.apart t ((hev t).1 ht) hne
  obtain ⟨s', hs'⟩ := Option.isSome_iff_exists.1 ((score_shifts_iff hn).2 ⟨s, hwinner⟩)
  rw [hs']
  refine congrArg some ?_
  have hw' := (score_shifts_some hn hs').1
  by_contra hne
  have h1 := hwinner.apart s' hw'.evaluable hne
  have h2 := hw'.least s hwinner.evaluable
  omega

theorem distinct_samples_congr {p q : Mem} {n : Nat}
    (h : ∀ i < n, sample_at p (i * BYTES_PER_SAMPLE) = sample_at q (i * BYTES_PER_SAMPLE)) :
    distinct_samples p n = distinct_samples q n := by
  unfold distinct_samples
  refine congrArg List.length ?_
  refine List.foldl_ext _ _ _ fun seen i hi => ?_
  rw [h i (List.mem_range.1 hi)]

theorem align_loop_ok {start count c2 speed_x p : Nat} {ps : List Nat} {s : Int}
    (h : align_loop e src_samples start count c2 speed_x p ps = .ok s) :
    ∃ q, ∃ pos ∈ ps, align_anchor e src_samples start count c2 speed_x q pos = some (.ok s) := by
  induction ps generalizing p with
  | nil => cases h
  | cons pos ps ih =>
    unfold align_loop at h
    cases ha : align_anchor e src_samples start count c2 speed_x p pos with
    | some r =>
      rw [ha] at h
      exact ⟨p, pos, by simp, h ▸ ha⟩
    | none =>
      rw [ha] at h
      obtain ⟨q, pos', hmem, hq⟩ := ih h
      exact ⟨q, pos', by simp [hmem], hq⟩

/-- What an anchor that settles the displacement has scored. -/
theorem align_anchor_ok {start count c2 speed_x p pos : Nat} {s : Int}
    (h : align_anchor e src_samples start count c2 speed_x p pos = some (.ok s)) :
    (e.anchor_read p (anchor_req count c2 speed_x pos)).2 = ACCUDISC_OK ∧
      win_lo (anchor_base start pos) + anchor_sectors count * SAMPLES_PER_SECTOR <
        win_hi src_samples (anchor_base start pos) (anchor_sectors count * SAMPLES_PER_SECTOR) ∧
      score_shifts (anchor_filled e count c2 speed_x p pos).buf (anchor_window e (anchor_base start pos))
        (anchor_sectors count * SAMPLES_PER_SECTOR)
        (win_hi src_samples (anchor_base start pos) (anchor_sectors count * SAMPLES_PER_SECTOR) -
          win_lo (anchor_base start pos))
        (win_lo (anchor_base start pos) - anchor_base start pos) = some s := by
  unfold align_anchor at h
  simp only [] at h
  split at h
  · cases h
  split at h
  · cases h
  split at h
  · cases h
  rename_i hread
  split at h
  · cases h
  split at h
  · cases h
  rename_i hwin
  split at h
  · cases h
  split at h
  · cases h
  refine ⟨not_not.1 (not_or.1 hread).1, Nat.not_le.1 hwin, ?_⟩
  split at h
  · rename_i s' hs
    rw [hs, Except.ok.inj (Option.some.inj h)]
  · cases h

/-- And one that passes every check settles it. -/
theorem align_anchor_settles {start count c2 speed_x p pos : Nat} {s : Int}
    (hin : u32 (pos + anchor_sectors count) ≤ u32 (start + count)) (hcalloc : e.calloc_anchor p = true)
    (hread : (e.anchor_read p (anchor_req count c2 speed_x pos)).2 = ACCUDISC_OK)
    (hgot : (anchor_filled e count c2 speed_x p pos).got = anchor_sectors count)
    (hdistinct : ANCHOR_MIN_DISTINCT ≤
      distinct_samples (anchor_filled e count c2 speed_x p pos).buf
        (anchor_sectors count * SAMPLES_PER_SECTOR))
    (hwin : win_lo (anchor_base start pos) + anchor_sectors count * SAMPLES_PER_SECTOR <
      win_hi src_samples (anchor_base start pos) (anchor_sectors count * SAMPLES_PER_SECTOR))
    (hmalloc : e.malloc_window p = true) (hio : e.window_io p = true)
    (hs : score_shifts (anchor_filled e count c2 speed_x p pos).buf
      (anchor_window e (anchor_base start pos))
      (anchor_sectors count * SAMPLES_PER_SECTOR)
      (win_hi src_samples (anchor_base start pos) (anchor_sectors count * SAMPLES_PER_SECTOR) -
        win_lo (anchor_base start pos))
      (win_lo (anchor_base start pos) - anchor_base start pos) = some s) :
    align_anchor e src_samples start count c2 speed_x p pos = some (.ok s) := by
  unfold align_anchor
  simp only []
  rw [if_neg (Nat.not_lt.2 hin), if_neg (by simp [hcalloc]), if_neg (by simp [hread, hgot]),
    if_neg (Nat.not_lt.2 hdistinct), if_neg (Nat.not_le.2 hwin), if_neg (by simp [hmalloc]),
      if_neg (by simp [hio]), hs]

/-- The first candidate that settles it is the last that is tried. -/
theorem align_span_settles {start count c2 speed_x pos : Nat} {ps : List Nat} {r : Except Int Int}
    (hpos : anchor_positions start count = pos :: ps)
    (h : align_anchor e src_samples start count c2 speed_x 0 pos = some r) :
    align_span e src_samples start count c2 speed_x = r := by
  unfold align_span
  rw [hpos]
  unfold align_loop
  rw [h]

end

/-- **The displacement** is what an exhaustive search finds, over a window as over the span. -/
theorem verify_alignment_exact :
    (∀ disc src nsamp src_samples src_base_shift, nsamp < 2 ^ 32 →
      ((score_shifts disc src nsamp src_samples src_base_shift).isSome = true ↔
        ∃ s, ClearWinner disc src nsamp src_samples src_base_shift s) ∧
      ∀ s, score_shifts disc src nsamp src_samples src_base_shift = some s →
        ClearWinner disc src nsamp src_samples src_base_shift s ∧
          (∀ t, Evaluable nsamp src_samples src_base_shift t → t < s →
            shift_bad disc src nsamp src_base_shift s < shift_bad disc src nsamp src_base_shift t) ∧
          (10 ≤ nsamp → ∀ t, Evaluable nsamp src_samples src_base_shift t →
            shift_bad disc src nsamp src_base_shift t ≤ shift_bad disc src nsamp src_base_shift s →
              t = s)) ∧
    ∀ (e : VerifyEnv) (disc : Nat → Sample) src_samples start count c2 speed_x s,
      (∀ p pos, (e.anchor_read p (anchor_req count c2 speed_x pos)).2 = ACCUDISC_OK →
        Delivers (fun i => disc (anchor_base start pos + i)) pos 0
          (e.anchor_read p (anchor_req count c2 speed_x pos)).1
          (anchor_sectors count)) →
      align_span e src_samples start count c2 speed_x = .ok s →
      ∃ pos ∈ anchor_positions start count, SpanAligned disc e.source src_samples (anchor_base start pos)
        (anchor_sectors count * SAMPLES_PER_SECTOR) s := by
  constructor
  · intro disc src nsamp src_samples base hn
    refine ⟨score_shifts_iff hn, fun s hs => ?_⟩
    obtain ⟨hw, hfirst⟩ := score_shifts_some hn hs
    refine ⟨hw, hfirst, fun h10 t ht hle => ?_⟩
    by_contra hne
    have := hw.apart t ht hne
    omega
  · intro e disc src_samples start count c2 speed_x s hread h
    obtain ⟨p, pos, hpos, ha⟩ := align_loop_ok h
    obtain ⟨hok, hwin, hs⟩ := align_anchor_ok ha
    have hsec : anchor_sectors count * SAMPLES_PER_SECTOR < 2 ^ 32 := by
      unfold anchor_sectors VERIFY_ANCHOR_SECTORS SAMPLES_PER_SECTOR
      split <;> omega
    have hbuf : AnchorFilled (fun i => disc (anchor_base start pos + i)) pos (anchor_sectors count)
      (anchor_sectors count)
        (anchor_filled e count c2 speed_x p pos) :=
      anchor_sink_filled (m := 0) ⟨rfl, rfl, fun j hj =>
        absurd hj (by rw [Nat.zero_mul]; exact Nat.not_lt_zero j)⟩
        (hread p pos hok)
    have hscore {t : Int} (ht : Reaches src_samples (anchor_base start pos)
      (anchor_sectors count * SAMPLES_PER_SECTOR) t) :=
      anchor_scored (e := e) hbuf.samples ht
    have hev := evaluable_window hwin
    obtain ⟨hw, -⟩ := score_shifts_some hsec hs
    have hreach := (hev s).1 hw.evaluable
    refine ⟨pos, hpos, hreach, fun t ht => ?_, ?_, fun t ht hne => ?_⟩
    · rw [← hscore hreach, ← hscore ht]
      exact hw.least t ((hev t).2 ht)
    · rw [← hscore hreach]
      exact hw.limit
    · rw [← hscore hreach, ← hscore ht]
      exact hw.apart t ((hev t).2 ht) hne

/-- A window at which one shift alone is evaluable, and no sample differs. -/
theorem verify_alignment_exact_one :
    (score_shifts (fun _ => 0) (fun _ => 0) 100 100 4704).isSome = true := by
  have hbad : ∀ s, shift_bad (fun _ => 0) (fun _ => 0) 100 4704 s = 0 := by
    intro s
    unfold shift_bad mismatches
    simp [sample_at]
  refine (verify_alignment_exact.1 (fun _ => 0) (fun _ => 0) 100 100 4704 (by decide)).1.2
    ⟨4704, ?_, ?_, ?_, ?_⟩
  · unfold Evaluable
    decide
  · intro t _
    rw [hbad, hbad]
  · rw [hbad]
    decide
  · intro t ht hne
    unfold Evaluable ACCUDISC_VERIFY_SHIFT_MAX at ht
    omega

end Accudisc
