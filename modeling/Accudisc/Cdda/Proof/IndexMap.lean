import Accudisc.Cdda.IndexMap

/-!
# What the pregap verdicts rest on

The CRC-good frames of the scan decide the entry of a track; a bad frame is counted, and ends the walk
down. `ScanInv` is what the walk up has found among the frames before it. A pregap whose frames all have
relative time zero is seen and then forgotten: `ZeroPregap` is that case.
-/

namespace Accudisc

/-- The scan has the sector. -/
def InScan (base_lba : Int) (count : Nat) (lba : Int) : Prop :=
  base_lba ≤ lba ∧ lba < base_lba + int32 count

instance (base_lba : Int) (count : Nat) (lba : Int) : Decidable (InScan base_lba count lba) :=
  inferInstanceAs (Decidable (_ ∧ _))

/-- The CRC-good frame of a sector of the scan. -/
def good_frame (raw : Mem) (base_lba : Int) (count : Nat) (lba : Int) : Option AccuQ :=
  if InScan base_lba count lba ∧ (scan_q raw base_lba lba).crc_ok = true then some (scan_q raw base_lba lba)
  else none

/-- The scan covers the sector before the track. -/
def Covered (base_lba : Int) (count : Nat) (trk : AccuTrack) : Prop :=
  InScan base_lba count (int32 trk.lba - 1)

/-- A CRC-good position frame before the track that carries its number with index 0. -/
def Index0 (raw : Mem) (base_lba : Int) (count : Nat) (trk : AccuTrack) (lba : Int) (q : AccuQ) : Prop :=
  int32 trk.lba - PREGAP_SCAN_FRAMES ≤ lba ∧ lba < int32 trk.lba ∧
    good_frame raw base_lba count lba = some q ∧
    q.adr = ACCUDISC_Q_POSITION ∧ q.tno = trk.number ∧ q.index = 0

/-- Going down from the track, the first frame that is not a CRC-good MCN or ISRC frame is a CRC-good
position frame. -/
def CleanApproach (raw : Mem) (base_lba : Int) (count : Nat) (trk : AccuTrack) : Prop :=
  ∃ lba q, int32 trk.lba - PREGAP_SCAN_FRAMES ≤ lba ∧ lba < int32 trk.lba ∧
    good_frame raw base_lba count lba = some q ∧ q.adr = ACCUDISC_Q_POSITION ∧
    ∀ above, lba < above → above < int32 trk.lba →
      ∃ q', good_frame raw base_lba count above = some q' ∧ q'.adr ≠ ACCUDISC_Q_POSITION

/-- The track's index 0 was seen, at relative time zero only, with a clean frame next to the boundary. -/
def ZeroPregap (raw : Mem) (base_lba : Int) (count : Nat) (trk : AccuTrack) : Prop :=
  (∃ lba q, Index0 raw base_lba count trk lba q) ∧
    (∀ lba q, Index0 raw base_lba count trk lba q → rel_frames q = 0) ∧ CleanApproach raw base_lba count trk

/-- NONE and UNKNOWN taken for one. -/
def PregapState.blurred (s : PregapState) : PregapState := if s = .NONE then .UNKNOWN else s

/-- Equal but for the count of bad frames and the choice between NONE and UNKNOWN. -/
def SameButBad (m m' : IndexMap) : Prop :=
  { m with crc_bad := 0, pregap_state := m.pregap_state.blurred } =
    { m' with crc_bad := 0, pregap_state := m'.pregap_state.blurred }

/-- What the verdict on a track says, and rests on. -/
structure VerdictRight (raw : Mem) (base_lba : Int) (count : Nat) (trk : AccuTrack) (m : IndexMap) :
    Prop where
  none : m.pregap_state = .NONE →
    (∀ lba q, ¬Index0 raw base_lba count trk lba q) ∧ CleanApproach raw base_lba count trk
  present : m.pregap_state = .PRESENT →
    (∃ lba q, Index0 raw base_lba count trk lba q ∧ rel_frames q = m.pregap_frames) ∧
      (∀ lba q, Index0 raw base_lba count trk lba q → rel_frames q ≤ m.pregap_frames) ∧
      m.index0_lba = int32 trk.lba - m.pregap_frames
  bad : ∀ raw' base_lba' count', Covered base_lba' count' trk →
    (∀ lba, int32 trk.lba - PREGAP_SCAN_FRAMES ≤ lba → lba ≤ int32 trk.lba →
      good_frame raw base_lba count lba = good_frame raw' base_lba' count' lba) →
    SameButBad m (index_map_entry raw' base_lba' (base_lba' + int32 count') trk)

section
variable {raw raw' : Mem} {base_lba base_lba' lba : Int} {count count' k : Nat}
  {trk : AccuTrack} {q : AccuQ}
  {s s' : ApproachScan} {m : IndexMap}

/-! ## The walk up -/

/-- The bad frames out of account. -/
def ApproachScan.unbad (s : ApproachScan) : ApproachScan := { s with m := { s.m with crc_bad := 0 } }

theorem approach_frame_bad (h : q.crc_ok = false) : (approach_frame s lba q).unbad = s.unbad := by
  unfold approach_frame ApproachScan.unbad
  simp [h]

theorem approach_frame_unbad (h : q.crc_ok = true) (hs : s.unbad = s'.unbad) :
    (approach_frame s lba q).unbad = (approach_frame s' lba q).unbad := by
  obtain ⟨m, seen, rel⟩ := s
  obtain ⟨m', seen', rel'⟩ := s'
  obtain ⟨t, st, mi, i1, qi, i0, pf, ok, bad⟩ := m
  obtain ⟨t', st', mi', i1', qi', i0', pf', ok', bad'⟩ := m'
  simp only [ApproachScan.unbad, ApproachScan.mk.injEq, IndexMap.mk.injEq, and_true] at hs
  obtain ⟨⟨rfl, rfl, rfl, rfl, rfl, rfl, rfl, rfl⟩, rfl, rfl⟩ := hs
  unfold approach_frame ApproachScan.unbad
  simp only [h, Bool.not_true, Bool.false_eq_true, if_false]
  split
  · rfl
  split
  · split
    · rfl
    · split <;> rfl
  · rfl

/-- The frame of the walk's turn `k`. -/
def approach_lba (trk : AccuTrack) (k : Nat) : Int := int32 trk.lba - PREGAP_SCAN_FRAMES + k

/-- One turn of the walk. -/
def approach_turn (raw : Mem) (base_lba : Int) (count : Nat) (trk : AccuTrack)
    (s : ApproachScan) (k : Nat) :
    ApproachScan :=
  if InScan base_lba count (approach_lba trk k) then
    approach_frame s (approach_lba trk k) (scan_q raw base_lba (approach_lba trk k))
  else s

/-- A turn, out of account what is bad: it is decided by the good frame, if there is one. -/
theorem approach_turn_good (hq : good_frame raw base_lba count (approach_lba trk k) = some q) :
    approach_turn raw base_lba count trk s k = approach_frame s (approach_lba trk k) q ∧
      q.crc_ok = true := by
  unfold good_frame at hq
  split at hq
  · rename_i h
    cases hq
    exact ⟨if_pos h.1, h.2⟩
  · cases hq

theorem approach_turn_none (hq : good_frame raw base_lba count (approach_lba trk k) = none) :
    (approach_turn raw base_lba count trk s k).unbad = s.unbad := by
  unfold good_frame at hq
  unfold approach_turn
  split
  · rename_i h
    refine approach_frame_bad ?_
    by_contra hok
    rw [if_pos ⟨h, Bool.not_eq_false _ ▸ hok⟩] at hq
    cases hq
  · rfl

theorem approach_turn_congr (hs : s.unbad = s'.unbad)
    (hq : good_frame raw base_lba count (approach_lba trk k) =
      good_frame raw' base_lba' count' (approach_lba trk k)) :
    (approach_turn raw base_lba count trk s k).unbad =
      (approach_turn raw' base_lba' count' trk s' k).unbad := by
  cases hg : good_frame raw base_lba count (approach_lba trk k) with
  | none => rw [approach_turn_none hg, approach_turn_none (hq.symm.trans hg), hs]
  | some q =>
    obtain ⟨h1, hok⟩ := approach_turn_good (s := s) hg
    obtain ⟨h2, -⟩ := approach_turn_good (s := s') (hq.symm.trans hg)
    rw [h1, h2]
    exact approach_frame_unbad hok hs

/-- The entry before the walk. -/
def blank_entry (trk : AccuTrack) : IndexMap := { track := trk.number, index1_lba := int32 trk.lba }

/-- The walk over its first `n` turns. -/
def approach_run (raw : Mem) (base_lba : Int) (count : Nat) (trk : AccuTrack) (n : Nat) : ApproachScan :=
  (List.range n).foldl (approach_turn raw base_lba count trk) { m := blank_entry trk }

/-- What the walk leaves of the track's entry, and has found. -/
structure ScanInv (raw : Mem) (base_lba : Int) (count : Nat) (trk : AccuTrack) (k : Nat)
    (s : ApproachScan) :
    Prop where
  track : s.m.track = trk.number
  start : s.m.index1_lba = int32 trk.lba
  state : s.m.pregap_state = .NO_DATA
  seen : s.pregap_seen = true ↔ ∃ j < k, ∃ q, Index0 raw base_lba count trk (approach_lba trk j) q
  most : ∀ j < k, ∀ q, Index0 raw base_lba count trk (approach_lba trk j) q → rel_frames q ≤ s.max_rel
  attained : s.max_rel ≠ 0 → ∃ j < k, ∃ q, Index0 raw base_lba count trk (approach_lba trk j) q ∧
    rel_frames q = s.max_rel

/-- The fields that a frame leaves, and its part in the pregap. -/
theorem approach_frame_spec (s : ApproachScan) (lba : Int) (q : AccuQ) :
    (approach_frame s lba q).m.track = s.m.track ∧ (approach_frame s lba q).m.index1_lba = s.m.index1_lba ∧
    (approach_frame s lba q).m.pregap_state = s.m.pregap_state ∧
    if q.crc_ok = true ∧ q.adr = ACCUDISC_Q_POSITION ∧ q.tno = s.m.track ∧ q.index = 0 ∧
      lba < s.m.index1_lba then
      (approach_frame s lba q).pregap_seen = true ∧
        (approach_frame s lba q).max_rel = max s.max_rel (rel_frames q)
    else
      (approach_frame s lba q).pregap_seen = s.pregap_seen ∧
        (approach_frame s lba q).max_rel = s.max_rel := by
  unfold approach_frame
  by_cases hok : q.crc_ok = true
  · by_cases hadr : q.adr = ACCUDISC_Q_POSITION
    · by_cases htno : q.tno = s.m.track
      · by_cases h0 : q.index = 0 ∧ lba < s.m.index1_lba
        · simp only [hok, hadr, htno, h0, Bool.not_true, Bool.false_eq_true, if_false, ne_eq,
            not_true_eq_false,
            if_true, and_self, true_and]
          rw [max_def]
          split <;> split <;> omega
        · rw [if_neg (c := q.crc_ok = true ∧ _) fun h => h0 h.2.2.2]
          simp only [hok, hadr, htno, h0, Bool.not_true, Bool.false_eq_true, if_false, ne_eq,
            not_true_eq_false,
            if_true]
          split <;> exact ⟨rfl, rfl, rfl, rfl, rfl⟩
      · rw [if_neg (c := q.crc_ok = true ∧ _) fun h => htno h.2.2.1]
        simp [hok, hadr, htno]
    · rw [if_neg (c := q.crc_ok = true ∧ _) fun h => hadr h.2.1]
      simp [hok, hadr]
  · rw [if_neg (c := q.crc_ok = true ∧ _) fun h => hok h.1]
    simp [hok]

theorem ScanInv.init : ScanInv raw base_lba count trk 0 { m := blank_entry trk } where
  track := rfl
  start := rfl
  state := rfl
  seen := by simp
  most := fun j hj => absurd hj (Nat.not_lt_zero j)
  attained := fun h => absurd rfl h

/-- A turn whose frame is no index-0 frame of the track. -/
theorem ScanInv.other (h : ScanInv raw base_lba count trk k s)
    (hno : ∀ q, ¬Index0 raw base_lba count trk (approach_lba trk k) q)
    (htrack : s'.m.track = s.m.track) (hstart : s'.m.index1_lba = s.m.index1_lba)
    (hstate : s'.m.pregap_state = s.m.pregap_state) (hseen : s'.pregap_seen = s.pregap_seen)
    (hmax : s'.max_rel = s.max_rel) : ScanInv raw base_lba count trk (k + 1) s' where
  track := htrack.trans h.track
  start := hstart.trans h.start
  state := hstate.trans h.state
  seen := by
    rw [hseen, h.seen]
    constructor
    · intro hj
      obtain ⟨j, hj, q, hq⟩ := hj
      exact ⟨j, by omega, q, hq⟩
    · intro hj
      obtain ⟨j, hj, q, hq⟩ := hj
      rcases Nat.lt_succ_iff_lt_or_eq.1 hj with hlt | rfl
      · exact ⟨j, hlt, q, hq⟩
      · exact absurd hq (hno q)
  most := fun j hj q hq => by
    rw [hmax]
    rcases Nat.lt_succ_iff_lt_or_eq.1 hj with hlt | rfl
    · exact h.most j hlt q hq
    · exact absurd hq (hno q)
  attained := fun hne => by
    rw [hmax] at hne ⊢
    obtain ⟨j, hj, q, hq⟩ := h.attained hne
    exact ⟨j, by omega, q, hq⟩

theorem Index0.unique {q' : AccuQ} (h : Index0 raw base_lba count trk lba q)
    (h' : Index0 raw base_lba count trk lba q') : q' = q := by
  have := h'.2.2.1.symm.trans h.2.2.1
  exact Option.some.inj this

/-- **One turn of the walk up.** -/
theorem ScanInv.turn (h : ScanInv raw base_lba count trk k s) :
    ScanInv raw base_lba count trk (k + 1) (approach_turn raw base_lba count trk s k) := by
  have hlow : int32 trk.lba - PREGAP_SCAN_FRAMES ≤ approach_lba trk k := by
    unfold approach_lba
    omega
  unfold approach_turn
  by_cases hin : InScan base_lba count (approach_lba trk k)
  · rw [if_pos hin]
    obtain ⟨htrack, hstart, hstate, hgap⟩ :=
      approach_frame_spec s (approach_lba trk k) (scan_q raw base_lba (approach_lba trk k))
    rw [h.track, h.start] at hgap
    split at hgap
    · rename_i hzero
      obtain ⟨hok, hadr, htno, hidx, hbelow⟩ := hzero
      have hq : Index0 raw base_lba count trk (approach_lba trk k)
        (scan_q raw base_lba (approach_lba trk k)) :=
        ⟨hlow, hbelow, if_pos ⟨hin, hok⟩, hadr, htno, hidx⟩
      refine ⟨htrack.trans h.track, hstart.trans h.start, hstate.trans h.state, ?_, fun j hj q' hq' => ?_,
        fun hne => ?_⟩
      · exact ⟨fun _ => ⟨k, Nat.lt_succ_self k, _, hq⟩, fun _ => hgap.1⟩
      · rw [hgap.2]
        rcases Nat.lt_succ_iff_lt_or_eq.1 hj with hlt | rfl
        · exact (h.most j hlt q' hq').trans (le_max_left _ _)
        · rw [hq.unique hq']
          exact le_max_right _ _
      · rw [hgap.2] at hne ⊢
        rcases le_total (rel_frames (scan_q raw base_lba (approach_lba trk k))) s.max_rel with hle | hle
        · rw [max_eq_left hle] at hne ⊢
          obtain ⟨j, hj, q', hq'⟩ := h.attained hne
          exact ⟨j, by omega, q', hq'⟩
        · rw [max_eq_right hle]
          exact ⟨k, Nat.lt_succ_self k, _, hq, rfl⟩
    · rename_i hzero
      refine h.other (fun q hq => hzero ?_) htrack hstart hstate hgap.1 hgap.2
      obtain ⟨-, hbelow, hgood, hadr, htno, hidx⟩ := hq
      unfold good_frame at hgood
      split at hgood
      · rename_i hok
        cases hgood
        exact ⟨hok.2, hadr, htno, hidx, hbelow⟩
      · cases hgood
  · rw [if_neg hin]
    refine h.other (fun q hq => ?_) rfl rfl rfl rfl rfl
    have hgood := hq.2.2.1
    unfold good_frame at hgood
    rw [if_neg fun hh => hin hh.1] at hgood
    cases hgood

/-- **The walk up.** -/
theorem approach_run_inv (raw : Mem) (base_lba : Int) (count : Nat) (trk : AccuTrack) (n : Nat) :
    ScanInv raw base_lba count trk n (approach_run raw base_lba count trk n) :=
  Loop.foldl_range_inv (ScanInv raw base_lba count trk) .init fun _ _ _ hs => hs.turn

theorem approach_run_congr (n : Nat)
    (hq : ∀ k < n, good_frame raw base_lba count (approach_lba trk k) =
      good_frame raw' base_lba' count' (approach_lba trk k)) :
    (approach_run raw base_lba count trk n).unbad = (approach_run raw' base_lba' count' trk n).unbad := by
  induction n with
  | zero => simp only [approach_run, List.range_zero, List.foldl_nil]
  | succ n ih =>
    unfold approach_run at ih ⊢
    simp only [List.range_succ, List.foldl_append, List.foldl_cons, List.foldl_nil]
    exact approach_turn_congr (ih fun k hk => hq k (by omega)) (hq n (Nat.lt_succ_self n))

/-- The walk of the code is that walk. -/
theorem approach_scan_eq (raw : Mem) (base_lba : Int) (count : Nat) (trk : AccuTrack) :
    approach_scan raw base_lba (base_lba + int32 count) (blank_entry trk) =
      approach_run raw base_lba count trk (PREGAP_SCAN_FRAMES + 1) := by
  unfold approach_scan approach_run
  generalize PREGAP_SCAN_FRAMES + 1 = n
  refine List.foldl_ext _ _ _ fun s k _ => ?_
  unfold approach_turn approach_lba blank_entry
  simp only []
  by_cases hin : InScan base_lba count (int32 trk.lba - PREGAP_SCAN_FRAMES + k)
  · rw [if_pos hin, if_neg]
    unfold InScan at hin
    omega
  · rw [if_neg hin, if_pos]
    unfold InScan at hin
    omega

/-! ## The walk down -/

variable (raw) in
/-- The walk down from a sector of the scan: the first frame past the MCN and ISRC frames. -/
theorem approach_state_spec (n : Nat) (hlba : lba < base_lba + int32 count) :
    (approach_state raw base_lba n lba = .NONE ∨ approach_state raw base_lba n lba = .UNKNOWN) ∧
    (approach_state raw base_lba n lba = .NONE ↔ ∃ low q, lba - n < low ∧ low ≤ lba ∧
      good_frame raw base_lba count low = some q ∧ q.adr = ACCUDISC_Q_POSITION ∧
      ∀ above, low < above → above ≤ lba →
        ∃ q', good_frame raw base_lba count above = some q' ∧ q'.adr ≠ ACCUDISC_Q_POSITION) := by
  induction n generalizing lba with
  | zero =>
    refine ⟨.inr rfl, ⟨(fun h => by cases h), fun h => ?_⟩⟩
    obtain ⟨low, q, h1, h2, -⟩ := h
    omega
  | succ n ih =>
    unfold approach_state
    by_cases hbase : lba < base_lba
    · rw [if_pos hbase]
      refine ⟨.inr rfl, ⟨(fun h => by cases h), fun h => ?_⟩⟩
      obtain ⟨low, q, -, hle, hgood, -⟩ := h
      unfold good_frame InScan at hgood
      rw [if_neg fun hh => by omega] at hgood
      cases hgood
    rw [if_neg hbase]
    have hin : InScan base_lba count lba := ⟨by omega, hlba⟩
    by_cases hok : (scan_q raw base_lba lba).crc_ok = true
    · have hgood : good_frame raw base_lba count lba = some (scan_q raw base_lba lba) := if_pos ⟨hin, hok⟩
      simp only [hok, Bool.not_true, Bool.false_eq_true, if_false]
      by_cases hadr : (scan_q raw base_lba lba).adr = ACCUDISC_Q_POSITION
      · rw [if_neg (not_not.2 hadr)]
        refine ⟨.inl rfl,
          ⟨fun _ => ⟨lba, _, by omega, le_rfl, hgood, hadr, fun a h1 h2 => by omega⟩, fun _ => rfl⟩⟩
      · rw [if_pos hadr]
        obtain ⟨hcases, hiff⟩ := ih (show lba - 1 < base_lba + int32 count by omega)
        refine ⟨hcases, hiff.trans ⟨fun h => ?_, fun h => ?_⟩⟩
        · obtain ⟨low, q, h1, h2, hg, ha, habove⟩ := h
          refine ⟨low, q, by omega, by omega, hg, ha, fun a hl hu => ?_⟩
          rcases Int.lt_or_le a lba with hlt | hge
          · exact habove a hl (by omega)
          · obtain rfl : a = lba := by omega
            exact ⟨_, hgood, hadr⟩
        · obtain ⟨low, q, h1, h2, hg, ha, habove⟩ := h
          rcases Int.lt_or_le low lba with hlt | hge
          · exact ⟨low, q, by omega, by omega, hg, ha, fun a hl hu => habove a hl (by omega)⟩
          · obtain rfl : low = lba := by omega
            rw [hg] at hgood
            cases hgood
            exact absurd ha hadr
    · simp only [Bool.not_eq_true] at hok
      simp only []
      rw [if_pos (by rw [hok]; rfl)]
      refine ⟨.inr rfl, ⟨(fun h => by cases h), fun h => ?_⟩⟩
      obtain ⟨low, q, -, hle, hg, ha, habove⟩ := h
      have hbad : good_frame raw base_lba count lba = none := by
        unfold good_frame
        rw [if_neg fun hh => by rw [hok] at hh; exact Bool.false_ne_true hh.2]
      rcases Int.lt_or_le low lba with hlt | hge
      · obtain ⟨q', hq', -⟩ := habove lba hlt le_rfl
        rw [hbad] at hq'
        cases hq'
      · obtain rfl : low = lba := by omega
        rw [hbad] at hg
        cases hg

variable (raw) in
theorem approach_state_none_iff (hcov : Covered base_lba count trk) :
    approach_state raw base_lba PREGAP_SCAN_FRAMES (int32 trk.lba - 1) = .NONE ↔
      CleanApproach raw base_lba count trk := by
  refine (approach_state_spec raw PREGAP_SCAN_FRAMES hcov.2).2.trans ⟨fun h => ?_, fun h => ?_⟩
  · obtain ⟨low, q, h1, h2, hg, ha, habove⟩ := h
    exact ⟨low, q, by omega, by omega, hg, ha, fun a hl hu => habove a hl (by omega)⟩
  · obtain ⟨low, q, h1, h2, hg, ha, habove⟩ := h
    exact ⟨low, q, by omega, by omega, hg, ha, fun a hl hu => habove a hl (by omega)⟩

/-! ## The entry -/

variable (raw) in
/-- The entry of a covered track, from the two walks. -/
theorem index_map_entry_eq (hcov : Covered base_lba count trk) :
    index_map_entry raw base_lba (base_lba + int32 count) trk =
      let s := approach_run raw base_lba count trk (PREGAP_SCAN_FRAMES + 1)
      if s.pregap_seen ∧ 0 < s.max_rel then
        { s.m with pregap_state := .PRESENT, pregap_frames := s.max_rel, index0_lba := int32 trk.lba - s.max_rel }
      else { s.m with pregap_state := approach_state raw base_lba PREGAP_SCAN_FRAMES (int32 trk.lba - 1) } := by
  unfold index_map_entry
  simp only []
  rw [if_neg (by unfold Covered InScan at hcov; omega)]
  have := approach_scan_eq raw base_lba count trk
  unfold blank_entry at this
  rw [this]

/-- Frames before the track are turns of the walk. -/
theorem Index0.turn (h : Index0 raw base_lba count trk lba q) :
    ∃ j < PREGAP_SCAN_FRAMES + 1, Index0 raw base_lba count trk (approach_lba trk j) q := by
  have h1 := h.1
  have h2 := h.2.1
  refine ⟨(lba - (int32 trk.lba - PREGAP_SCAN_FRAMES)).toNat, by omega, ?_⟩
  have : approach_lba trk (lba - (int32 trk.lba - PREGAP_SCAN_FRAMES)).toNat = lba := by
    unfold approach_lba
    omega
  rw [this]
  exact h

variable (raw) in
/-- A blurred entry does not say whether the approach was clean. -/
theorem approach_state_blurred (hcov : Covered base_lba count trk) :
    (approach_state raw base_lba PREGAP_SCAN_FRAMES (int32 trk.lba - 1)).blurred = .UNKNOWN := by
  rcases (approach_state_spec raw PREGAP_SCAN_FRAMES hcov.2).1 with h | h
  · rw [h]
    rfl
  · rw [h]
    rfl

theorem sameButBad_of_unbad {st st' : PregapState} {pf : Nat} {i0 : Int} (hs : s.unbad = s'.unbad)
    (hst : st.blurred = st'.blurred) :
    SameButBad { s.m with pregap_state := st, pregap_frames := pf, index0_lba := i0 }
      { s'.m with pregap_state := st', pregap_frames := pf, index0_lba := i0 } := by
  have hm : { s.m with crc_bad := 0 } = { s'.m with crc_bad := 0 } := congrArg ApproachScan.m hs
  simp only [IndexMap.mk.injEq, and_true] at hm
  unfold SameButBad
  simp only [IndexMap.mk.injEq, and_true]
  exact ⟨hm.1, hst, hm.2.2.1, hm.2.2.2.1, hm.2.2.2.2.1, trivial, trivial, hm.2.2.2.2.2.2.2⟩

variable (raw raw') in
/-- What the two walks leave, blurred, is what the good frames say. -/
theorem index_map_entry_same (hcov : Covered base_lba count trk) (hcov' : Covered base_lba' count' trk)
    (hq : ∀ lba, int32 trk.lba - PREGAP_SCAN_FRAMES ≤ lba → lba ≤ int32 trk.lba →
      good_frame raw base_lba count lba = good_frame raw' base_lba' count' lba) :
    SameButBad (index_map_entry raw base_lba (base_lba + int32 count) trk)
      (index_map_entry raw' base_lba' (base_lba' + int32 count') trk) := by
  have hrun : (approach_run raw base_lba count trk (PREGAP_SCAN_FRAMES + 1)).unbad =
      (approach_run raw' base_lba' count' trk (PREGAP_SCAN_FRAMES + 1)).unbad :=
    approach_run_congr _ fun k hk => hq _ (by unfold approach_lba; omega) (by unfold approach_lba; omega)
  have hinv := approach_run_inv raw base_lba count trk (PREGAP_SCAN_FRAMES + 1)
  have hblur := approach_state_blurred raw hcov
  have hblur' := approach_state_blurred raw' hcov'
  rw [index_map_entry_eq raw hcov, index_map_entry_eq raw' hcov']
  generalize approach_run raw base_lba count trk (PREGAP_SCAN_FRAMES + 1) = s at *
  generalize approach_run raw' base_lba' count' trk (PREGAP_SCAN_FRAMES + 1) = s' at *
  generalize approach_state raw base_lba PREGAP_SCAN_FRAMES (int32 trk.lba - 1) = st at *
  generalize approach_state raw' base_lba' PREGAP_SCAN_FRAMES (int32 trk.lba - 1) = st' at *
  have hseen : s.unbad.pregap_seen = s'.unbad.pregap_seen := by rw [hrun]
  have hrel : s.unbad.max_rel = s'.unbad.max_rel := by rw [hrun]
  change s.pregap_seen = s'.pregap_seen at hseen
  change s.max_rel = s'.max_rel at hrel
  simp only [← hseen, ← hrel]
  by_cases hpres : s.pregap_seen = true ∧ 0 < s.max_rel
  · rw [if_pos hpres, if_pos hpres]
    exact sameButBad_of_unbad hrun rfl
  · rw [if_neg hpres, if_neg hpres]
    have hfields : s.m.pregap_frames = s'.m.pregap_frames ∧ s.m.index0_lba = s'.m.index0_lba := by
      have hm : { s.m with crc_bad := 0 } = { s'.m with crc_bad := 0 } := congrArg ApproachScan.m hrun
      simp only [IndexMap.mk.injEq] at hm
      exact ⟨hm.2.2.2.2.2.2.1, hm.2.2.2.2.2.1⟩
    have : SameButBad
      { s.m with pregap_state := st, pregap_frames := s.m.pregap_frames, index0_lba := s.m.index0_lba }
        { s'.m with pregap_state := st', pregap_frames := s.m.pregap_frames, index0_lba := s.m.index0_lba } :=
      sameButBad_of_unbad hrun (hblur.trans hblur'.symm)
    rw [show s'.m = { s'.m with pregap_frames := s.m.pregap_frames, index0_lba := s.m.index0_lba } by
      rw [hfields.1, hfields.2]]
    exact this

/-- **The verdict on a covered track** is right exactly where its pregap is not one of time zero only. -/
theorem index_map_entry_iff (hcov : Covered base_lba count trk) :
    VerdictRight raw base_lba count trk (index_map_entry raw base_lba (base_lba + int32 count) trk) ↔
      ¬ZeroPregap raw base_lba count trk := by
  have hinv := approach_run_inv raw base_lba count trk (PREGAP_SCAN_FRAMES + 1)
  have heq := index_map_entry_eq raw hcov
  have hnone := approach_state_none_iff raw hcov
  have hcases := (approach_state_spec raw PREGAP_SCAN_FRAMES hcov.2).1
  have hsame := fun raw' base_lba' count' (hcov' : Covered base_lba' count' trk) =>
    index_map_entry_same raw raw' hcov hcov'
  simp only [] at heq
  generalize approach_run raw base_lba count trk (PREGAP_SCAN_FRAMES + 1) = s at *
  generalize approach_state raw base_lba PREGAP_SCAN_FRAMES (int32 trk.lba - 1) = st at *
  have hseen : s.pregap_seen = true ↔ ∃ lba q, Index0 raw base_lba count trk lba q := by
    rw [hinv.seen]
    constructor
    · intro h
      obtain ⟨j, -, q, hq⟩ := h
      exact ⟨_, q, hq⟩
    · intro h
      obtain ⟨lba, q, hq⟩ := h
      obtain ⟨j, hj, hq'⟩ := hq.turn
      exact ⟨j, hj, q, hq'⟩
  have hmost : ∀ lba q, Index0 raw base_lba count trk lba q → rel_frames q ≤ s.max_rel := by
    intro lba q hq
    obtain ⟨j, hj, hq'⟩ := hq.turn
    exact hinv.most j hj q hq'
  constructor
  · intro hv hz
    obtain ⟨⟨lba, q, hq⟩, hzero, hclean⟩ := hz
    have hmax : ¬0 < s.max_rel := by
      intro hpos
      obtain ⟨j, -, q', hq', hr⟩ := hinv.attained (Nat.pos_iff_ne_zero.1 hpos)
      have := hzero _ q' hq'
      omega
    rw [if_neg fun hh => hmax hh.2] at heq
    refine (hv.none ?_).1 lba q hq
    rw [heq]
    exact hnone.2 hclean
  · intro hnz
    by_cases hpres : s.pregap_seen = true ∧ 0 < s.max_rel
    · rw [if_pos hpres] at heq
      refine ⟨fun hn => ?_, fun _ => ⟨?_, ?_, ?_⟩, hsame⟩
      · rw [heq] at hn
        cases hn
      · obtain ⟨j, -, q, hq, hr⟩ := hinv.attained (Nat.pos_iff_ne_zero.1 hpres.2)
        rw [heq]
        exact ⟨_, q, hq, hr⟩
      · rw [heq]
        exact hmost
      · rw [heq]
    · rw [if_neg hpres] at heq
      refine ⟨fun hn => ?_, fun hp => ?_, hsame⟩
      · rw [heq] at hn
        have hclean := hnone.1 hn
        refine ⟨fun lba q hq => hnz ⟨⟨lba, q, hq⟩, fun lba' q' hq' => ?_, hclean⟩, hclean⟩
        by_contra hne
        have := hmost lba' q' hq'
        exact hpres ⟨hseen.2 ⟨lba, q, hq⟩, by omega⟩
      · rw [heq] at hp
        have hp' : st = .PRESENT := hp
        rw [hp'] at hcases
        rcases hcases with h | h <;> cases h

end

/-- The verdicts of a whole map are right, track by track. -/
def VerdictsRight (raw : Mem) (base_lba : Int) (count : Nat) (toc : AccuToc) (max_out : Nat) : Prop :=
  ∀ (i : Nat) (trk : AccuTrack) (m : IndexMap), toc.tracks[i]? = some trk →
    (accudisc_index_map_decode raw base_lba count toc max_out)[i]? = some m → Covered base_lba count trk →
    VerdictRight raw base_lba count trk m

/-- **The pregap verdicts** are justified by the frames exactly where no covered track is one whose index 0
was seen at time zero only before a clean boundary. -/
theorem accudisc_index_map_decode_iff (raw : Mem) (base_lba : Int) (count : Nat) (toc : AccuToc)
    (max_out : Nat) :
    VerdictsRight raw base_lba count toc max_out ↔
      ∀ trk ∈ toc.tracks.take max_out, Covered base_lba count trk → ¬ZeroPregap raw base_lba count trk := by
  constructor
  · intro h trk htrk hcov
    obtain ⟨i, hi⟩ := List.mem_iff_getElem?.1 htrk
    have hlt : i < max_out := by
      by_contra hge
      rw [List.getElem?_take_eq_none (by omega)] at hi
      cases hi
    refine (index_map_entry_iff hcov).1 (h i trk _ ?_ ?_ hcov)
    · rwa [List.getElem?_take_of_lt hlt] at hi
    · unfold accudisc_index_map_decode
      rw [List.getElem?_map, hi]
      rfl
  · intro h i trk m htrk hm hcov
    unfold accudisc_index_map_decode at hm
    rw [List.getElem?_map, Option.map_eq_some_iff] at hm
    obtain ⟨trk', htrk', rfl⟩ := hm
    have hlt : i < max_out := by
      by_contra hge
      rw [List.getElem?_take_eq_none (by omega)] at htrk'
      cases htrk'
    have hsame := htrk'
    rw [List.getElem?_take_of_lt hlt, htrk] at hsame
    cases hsame
    exact (index_map_entry_iff hcov).2 (h trk (List.mem_of_getElem? htrk') hcov)

/-! ## A pregap of one frame -/

/-- The raw subcode of a Q frame. -/
def raw_of_q (q : List (BitVec 8)) : Mem := fun i =>
  if (q.getD (i / 8) 0).getLsbD (7 - i % 8) then 0x40 else 0

/-- Sector 499: track 2, index 0, relative time zero, with its CRC. -/
def zero_pregap_raw : Mem := raw_of_q [0x01, 0x02, 0, 0, 0, 0, 0, 0, 0x08, 0x49, 0x06, 0x99]

/-- Two tracks, the second at LBA 500. -/
def zero_pregap_toc : AccuToc where
  first_track := 1
  last_track := 2
  leadout_lba := 1000
  tracks := [{ number := 1, adr_ctrl := 0x10, session := 1, sectors := 500 },
    { number := 2, adr_ctrl := 0x10, session := 1, lba := 500, sectors := 500 }]

/-- The pregap that the scan saw is reported as none. -/
theorem accudisc_index_map_decode_forgets :
    ¬∀ raw base_lba count toc max_out, VerdictsRight raw base_lba count toc max_out := by
  intro h
  have hcov : Covered 499 1
    { number := 2, adr_ctrl := 0x10, session := 1, lba := 500, sectors := 500 } := by
    unfold Covered
    decide +kernel
  have hv := h zero_pregap_raw 499 1 zero_pregap_toc 2 1 _ _ rfl rfl hcov
  refine (hv.none (by decide +kernel)).1 499 (scan_q zero_pregap_raw 499 499) ?_
  exact ⟨by decide +kernel, by decide +kernel, if_pos ⟨hcov, by decide +kernel⟩, by decide +kernel,
    by decide +kernel, by decide +kernel⟩

end Accudisc
