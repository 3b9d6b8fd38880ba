import Accudisc.Drive.Census
import Mathlib.Data.List.Induction
import Mathlib.Algebra.GroupWithZero.Nat

/-!
# The census tiles its span

Turn `i` is at `start + i * cadence` as long as that is a `uint32_t`, and below the span's end exactly for
the first `census_spans` turns. Past them the address may have wrapped; then the census goes on, unless
something stops it.
-/

namespace Accudisc

/-- The sample that is given to `fn`. -/
def CensusEvent.delivered : CensusEvent → Option CensusSample
  | .deliver s => some s
  | _ => none

section
variable (e : CensusEnv) (o : CensusOpts)

/-- `ceil((end - start) / cadence)`. -/
def census_spans : Nat := (o.end_.toNat - o.start.toNat + census_cadence o - 1) / census_cadence o

def census_at (i : Nat) : Nat := o.start.toNat + i * census_cadence o

/-- Sample `i` of the tiling, with what was read for it. -/
def census_tile (i : Nat) : CensusSample where
  lba := census_at o i
  count := min (o.end_.toNat - census_at o i) (census_cadence o)
  counters := (e.scan_read i).2
  read_err := e.read i

/-- The statistics are the samples' sums and maxima. -/
structure CensusTotals (ss : List CensusSample) (st : CensusStats) : Prop where
  c1 : st.c1 = (ss.map fun s => s.counters.c1.toNat).sum
  c2 : st.c2 = (ss.map fun s => s.counters.c2.toNat).sum
  cu : st.cu = (ss.map fun s => s.counters.cu.toNat).sum
  peak_c1 : st.peak_c1 = (ss.map fun s => s.counters.c1.toNat).foldl max 0
  peak_c2 : st.peak_c2 = (ss.map fun s => s.counters.c2.toNat).foldl max 0
  peak_cu : st.peak_cu = (ss.map fun s => s.counters.cu.toNat).foldl max 0
  samples : st.samples = ss.length
  read_errors : st.read_errors = ss.countP fun s => s.read_err ≠ ACCUDISC_OK
  bler_checked : st.bler_checked = ss.countP fun s => s.counters.have_detail ≠ 0
  bler_mismatch : st.bler_mismatch = ss.countP fun s => s.counters.have_detail ≠ 0 ∧
    bler_holds s.counters = false

/-- What the census has done after `j` samples. -/
structure CensusTaken (j : Nat) (s : CensusScan) : Prop where
  samples : s.samples = (List.range j).map (census_tile e o)
  totals : s.st = s.samples.foldl census_account {}
  armed : CensusEvent.scan_end ∉ s.log
  delivered : s.log.filterMap CensusEvent.delivered = if e.fn.isSome then s.samples else []

/-- Why the loop is left with `ret` after `j` samples. -/
def CensusEnds (j : Nat) (ret : Int) : Prop :=
  (ret = ACCUDISC_OK ∧ j = census_spans o) ∨
    (ret = ACCUDISC_ERR_CANCELLED ∧ (e.cancel j = true ∨ ∃ i, j = i + 1 ∧ e.fn.any (· i) = true)) ∨
    (ret = (e.scan_read j).1 ∧ ret ≠ ACCUDISC_OK)

/-- A turn up to that of sample `n` is cancelled or loses the counters, or `fn` stops at one of the
`n` samples. -/
def CensusStops (n : Nat) : Prop :=
  ∃ i, (i ≤ n ∧ (e.cancel i = true ∨ (e.scan_read i).1 ≠ ACCUDISC_OK)) ∨ (i < n ∧ e.fn.any (· i) = true)

/-- A run of `k` turns, which has returned or has not yet. -/
structure CensusTiled (k : Nat) (run : Option Int × CensusScan) : Prop where
  samples : run.2.samples = (List.range run.2.samples.length).map (census_tile e o)
  within : run.2.samples.length ≤ census_spans o
  sectors : (run.2.samples.flatMap fun s => List.range' s.lba s.count) =
    List.range' o.start.toNat (min (run.2.samples.length * census_cadence o) (o.end_.toNat - o.start.toNat))
  full : ∀ s ∈ run.2.samples.dropLast, s.count = census_cadence o
  delivered : run.2.log.filterMap CensusEvent.delivered = if e.fn.isSome then run.2.samples else []
  totals : CensusTotals run.2.samples run.2.st
  returns : census_spans o < k → run.1 ≠ none
  ends : ∀ ret, run.1 = some ret → CensusEnds e o run.2.samples.length ret
  disarms : ∀ ret, run.1 = some ret → ∃ log, run.2.log = log ++ [.scan_end] ∧ CensusEvent.scan_end ∉ log

end

variable {e : CensusEnv} {o : CensusOpts} {j k : Nat} {s s' : CensusScan} {ret : Int}

/-! ## The spans -/

theorem census_cadence_pos (o : CensusOpts) : 0 < census_cadence o := by
  unfold census_cadence
  split
  · rename_i h
    exact Nat.pos_of_ne_zero fun h0 => h (BitVec.eq_of_toNat_eq h0)
  · decide

theorem census_at_succ (o : CensusOpts) (i : Nat) :
    census_at o (i + 1) = census_at o i + census_cadence o := by
  unfold census_at
  rw [Nat.succ_mul, Nat.add_assoc]

/-- The spans are those that begin below the end. -/
theorem census_spans_lt (hspan : o.start.toNat < o.end_.toNat) :
    j < census_spans o ↔ census_at o j < o.end_.toNat := by
  have hpos := census_cadence_pos o
  unfold census_spans census_at
  rw [Nat.lt_iff_add_one_le, Nat.le_div_iff_mul_le hpos, Nat.succ_mul]
  omega

/-- Where the address at the end of the tiling wraps, it is below the span's end. -/
theorem census_wraps_below (hspan : o.start.toNat < o.end_.toNat)
    (hwrap : ¬census_at o (census_spans o) < 2 ^ 32) :
    u32 (census_at o (census_spans o)) < o.end_.toNat := by
  have hend := o.end_.isLt
  have hcadence : census_cadence o < 2 ^ 32 := by
    unfold census_cadence
    split
    · exact o.cadence.isLt
    · decide
  have hfirst := (census_spans_lt hspan).2 (show census_at o 0 < o.end_.toNat by unfold census_at; omega)
  have hlast := (census_spans_lt hspan).1 (show census_spans o - 1 < census_spans o by omega)
  have hsucc := census_at_succ o (census_spans o - 1)
  rw [show census_spans o - 1 + 1 = census_spans o by omega] at hsucc
  unfold u32
  omega

/-- The tiles one after the other. -/
theorem census_tiles_sectors (hspan : o.start.toNat < o.end_.toNat) (hj : j ≤ census_spans o) :
    (((List.range j).map (census_tile e o)).flatMap fun s => List.range' s.lba s.count) =
      List.range' o.start.toNat (min (j * census_cadence o) (o.end_.toNat - o.start.toNat)) := by
  induction j with
  | zero => simp
  | succ j ih =>
    have hlt := (census_spans_lt hspan).1 hj
    unfold census_at at hlt
    rw [List.range_succ, List.map_append, List.flatMap_append, ih (by omega)]
    simp only [List.map_cons, List.map_nil, List.flatMap_cons, List.flatMap_nil, List.append_nil]
    rw [Nat.min_eq_left (by omega)]
    show _ ++ List.range' (census_at o j) (min (o.end_.toNat - census_at o j) (census_cadence o)) = _
    unfold census_at
    rw [List.range'_append_1, Nat.succ_mul]
    congr 1
    omega

theorem census_tile_full (hspan : o.start.toNat < o.end_.toNat) (hj : j + 1 < census_spans o) :
    (census_tile e o j).count = census_cadence o := by
  have hlt := (census_spans_lt hspan).1 hj
  rw [census_at_succ] at hlt
  show min (o.end_.toNat - census_at o j) (census_cadence o) = _
  exact Nat.min_eq_right (by omega)

/-! ## The statistics -/

theorem raise_peak_eq (peak : Nat) (x : BitVec 32) : raise_peak peak x = max peak x.toNat := by
  unfold raise_peak
  split <;> omega

/-- A sum of so many counters is far below `2^64`. -/
theorem census_sum_le (f : CensusSample → BitVec 32) (ss : List CensusSample) :
    (ss.map fun s => (f s).toNat).sum ≤ ss.length * 2 ^ 32 := by
  induction ss with
  | nil => simp
  | cons s ss ih =>
    have := (f s).isLt
    rw [List.map_cons, List.sum_cons, List.length_cons, Nat.succ_mul]
    omega

theorem census_totals (ss : List CensusSample) (h : ss.length < 2 ^ 32) :
    CensusTotals ss (ss.foldl census_account {}) := by
  induction ss using List.reverseRecOn with
  | nil => exact ⟨rfl, rfl, rfl, rfl, rfl, rfl, rfl, rfl, rfl, rfl⟩
  | append_singleton ss s ih =>
    rw [List.length_append, List.length_singleton] at h
    obtain ⟨h1, h2, h3, h4, h5, h6, h7, h8, h9, h10⟩ := ih (by omega)
    rw [List.foldl_append, List.foldl_cons, List.foldl_nil]
    have hsum (f : CensusSample → BitVec 32) : u64 ((ss.map fun s => (f s).toNat).sum + (f s).toNat) =
        ((ss ++ [s]).map fun s => (f s).toNat).sum := by
      have h1 := census_sum_le f ss
      have h2 := (f s).isLt
      rw [List.map_append, List.sum_append, List.map_singleton, List.sum_singleton]
      exact Nat.mod_eq_of_lt (by omega)
    have hpeak (f : CensusSample → BitVec 32) :
      raise_peak ((ss.map fun s => (f s).toNat).foldl max 0) (f s) =
        ((ss ++ [s]).map fun s => (f s).toNat).foldl max 0 := by
      rw [List.map_append, List.foldl_append, raise_peak_eq]
      rfl
    have hcount (p : CensusSample → Bool) (n : Nat) (hn : n = ss.countP p) :
        (if p s = true then u32 (n + 1) else n) = (ss ++ [s]).countP p := by
      have hle : ss.countP p ≤ ss.length := List.countP_le_length
      rw [List.countP_append, List.countP_singleton, hn]
      split
      · exact Nat.mod_eq_of_lt (by omega)
      · rfl
    refine ⟨?_, ?_, ?_, ?_, ?_, ?_, ?_, ?_, ?_, ?_⟩
    · rw [← hsum, ← h1]
      rfl
    · rw [← hsum, ← h2]
      rfl
    · rw [← hsum, ← h3]
      rfl
    · rw [← hpeak, ← h4]
      rfl
    · rw [← hpeak, ← h5]
      rfl
    · rw [← hpeak, ← h6]
      rfl
    · rw [List.length_append, ← h7]
      exact Nat.mod_eq_of_lt (by rw [h7]; simp; omega)
    · rw [← hcount _ _ h8]
      simp only [decide_eq_true_eq]
      rfl
    · rw [← hcount _ _ h9]
      simp only [decide_eq_true_eq]
      rfl
    · rw [← hcount _ _ h10]
      simp only [decide_eq_true_eq]
      unfold census_account
      by_cases hd : s.counters.have_detail ≠ 0 <;> by_cases hb : bler_holds s.counters = true <;>
        simp_all

/-! ## The turns -/

theorem CensusTaken.length (h : CensusTaken e o j s) : s.samples.length = j := by
  rw [h.samples, List.length_map, List.length_range]

theorem census_sample_eq (h : CensusTaken e o j s) (hlba : s.lba = census_at o j)
    (hlt : census_at o j < o.end_.toNat) :
    census_sample e o s = census_tile e o j := by
  have hend := o.end_.isLt
  have hremain : sub32 o.end_.toNat (census_at o j) = o.end_.toNat - census_at o j := by
    unfold sub32
    omega
  unfold census_sample census_tile
  simp only [hlba, hremain, h.length, CensusSample.mk.injEq, true_and, and_true]
  split <;> omega

/-- The log of a turn once the counters are read. -/
def read_log (s : CensusScan) (x : CensusSample) : List CensusEvent :=
  s.log ++ [.read x.lba x.count, .scan_read]

theorem CensusTaken.reads (h : CensusTaken e o j s) (x : CensusSample) :
    CensusTaken e o j { s with log := read_log s x } := by
  refine ⟨h.samples, h.totals, by simp [read_log, h.armed], ?_⟩
  show (s.log ++ _).filterMap CensusEvent.delivered = _
  rw [List.filterMap_append, h.delivered]
  exact List.append_nil _

/-- The scan with one sample more. -/
theorem CensusTaken.takes (h : CensusTaken e o j s) (lba : Nat) : CensusTaken e o (j + 1)
    { lba
      st := census_account s.st (census_tile e o j)
      samples := s.samples ++ [census_tile e o j]
      log := if e.fn.isSome then read_log s (census_tile e o j) ++ [.deliver (census_tile e o j)]
        else read_log s (census_tile e o j) } := by
  have hreads := h.reads (census_tile e o j)
  refine ⟨?_, ?_, ?_, ?_⟩
  · rw [List.range_succ, List.map_append, ← h.samples]
    rfl
  · rw [List.foldl_append, ← h.totals]
    rfl
  · show _ ∉ if e.fn.isSome = true then _ else _
    split
    · simp [hreads.armed]
    · exact hreads.armed
  · show List.filterMap _ (if e.fn.isSome = true then _ else _) = if e.fn.isSome = true then _ else _
    have hdelivered := hreads.delivered
    by_cases hfn : e.fn.isSome = true
    · rw [if_pos hfn] at hdelivered
      rw [if_pos hfn, if_pos hfn, List.filterMap_append, hdelivered]
      rfl
    · rw [if_neg hfn] at hdelivered
      rw [if_neg hfn, if_neg hfn, hdelivered]

/-- **One turn** below the span's end. -/
theorem census_turn_cases (h : CensusTaken e o j s) (hlba : s.lba = census_at o j)
    (hlt : census_at o j < o.end_.toNat) :
    (e.cancel j = true ∧ census_turn e o s = (some ACCUDISC_ERR_CANCELLED, s)) ∨
      (e.cancel j = false ∧ (e.scan_read j).1 ≠ ACCUDISC_OK ∧
        ∃ s', CensusTaken e o j s' ∧ census_turn e o s = (some (e.scan_read j).1, s')) ∨
      (e.cancel j = false ∧ (e.scan_read j).1 = ACCUDISC_OK ∧ ∃ s', CensusTaken e o (j + 1) s' ∧
        ((e.fn.any (· j) = true ∧ census_turn e o s = (some ACCUDISC_ERR_CANCELLED, s')) ∨
          (e.fn.any (· j) = false ∧ s'.lba = u32 (census_at o (j + 1)) ∧
            census_turn e o s = (none, s')))) := by
  have hsample := census_sample_eq h hlba hlt
  unfold census_turn
  rw [if_neg (by omega)]
  simp only [hsample, h.length]
  by_cases hcancel : e.cancel j = true
  · exact .inl ⟨hcancel, if_pos hcancel⟩
  rw [if_neg hcancel]
  rw [Bool.not_eq_true] at hcancel
  by_cases hread : (e.scan_read j).1 ≠ ACCUDISC_OK
  · exact .inr (.inl ⟨hcancel, hread, _, h.reads (census_tile e o j), if_pos hread⟩)
  rw [if_neg hread]
  refine .inr (.inr ⟨hcancel, not_not.1 hread, ?_⟩)
  by_cases hstop : e.fn.any (· j) = true
  · rw [if_pos hstop]
    exact ⟨_, h.takes s.lba, .inl ⟨hstop, rfl⟩⟩
  · rw [if_neg hstop]
    refine ⟨_, h.takes (u32 (s.lba + census_cadence o)), .inr ⟨Bool.not_eq_true _ ▸ hstop, ?_, rfl⟩⟩
    rw [census_at_succ, hlba]

/-- Below the end, in a turn that nothing stops, a sample is taken. -/
theorem census_turn_takes (hlt : s.lba < o.end_.toNat) (hcancel : e.cancel s.samples.length = false)
    (hread : (e.scan_read s.samples.length).1 = ACCUDISC_OK) :
    (census_turn e o s).2.samples.length = s.samples.length + 1 := by
  unfold census_turn
  rw [if_neg (by omega), if_neg (by simp [hcancel])]
  simp only []
  rw [if_neg (not_not.2 hread)]
  split <;> simp

/-! ## The runs -/

theorem census_loop_next (h : census_turn e o s = (none, s')) :
    census_loop e o (k + 1) s = census_loop e o k s' := by
  rw [census_loop, h]

theorem census_loop_left (h : census_turn e o s = (some ret, s')) :
    census_loop e o (k + 1) s = (some ret, s') := by
  rw [census_loop, h]

/-- Turn `i` goes on. -/
def CensusGoesOn (e : CensusEnv) (i : Nat) : Prop :=
  e.cancel i = false ∧ (e.scan_read i).1 = ACCUDISC_OK ∧ e.fn.any (· i) = false

theorem census_goes_on (hspan : o.start.toNat < o.end_.toNat) (hj : j ≤ census_spans o)
    (hgo : ∀ i < j, CensusGoesOn e i) (h : CensusTaken e o 0 s) (hlba : s.lba = o.start.toNat) :
    ∃ s', CensusTaken e o j s' ∧ s'.lba = u32 (census_at o j) ∧
      ∀ k, census_loop e o (j + k) s = census_loop e o k s' := by
  induction j with
  | zero =>
    refine ⟨s, h, ?_, fun k => by rw [Nat.zero_add]⟩
    unfold census_at
    rw [Nat.zero_mul, Nat.add_zero, hlba]
    exact (Nat.mod_eq_of_lt o.start.isLt).symm
  | succ j ih =>
    obtain ⟨t, ht, htlba, hloop⟩ := ih (by omega) fun i hi => hgo i (by omega)
    have hlt := (census_spans_lt hspan).1 hj
    have hend := o.end_.isLt
    rw [show u32 (census_at o j) = census_at o j from Nat.mod_eq_of_lt (by omega)] at htlba
    obtain ⟨h1, h2, h3⟩ := hgo j (Nat.lt_succ_self j)
    rcases census_turn_cases ht htlba hlt with ⟨hc, -⟩ | ⟨-, hr, -⟩ | ⟨-, -, t', ht',
      ⟨hs, -⟩ | ⟨-, hlba', hturn⟩⟩
    · rw [h1] at hc
      cases hc
    · exact absurd h2 hr
    · rw [h3] at hs
      cases hs
    · refine ⟨t', ht', hlba', fun k => ?_⟩
      rw [show j + 1 + k = j + (k + 1) by omega, hloop]
      exact census_loop_next hturn

/-- The address at the end of the tiling does not wrap, or something stops the census before a
sample past it. -/
def CensusBounded (e : CensusEnv) (o : CensusOpts) : Prop :=
  census_at o (census_spans o) < 2 ^ 32 ∨ CensusStops e (census_spans o)

/-- **The run**: what `k` turns bring from sample `j` on. -/
theorem census_loop_spec (hspan : o.start.toNat < o.end_.toNat) (hb : CensusBounded e o)
    (hj : j ≤ census_spans o)
    (hgo : ∀ i < j, CensusGoesOn e i) (h : CensusTaken e o j s) (hlba : s.lba = u32 (census_at o j)) :
    ∃ m ≤ census_spans o, CensusTaken e o m (census_loop e o k s).2 ∧
      (∀ ret, (census_loop e o k s).1 = some ret → CensusEnds e o m ret) ∧
      (census_spans o < j + k → (census_loop e o k s).1 ≠ none) := by
  have hend := o.end_.isLt
  induction k generalizing j s with
  | zero => exact ⟨j, hj, h, (fun ret hret => by cases hret), fun hlt => by omega⟩
  | succ k ih =>
    -- the turn leaves the loop after `m` samples
    have hleave : ∀ m ≤ census_spans o, ∀ ret t, CensusTaken e o m t → census_turn e o s = (some ret, t) →
        CensusEnds e o m ret → ∃ m ≤ census_spans o, CensusTaken e o m (census_loop e o (k + 1) s).2 ∧
          (∀ ret, (census_loop e o (k + 1) s).1 = some ret → CensusEnds e o m ret) ∧
          (census_spans o < j + (k + 1) → (census_loop e o (k + 1) s).1 ≠ none) := by
      intro m hm ret t ht hturn hends
      rw [census_loop_left hturn]
      refine ⟨m, hm, ht, fun ret' hret => ?_, fun _ hnone => by cases hnone⟩
      cases hret
      exact hends
    by_cases hlt : j < census_spans o
    · have hat := (census_spans_lt hspan).1 hlt
      rw [show u32 (census_at o j) = census_at o j from Nat.mod_eq_of_lt (by omega)] at hlba
      rcases census_turn_cases h hlba hat with
        ⟨hc, hturn⟩ | ⟨-, hr, t, ht, hturn⟩ | ⟨hc, hr, t, ht, ⟨hs, hturn⟩ | ⟨hs, hlba', hturn⟩⟩
      · exact hleave j hj _ _ h hturn (.inr (.inl ⟨rfl, .inl hc⟩))
      · exact hleave j hj _ _ ht hturn (.inr (.inr ⟨rfl, hr⟩))
      · exact hleave (j + 1) hlt _ _ ht hturn (.inr (.inl ⟨rfl, .inr ⟨j, rfl, hs⟩⟩))
      · have hgo' : ∀ i < j + 1, CensusGoesOn e i := by
          intro i hi
          rcases Nat.lt_succ_iff_lt_or_eq.1 hi with hi | rfl
          · exact hgo i hi
          · exact ⟨hc, hr, hs⟩
        rw [census_loop_next hturn, show j + (k + 1) = j + 1 + k by omega]
        exact ih hlt hgo' ht hlba'
    · obtain rfl : j = census_spans o := by omega
      have hpast : o.end_.toNat ≤ census_at o (census_spans o) :=
        Nat.not_lt.1 fun h => Nat.lt_irrefl _ ((census_spans_lt hspan).2 h)
      by_cases hwrap : census_at o (census_spans o) < 2 ^ 32
      · refine hleave _ hj ACCUDISC_OK s h ?_ (.inl ⟨rfl, rfl⟩)
        unfold census_turn
        rw [hlba, show u32 (census_at o (census_spans o)) = _ from Nat.mod_eq_of_lt hwrap]
        exact if_pos hpast
      · -- the address has wrapped below the end, and only this turn is left to stop
        have hless : s.lba < o.end_.toNat := hlba ▸ census_wraps_below hspan hwrap
        have hstop : e.cancel (census_spans o) = true ∨ (e.scan_read (census_spans o)).1 ≠ ACCUDISC_OK := by
          obtain ⟨i, ⟨hi, hst⟩ | ⟨hi, hst⟩⟩ := hb.resolve_left hwrap
          · rcases Nat.lt_or_eq_of_le hi with hi | rfl
            · obtain ⟨h1, h2, -⟩ := hgo i hi
              rcases hst with hst | hst
              · rw [h1] at hst
                cases hst
              · exact absurd h2 hst
            · exact hst
          · rw [(hgo i hi).2.2] at hst
            cases hst
        by_cases hcancel : e.cancel (census_spans o) = true
        · refine hleave _ hj ACCUDISC_ERR_CANCELLED s h ?_ (.inr (.inl ⟨rfl, .inl hcancel⟩))
          unfold census_turn
          rw [if_neg (by omega), if_pos (by rw [h.length]; exact hcancel)]
        · have hread := hstop.resolve_left hcancel
          refine hleave _ hj _ _ (h.reads (census_sample e o s)) ?_ (.inr (.inr ⟨rfl, hread⟩))
          unfold census_turn
          simp only [h.length]
          rw [if_neg (by omega), if_neg hcancel, if_pos hread]
          rfl

/-! ## The call -/

theorem census_armed_taken (e : CensusEnv) (o : CensusOpts) : CensusTaken e o 0 (census_armed o) := by
  refine ⟨rfl, rfl, ?_, ?_⟩
  · show _ ∉ if o.speed_x ≠ 0 then _ else _
    split <;> simp
  · show List.filterMap _ (if o.speed_x ≠ 0 then _ else _) = _
    split <;> exact (ite_self _).symm

theorem accudisc_counter_census_eq (harm : e.scan_begin = ACCUDISC_OK)
    (hspan : o.start.toNat < o.end_.toNat) (k : Nat) :
    accudisc_counter_census e o true ACCUDISC_OK k = ((census_loop e o k (census_armed o)).1,
      match (census_loop e o k (census_armed o)).1 with
      | some _ => { (census_loop e o k (census_armed o)).2 with
          log := (census_loop e o k (census_armed o)).2.log ++ [.scan_end] }
      | none => (census_loop e o k (census_armed o)).2) := by
  unfold accudisc_counter_census
  rw [if_neg (by decide), if_neg (by decide), if_neg (by omega), if_neg (not_not.2 harm)]
  rcases census_loop e o k (census_armed o) with ⟨_ | ret, s⟩ <;> rfl

theorem census_spans_bound (hspan : o.start.toNat < o.end_.toNat) : census_spans o < 2 ^ 32 := by
  have hend := o.end_.isLt
  have hpos := census_cadence_pos o
  by_contra hge
  have h := (census_spans_lt hspan).1 (show 2 ^ 32 - 1 < census_spans o by omega)
  unfold census_at at h
  have := Nat.le_mul_of_pos_right (2 ^ 32 - 1) hpos
  omega

/-- What the tiles so far amount to. -/
theorem CensusTaken.tiled (h : CensusTaken e o j s) (hspan : o.start.toNat < o.end_.toNat)
    (hj : j ≤ census_spans o) :
    s.samples = (List.range s.samples.length).map (census_tile e o) ∧ s.samples.length ≤ census_spans o ∧
      (s.samples.flatMap fun s => List.range' s.lba s.count) =
        List.range' o.start.toNat
          (min (s.samples.length * census_cadence o) (o.end_.toNat - o.start.toNat)) ∧
      (∀ x ∈ s.samples.dropLast, x.count = census_cadence o) ∧ CensusTotals s.samples s.st := by
  have hbound := census_spans_bound hspan
  rw [h.length, h.totals]
  refine ⟨h.samples, hj, ?_, fun x hx => ?_, census_totals s.samples (by rw [h.length]; omega)⟩
  · rw [h.samples]
    exact census_tiles_sectors hspan hj
  · rw [h.samples, ← List.map_dropLast] at hx
    obtain ⟨i, hi, rfl⟩ := List.mem_map.1 hx
    cases j with
    | zero => cases hi
    | succ j =>
      rw [List.range_succ, List.dropLast_concat] at hi
      exact census_tile_full hspan (by have := List.mem_range.1 hi; omega)

/-- **When the census tiles its span**: where the address at the tiling's end is a `uint32_t`, or
something stops the census before it takes a sample past that end. -/
theorem accudisc_counter_census_tiles_iff (e : CensusEnv) (o : CensusOpts)
    (harm : e.scan_begin = ACCUDISC_OK)
    (hspan : o.start.toNat < o.end_.toNat) :
    (∀ k, CensusTiled e o k (accudisc_counter_census e o true ACCUDISC_OK k)) ↔
      o.start.toNat + census_spans o * census_cadence o < 2 ^ 32 ∨ CensusStops e (census_spans o) := by
  have hstart : (census_armed o).lba = u32 (census_at o 0) := by
    unfold census_at
    rw [Nat.zero_mul, Nat.add_zero]
    exact (Nat.mod_eq_of_lt o.start.isLt).symm
  constructor
  · intro h
    by_contra hno
    obtain ⟨hwrap, hstops⟩ := not_or.1 hno
    have hstop : ∀ i ≤ census_spans o, e.cancel i = false ∧ (e.scan_read i).1 = ACCUDISC_OK := by
      intro i hi
      refine ⟨Bool.not_eq_true _ ▸ fun hc => hstops ⟨i, .inl ⟨hi, .inl hc⟩⟩, ?_⟩
      by_contra hr
      exact hstops ⟨i, .inl ⟨hi, .inr hr⟩⟩
    have hgo : ∀ i < census_spans o, CensusGoesOn e i := fun i hi =>
      ⟨(hstop i (by omega)).1, (hstop i (by omega)).2, Bool.not_eq_true _ ▸ fun hs =>
        hstops ⟨i, .inr ⟨hi, hs⟩⟩⟩
    obtain ⟨t, ht, htlba, hloop⟩ := census_goes_on hspan (Nat.le_refl _) hgo (census_armed_taken e o) rfl
    have hless : t.lba < o.end_.toNat := htlba ▸ census_wraps_below hspan hwrap
    obtain ⟨hc, hr⟩ := hstop _ (Nat.le_refl (census_spans o))
    have hlen := census_turn_takes hless (by rw [ht.length]; exact hc) (by rw [ht.length]; exact hr)
    -- one turn more takes a sample more than there are tiles
    have hwithin := (h (census_spans o + 1)).within
    have hone : (census_loop e o 1 t).2 = (census_turn e o t).2 := by
      rcases hturn : census_turn e o t with ⟨_ | ret, s⟩
      · rw [census_loop_next hturn]
        rfl
      · rw [census_loop_left hturn]
    rw [accudisc_counter_census_eq harm hspan, hloop 1] at hwithin
    rw [← hone, ht.length] at hlen
    rcases hret : (census_loop e o 1 t).1 with _ | ret <;> rw [hret] at hwithin
      <;> simp only [hlen] at hwithin <;> omega
  · intro hb k
    obtain ⟨m, hm, ht, hends, hreturns⟩ := census_loop_spec (k := k) hspan hb (Nat.zero_le _)
      (fun i hi => absurd hi (Nat.not_lt_zero i)) (census_armed_taken e o) hstart
    obtain ⟨h1, h2, h3, h4, h5⟩ := ht.tiled hspan hm
    rw [← ht.length] at hends
    rw [Nat.zero_add] at hreturns
    rw [accudisc_counter_census_eq harm hspan]
    generalize census_loop e o k (census_armed o) = r at *
    rcases r with ⟨_ | ret, s⟩
    · exact ⟨h1, h2, h3, h4, ht.delivered, h5, hreturns, hends, fun ret hret => by cases hret⟩
    · refine ⟨h1, h2, h3, h4, ?_, h5, hreturns, hends, fun _ _ => ⟨s.log, rfl, ht.armed⟩⟩
      show (s.log ++ _).filterMap CensusEvent.delivered = _
      rw [List.filterMap_append, ht.delivered]
      exact List.append_nil _

/-- A drive and a caller that never stop the census. -/
def census_unstopped : CensusEnv where
  scan_begin := ACCUDISC_OK
  cancel _ := false
  read _ := ACCUDISC_OK
  scan_read _ := (ACCUDISC_OK, {})
  fn := none

/-- Half the address space at a time: after two samples the census begins again. -/
theorem census_begins_again :
    ¬∀ k, CensusTiled census_unstopped { start := 0, end_ := 0x80000001, cadence := 0x80000000 } k
      (accudisc_counter_census census_unstopped
        { start := 0, end_ := 0x80000001, cadence := 0x80000000 } true
        ACCUDISC_OK k) := by
  intro h
  have hthree := (h 3).within
  revert hthree
  decide

theorem accudisc_counter_census_tiles_iff_disc :
    CensusTiled census_unstopped { start := 0, end_ := 333000 } 5000
    (accudisc_counter_census census_unstopped { start := 0, end_ := 333000 } true ACCUDISC_OK 5000) :=
  (accudisc_counter_census_tiles_iff census_unstopped { start := 0, end_ := 333000 } rfl (by decide)).2
    (.inl (by decide)) 5000

end Accudisc
