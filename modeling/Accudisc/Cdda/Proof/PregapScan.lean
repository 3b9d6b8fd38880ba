import Accudisc.Cdda.PregapScan

/-!
# The bounds of the pregap scan

The window and the tail are added in 32 bits when the buffer is allocated. Where that sum does not wrap,
every boundary's count is at most the sum and so every access lands in the buffer (`boundary_safe`); where
it wraps, the first boundary read is already too long for it (`boundary_outside`).
-/

namespace Accudisc

/-- A boundary within an allocation of `alloc` bytes, which requested the sectors it is to request. -/
structure PregapBoundary.Safe (alloc window tail : Nat) (b : PregapBoundary) : Prop where
  room : 96 * (b.L - (b.L - window) + tail) ≤ alloc
  inside : ∀ a ∈ b.touched, a.off + a.len ≤ alloc
  first : b.req.lba = b.L - window
  past : b.req.lba + b.req.count = b.L + tail

/-- Every boundary read is safe, for the window and the tail in force. -/
def PregapRun.Safe (r : PregapRun) (o : PregapScanOpts) : Prop :=
  ∀ b ∈ r.scan.log, b.Safe r.alloc (pregap_window o) (pregap_tail o)

/-- The scan gets as far as a boundary. -/
def PregapReads (e : PregapEnv) (args : Bool) (abi : Int) (toc : AccuToc) (o : PregapScanOpts) (max : Nat) :
    Prop :=
  args = true ∧ max ≠ 0 ∧ abi = ACCUDISC_OK ∧ toc.tracks ≠ [] ∧ e.cancel 0 = false ∧
    e.malloc (u32 (pregap_window o + pregap_tail o) * 96) = true

section
variable {e : PregapEnv} {window tail L alloc : Nat} {s : PregapScan} {t : AccuTrack}

/-! ## The collector -/

/-- What the collector keeps: the bounds it was made with, and every copy within them. -/
structure Collects (base n : Nat) (sc : SubCollector) : Prop where
  base : sc.base = base
  count : sc.count = n
  inside : ∀ a ∈ sc.touched, a.off + a.len ≤ n * 96

theorem sub_collect_sector_inside {base count : Nat} {sc : SubCollector} (c : AccuChunk)
    (h : Collects base count sc)
    (k : Nat) : Collects base count (sub_collect_sector c sc k) := by
  unfold sub_collect_sector
  simp only []
  split
  · exact h
  · rename_i hin
    refine ⟨h.base, h.count, fun a ha => ?_⟩
    rcases List.mem_append.1 ha with ha | ha
    · exact h.inside a ha
    · rw [List.mem_singleton.1 ha]
      have hc := h.count
      show (u32 (c.lba + k) - sc.base) * 96 + 96 ≤ count * 96
      omega

theorem sub_collect_sink_inside {base count : Nat} {sc : SubCollector} (c : AccuChunk)
    (h : Collects base count sc) :
    Collects base count (sub_collect_sink sc c) := by
  unfold sub_collect_sink
  split
  · exact h
  · generalize List.range c.nsec = ks
    induction ks generalizing sc with
    | nil => exact h
    | cons k ks ih => exact ih (sub_collect_sector_inside c h k)

/-- **Whatever the engine delivers**, the copies are within the count. -/
theorem collected_inside (cs : List AccuChunk) {base count : Nat} {sc : SubCollector}
    (h : Collects base count sc) :
    Collects base count (cs.foldl sub_collect_sink sc) := by
  induction cs generalizing sc with
  | nil => exact h
  | cons c cs ih => exact ih (sub_collect_sink_inside c h)

/-! ## One boundary -/

theorem pregap_start_eq (window L : Nat) : pregap_start window L = L - window := by
  unfold pregap_start
  split
  · rfl
  · omega

/-- Without a wrap the count is the distance. -/
theorem pregap_count_eq (h : window + tail < 2 ^ 32) (L : Nat) :
    pregap_count window tail L = L - (L - window) + tail := by
  unfold pregap_count u32
  rw [pregap_start_eq, Nat.mod_eq_of_lt (show L - (L - window) < 2 ^ 32 by omega)]
  exact Nat.mod_eq_of_lt (by omega)

/-- The boundary that a turn notes. -/
theorem pregap_boundary_log (e : PregapEnv) (window tail : Nat) (s : PregapScan) (t : AccuTrack) :
    ∃ b : PregapBoundary, (pregap_boundary e window tail s t).1.log = s.log ++ [b] ∧ b.L = t.lba ∧
      b.req.lba = pregap_start window t.lba ∧ b.req.count = pregap_count window tail t.lba ∧
      (⟨0, pregap_count window tail t.lba * 96⟩ : BufAccess) ∈ b.touched ∧
      ∀ a ∈ b.touched, a.off + a.len ≤ pregap_count window tail t.lba * 96 := by
  have hcol : ∀ cs : List AccuChunk, ∀ m : Mem, ∀ a ∈ (cs.foldl sub_collect_sink
      { buf := m, base := pregap_start window t.lba, count := pregap_count window tail t.lba }).touched,
      a.off + a.len ≤ pregap_count window tail t.lba * 96 := fun cs m =>
    (collected_inside cs ⟨rfl, rfl, fun a ha => absurd ha List.not_mem_nil⟩).inside
  unfold pregap_boundary
  simp only []
  split
  · refine ⟨_, rfl, rfl, rfl, rfl, List.mem_cons_self, fun a ha => ?_⟩
    rcases List.mem_cons.1 ha with rfl | ha
    · exact (Nat.zero_add _).le
    · exact hcol _ _ a ha
  · refine ⟨_, rfl, rfl, rfl, rfl, List.mem_cons_self, fun a ha => ?_⟩
    rcases List.mem_cons.1 ha with rfl | ha
    · exact (Nat.zero_add _).le
    · rcases List.mem_append.1 ha with ha | ha
      · exact hcol _ _ a ha
      · rw [List.mem_singleton.1 ha]
        exact (Nat.zero_add _).le

/-- **Without a wrap** a boundary is safe. -/
theorem boundary_safe (h : window + tail < 2 ^ 32) {b : PregapBoundary} (hL : b.L = t.lba)
    (hlba : b.req.lba = pregap_start window t.lba) (hcount : b.req.count = pregap_count window tail t.lba)
    (hin : ∀ a ∈ b.touched, a.off + a.len ≤ pregap_count window tail t.lba * 96) :
    b.Safe (u32 (window + tail) * 96) window tail := by
  have halloc : u32 (window + tail) = window + tail := Nat.mod_eq_of_lt h
  have hc := pregap_count_eq h t.lba
  rw [pregap_start_eq] at hlba
  rw [halloc]
  refine ⟨?_, fun a ha => ?_, ?_, ?_⟩
  · rw [hL]
    omega
  · have := hin a ha
    omega
  · rw [hL, hlba]
  · rw [hcount, hlba, hL, hc]
    omega

/-- **Where the sum wraps** there is no room for a boundary. -/
theorem boundary_outside (hw : window < 2 ^ 32) (ht : tail < 2 ^ 32) (h : 2 ^ 32 ≤ window + tail)
    {b : PregapBoundary} : ¬b.Safe (u32 (window + tail) * 96) window tail := by
  intro hs
  have halloc : u32 (window + tail) = window + tail - 2 ^ 32 := by
    unfold u32
    rw [Nat.mod_eq_sub_mod h, Nat.mod_eq_of_lt (by omega)]
  have := hs.room
  rw [halloc] at this
  omega

/-! ## The run -/

/-- What holds of every boundary that is noted. -/
theorem pregap_loop_log {P : PregapBoundary → Prop} (max : Nat) (ts : List AccuTrack)
    (hP : ∀ (s : PregapScan) (t : AccuTrack) (b : PregapBoundary),
      (pregap_boundary e window tail s t).1.log = s.log ++ [b] → P b)
    (hs : ∀ b ∈ s.log, P b) : ∀ b ∈ (pregap_loop e window tail max ts s).1.log, P b := by
  induction ts generalizing s with
  | nil => exact hs
  | cons t ts ih =>
    unfold pregap_loop
    split
    · exact hs
    split
    · exact hs
    · obtain ⟨b, hlog, _⟩ := pregap_boundary_log e window tail s t
      have hnext : ∀ d ∈ (pregap_boundary e window tail s t).1.log, P d := by
        intro d hd
        rw [hlog] at hd
        rcases List.mem_append.1 hd with hd | hd
        · exact hs d hd
        · rw [List.mem_singleton.1 hd]
          exact hP s t b hlog
      rcases hb : pregap_boundary e window tail s t with ⟨s', rc⟩
      rw [hb] at hnext
      simp only []
      split
      · exact hnext
      · exact ih hnext

theorem pregap_loop_cancelled (hc : e.cancel 0 = true) (max : Nat) (ts : List AccuTrack) (hs : s.log = []) :
    (pregap_loop e window tail max ts s).1.log = [] := by
  cases ts with
  | nil => exact hs
  | cons t ts =>
    unfold pregap_loop
    split
    · exact hs
    · rw [if_pos (by rw [hs]; exact hc)]
      exact hs

/-- The log only grows. -/
theorem pregap_loop_grows (max : Nat) (ts : List AccuTrack) {b : PregapBoundary} (hb : b ∈ s.log) :
    b ∈ (pregap_loop e window tail max ts s).1.log := by
  induction ts generalizing s with
  | nil => exact hb
  | cons t ts ih =>
    unfold pregap_loop
    split
    · exact hb
    split
    · exact hb
    · obtain ⟨d, hlog, _⟩ := pregap_boundary_log e window tail s t
      have hmem : b ∈ (pregap_boundary e window tail s t).1.log := by
        rw [hlog]
        exact List.mem_append_left _ hb
      rcases h : pregap_boundary e window tail s t with ⟨s', rc⟩
      rw [h] at hmem
      simp only []
      split
      · exact hmem
      · exact ih hmem

end

section
variable {e : PregapEnv} {args : Bool} {abi : Int} {toc : AccuToc} {o : PregapScanOpts} {max : Nat}

theorem pregap_window_lt : pregap_window o < 2 ^ 32 := by
  unfold pregap_window
  split
  · exact o.window.isLt
  · decide

theorem pregap_tail_lt : pregap_tail o < 2 ^ 32 := by
  unfold pregap_tail
  split
  · exact o.tail.isLt
  · decide

/-- A scan that does not get to a boundary notes none. -/
theorem pregap_no_log (mem : Mem) (h : ¬PregapReads e args abi toc o max) :
    (accudisc_scan_pregaps e args abi mem toc o max).scan.log = [] := by
  unfold accudisc_scan_pregaps
  split
  · rfl
  rename_i hargs
  obtain ⟨ha, hm⟩ := not_or.1 hargs
  split
  · rfl
  rename_i habi
  simp only []
  split
  · rfl
  rename_i hmal
  show (pregap_loop e _ _ max toc.tracks _).1.log = []
  by_cases hc : e.cancel 0 = true
  · exact pregap_loop_cancelled hc max toc.tracks rfl
  · rw [show toc.tracks = [] by
      by_contra htr
      exact h ⟨by simpa using ha, hm, not_not.1 habi, htr, by simpa using hc, by simpa using hmal⟩]
    rfl

/-- The scan as its boundaries begin. -/
def pregap_begin (mem : Mem) (o : PregapScanOpts) : PregapScan :=
  { buf := mem, speeds := if o.speed_x ≠ 0 then [o.speed_x.toNat] else [] }

/-- One that gets to a boundary is the loop over them, in the buffer that was asked for. -/
theorem pregap_reads_eq (mem : Mem) (h : PregapReads e args abi toc o max) :
    (accudisc_scan_pregaps e args abi mem toc o max).alloc = u32 (pregap_window o + pregap_tail o) * 96 ∧
      (accudisc_scan_pregaps e args abi mem toc o max).scan.log =
        (pregap_loop e (pregap_window o) (pregap_tail o) max toc.tracks (pregap_begin mem o)).1.log := by
  obtain ⟨ha, hm, habi, _, _, hmal⟩ := h
  unfold accudisc_scan_pregaps
  rw [if_neg (by simp [ha, hm]), if_neg (not_not.2 habi)]
  simp only []
  rw [if_neg (by rw [hmal]; simp)]
  exact ⟨rfl, rfl⟩

/-- A scan that gets to one notes it. -/
theorem pregap_log_first (mem : Mem) (h : PregapReads e args abi toc o max) :
    ∃ b, b ∈ (accudisc_scan_pregaps e args abi mem toc o max).scan.log := by
  rw [(pregap_reads_eq mem h).2]
  obtain ⟨-, hm, -, htr, hc, -⟩ := h
  cases hts : toc.tracks with
  | nil => exact absurd hts htr
  | cons t ts =>
    unfold pregap_loop
    rw [if_neg (show ¬max ≤ (pregap_begin mem o).out.length from fun h0 => hm (Nat.le_zero.1 h0)),
      if_neg (show ¬e.cancel (pregap_begin mem o).log.length = true from fun h0 =>
        absurd (hc.symm.trans h0) Bool.false_ne_true)]
    obtain ⟨b, hlog, _⟩ := pregap_boundary_log e (pregap_window o) (pregap_tail o) (pregap_begin mem o) t
    refine ⟨b, ?_⟩
    rcases hb : pregap_boundary e _ _ _ t with ⟨s', rc⟩
    rw [hb] at hlog
    have hmem : b ∈ s'.log := by
      rw [hlog]
      exact List.mem_append_right _ (List.mem_singleton_self b)
    simp only []
    split
    · exact hmem
    · exact pregap_loop_grows max ts hmem

end

/-- **The scan stays in its buffer** exactly where the sum of the window and the tail does not wrap, or
where it gets to no boundary. -/
theorem accudisc_scan_pregaps_safe_iff (e : PregapEnv) (args : Bool) (abi : Int) (mem : Mem) (toc : AccuToc)
    (o : PregapScanOpts) (max : Nat) :
    (accudisc_scan_pregaps e args abi mem toc o max).Safe o ↔
      (PregapReads e args abi toc o max →
        pregap_window o + pregap_tail o < 2 ^ 32) := by
  by_cases hr : PregapReads e args abi toc o max
  · obtain ⟨halloc, hlog⟩ := pregap_reads_eq mem hr
    unfold PregapRun.Safe
    rw [halloc]
    constructor
    · intro hsafe _
      obtain ⟨b, hb⟩ := pregap_log_first mem hr
      by_contra hwrap
      exact boundary_outside pregap_window_lt pregap_tail_lt (by omega) (hsafe b hb)
    · intro h
      have hlt := h hr
      rw [hlog]
      refine pregap_loop_log max toc.tracks (fun s t b hlog => ?_) fun b hb => absurd hb List.not_mem_nil
      obtain ⟨d, hd, hL, hlba, hcount, _, hin⟩ :=
        pregap_boundary_log e (pregap_window o) (pregap_tail o) s t
      rw [hd] at hlog
      obtain rfl : d = b := List.singleton_injective (List.append_cancel_left hlog)
      exact boundary_safe hlt hL hlba hcount hin
  · unfold PregapRun.Safe
    rw [pregap_no_log mem hr]
    exact ⟨fun _ h => absurd h hr, fun _ b hb => absurd hb List.not_mem_nil⟩

/-- A drive that answers every boundary with nothing. -/
def silent_scan : PregapEnv :=
  { malloc := fun _ => true, get_speed := (ACCUDISC_OK, 0), cancel := fun _ => false
    read := fun _ _ => ([], ACCUDISC_OK) }

/-- The widest window with the default tail leaves three records of room, and the first boundary
clears four. -/
theorem pregap_window_wraps :
    ¬(accudisc_scan_pregaps silent_scan true ACCUDISC_OK (fun _ => 0) { tracks := [{ number := 1 }] }
      { window := 0xFFFFFFFF } 1).Safe { window := 0xFFFFFFFF } := by
  intro h
  obtain ⟨b, hb⟩ := pregap_log_first (fun _ => 0) (show PregapReads silent_scan true ACCUDISC_OK
    { tracks := [{ number := 1 }] } { window := 0xFFFFFFFF } 1 from
    ⟨rfl, by decide, rfl, List.cons_ne_nil _ _, rfl, rfl⟩)
  exact boundary_outside (show 0xFFFFFFFF < 2 ^ 32 by decide) (show 4 < 2 ^ 32 by decide)
    (by decide) (h b hb)

end Accudisc
