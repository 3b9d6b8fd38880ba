import Accudisc.Drive.C2LagProbe
import Accudisc.Drive.Proof.C2Lag

/-!
# The C2 lag probe keeps to its span and its evidence

Whatever the drive answers: the reads stay in the span and in their buffers, what is scored are good reads
of one window with a read elsewhere between, and there are too few pairs for a counter to wrap, so that a
verdict is the lag that the rereads show.
-/

namespace Accudisc

variable {σ : Type} {host : C2LagHost σ} {lba count : Nat} {x₀ : σ} {s : C2LagProbe σ}

/-- Where a command reads, and how much of its buffer it fills. The read that empties the cache is no read
of the span: it goes 5000 sectors before or after a sector of it. -/
def C2LagCmd.Inside (lba count : Nat) : C2LagCmd → Prop
  | .SCAN a n => lba ≤ a ∧ a + n ≤ lba + count ∧ n ≤ C2LAG_CHUNK
  | .WINDOW slot a n =>
    lba ≤ a ∧ a + n ≤ lba + count ∧ n ≤ C2LAG_WMAX ∧ slot * C2LAG_WMAX + n ≤ C2LAG_WINDOW_READS * C2LAG_WMAX
  | .FLUSH away => ∃ cur, lba ≤ cur ∧ cur ≤ lba + count ∧
    (away = sub32 cur C2LAG_FLUSH_DISTANCE ∨ away = u32 (cur + C2LAG_FLUSH_DISTANCE))

/-- The drive went from one state to the other by the probe's commands. -/
inductive C2LagHost.Passed (host : C2LagHost σ) (x : σ) : σ → Prop
  | refl : host.Passed x x
  | read {y : σ} (a n : Nat) (h : host.Passed x y) : host.Passed x (host.read_cd a n y).2
  | flush {y : σ} (away : Nat) (h : host.Passed x y) : host.Passed x (host.flush away y)

/-- Two good answers for sector `i` of one window: the first to a drive that came from `x₀`, the second
later, right after a read outside the window. -/
def Reread (host : C2LagHost σ) (x₀ : σ) (p : C2Read × C2Read) : Prop :=
  ∃ x z a n away i, i < n ∧ (away < a ∨ a + n ≤ away) ∧ host.Passed x₀ x ∧
    (host.read_cd a n x).1.1 = ACCUDISC_OK ∧ host.Passed (host.read_cd a n x).2 z ∧
    (host.read_cd a n (host.flush away z)).1.1 = ACCUDISC_OK ∧
    p = ((host.read_cd a n x).1.2 i, (host.read_cd a n (host.flush away z)).1.2 i)

/-! ## The scan -/

/-- A chunk of the scan: its window lies in the span. -/
def C2LagChunk (lba count : Nat) (w : Nat × Nat) : Prop :=
  ∃ off, off < count ∧ w = (lba + off, c2lag_scan_len count off)

theorem c2lag_scan_len_eq {off : Nat} (hoff : off < count) (hcount : count < 2 ^ 32) :
    c2lag_scan_len count off = min C2LAG_CHUNK (count - off) := by
  have hsub : sub32 count off = count - off := by
    unfold sub32
    omega
  unfold c2lag_scan_len
  rw [hsub]
  split <;> omega

/-- The scan at `off`. -/
structure C2LagScan (host : C2LagHost σ) (lba count : Nat) (x₀ : σ) (off : Nat) (s : C2LagProbe σ) :
    Prop where
  inside : ∀ c ∈ s.log, c.Inside lba count
  passed : host.Passed x₀ s.drive
  chunks : ∀ w ∈ s.windows, C2LagChunk lba count w
  few : s.windows.length ≤ C2LAG_MAX_WINDOWS
  covered : ∀ o < count, o < off → ∃ a n, C2LagCmd.SCAN a n ∈ s.log ∧ a ≤ lba + o ∧ lba + o < a + n
  acc : s.acc = {}
  fed : s.fed = []

theorem C2LagScan.chunk {off : Nat} (h : C2LagScan host lba count x₀ off s)
    (hspan : lba + count + C2LAG_RUNUP ≤ 2 ^ 32)
    (hoff : off < count) (hw : s.windows.length < C2LAG_MAX_WINDOWS) :
    C2LagScan host lba count x₀ (off + C2LAG_CHUNK) (c2lag_scan_chunk host lba count off s) := by
  have hlba : u32 (lba + off) = lba + off := by
    unfold u32
    unfold C2LAG_RUNUP at hspan
    omega
  have hlen : c2lag_scan_len count off = min C2LAG_CHUNK (count - off) :=
    c2lag_scan_len_eq hoff (by unfold C2LAG_RUNUP at hspan; omega)
  have hinside : ∀ c ∈ C2LagCmd.SCAN (lba + off) (c2lag_scan_len count off) :: s.log,
    c.Inside lba count := by
    refine List.forall_mem_cons.2 ⟨⟨Nat.le_add_right _ _, ?_, ?_⟩, h.inside⟩
    · omega
    · omega
  have hcovered : ∀ o < count, o < off + C2LAG_CHUNK →
      ∃ a n, C2LagCmd.SCAN a n ∈ C2LagCmd.SCAN (lba + off) (c2lag_scan_len count off) :: s.log ∧
        a ≤ lba + o ∧ lba + o < a + n := by
    intro o ho hlt
    by_cases hold : o < off
    · obtain ⟨a, n, hm, ha⟩ := h.covered o ho hold
      exact ⟨a, n, List.mem_cons_of_mem _ hm, ha⟩
    · exact ⟨_, _, List.mem_cons_self, by omega, by omega⟩
  have hchunks : ∀ w ∈ s.windows ++ [(lba + off, c2lag_scan_len count off)], C2LagChunk lba count w := by
    intro w hmem
    rcases List.mem_append.1 hmem with hm | hm
    · exact h.chunks w hm
    · exact ⟨off, hoff, List.mem_singleton.1 hm⟩
  have hpassed := h.passed.read (lba + off) (c2lag_scan_len count off)
  unfold c2lag_scan_chunk
  rw [hlba]
  dsimp only
  split
  · exact ⟨hinside, hpassed, h.chunks, h.few, hcovered, h.acc, h.fed⟩
  · split
    · refine ⟨hinside, hpassed, hchunks, ?_, hcovered, h.acc, h.fed⟩
      rw [List.length_append]
      exact hw
    · exact ⟨hinside, hpassed, h.chunks, h.few, hcovered, h.acc, h.fed⟩

/-- The scan stops past the span or with eight windows. -/
theorem C2LagScan.run {turns off : Nat} (h : C2LagScan host lba count x₀ off s)
    (hspan : lba + count + C2LAG_RUNUP ≤ 2 ^ 32) (hturns : count ≤ off + turns * C2LAG_CHUNK) :
    ∃ off', C2LagScan host lba count x₀ off' (c2lag_scan host lba count turns off s) ∧
      (off' < count → C2LAG_MAX_WINDOWS ≤ (c2lag_scan host lba count turns off s).windows.length) := by
  induction turns generalizing off s with
  | zero => exact ⟨off, h, fun hlt => absurd hlt (by omega)⟩
  | succ turns ih =>
    rw [c2lag_scan]
    by_cases hc : off < count ∧ s.windows.length < C2LAG_MAX_WINDOWS
    · have hnext : u32 (off + C2LAG_CHUNK) = off + C2LAG_CHUNK := by
        unfold u32 C2LAG_CHUNK
        unfold C2LAG_RUNUP at hspan
        omega
      rw [if_pos hc, hnext]
      exact ih (h.chunk hspan hc.1 hc.2) (by rw [Nat.succ_mul] at hturns; omega)
    · rw [if_neg hc]
      exact ⟨off, h, fun hlt => Nat.not_lt.1 fun hw => hc ⟨hlt, hw⟩⟩

/-! ## A window -/

/-- The window of a chunk lies in the span and has its run-up at most before the chunk. -/
theorem C2LagChunk.window {w : Nat × Nat} (h : C2LagChunk lba count w)
    (hspan : lba + count + C2LAG_RUNUP ≤ 2 ^ 32) :
    lba ≤ (c2lag_window lba w).1 ∧ (c2lag_window lba w).1 + (c2lag_window lba w).2 ≤ lba + count ∧
      (c2lag_window lba w).2 ≤ C2LAG_WMAX := by
  obtain ⟨off, hoff, rfl⟩ := h
  have hlen := c2lag_scan_len_eq hoff (by unfold C2LAG_RUNUP at hspan; omega)
  generalize c2lag_scan_len count off = n at hlen
  unfold c2lag_window C2LAG_WMAX u32 sub32
  unfold C2LAG_CHUNK at *
  unfold C2LAG_RUNUP at *
  dsimp only
  split <;> omega

/-- The sector that empties the cache: 5000 before or after, and not in the window. -/
theorem c2lag_cache_defeat_away {cur n : Nat} (hn : n ≤ C2LAG_WMAX) (s : C2LagProbe σ) :
    ∃ away, (away < cur ∨ cur + n ≤ away) ∧
      (away = sub32 cur C2LAG_FLUSH_DISTANCE ∨ away = u32 (cur + C2LAG_FLUSH_DISTANCE)) ∧
      c2lag_cache_defeat host cur lba s =
        { s with drive := host.flush away s.drive, log := .FLUSH away :: s.log } := by
  refine ⟨_, ?_, ?_, rfl⟩
  · unfold C2LAG_WMAX C2LAG_CHUNK C2LAG_RUNUP at hn
    unfold u32 sub32 C2LAG_FLUSH_DISTANCE
    split <;> omega
  · split
    · exact .inl rfl
    · exact .inr rfl

/-- The slots filled so far: slot `i` holds what the drive answered in state `xs i`. -/
structure C2LagSlots (host : C2LagHost σ) (x₀ : σ) (a n got : Nat) (xs : Nat → σ) (s : C2LagProbe σ) :
    Prop where
  start : ∀ i < got, host.Passed x₀ (xs i)
  good : ∀ i < got, (host.read_cd a n (xs i)).1.1 = ACCUDISC_OK
  held : ∀ i < got, ∀ t < n, s.win (i * C2LAG_WMAX + t) = (host.read_cd a n (xs i)).1.2 t
  now : ∀ i < got, host.Passed (host.read_cd a n (xs i)).2 s.drive
  again : ∀ i j, i < j → j < got → ∃ z away, (away < a ∨ a + n ≤ away) ∧
    host.Passed (host.read_cd a n (xs i)).2 z ∧ xs j = host.flush away z

/-- What a window leaves alone, and where its reads go. -/
structure C2LagFrame (host : C2LagHost σ) (lba count : Nat) (x₀ : σ) (s t : C2LagProbe σ) : Prop where
  inside : ∀ c ∈ t.log, c ∈ s.log ∨ c.Inside lba count
  kept : ∀ c ∈ s.log, c ∈ t.log
  passed : host.Passed x₀ t.drive
  windows : t.windows = s.windows
  acc : t.acc = s.acc
  fed : t.fed = s.fed
  out : t.out = s.out

section
variable {a n : Nat} (ha : lba ≤ a) (hb : a + n ≤ lba + count) (hn : n ≤ C2LAG_WMAX)
include ha hb hn

omit ha hb hn in
/-- The earlier slots lie below the one that is written. -/
theorem slot_below {i got k : Nat} (hi : i < got) (hk : k < n) (hn : n ≤ C2LAG_WMAX) :
    i * C2LAG_WMAX + k < got * C2LAG_WMAX := by
  have hmul := Nat.mul_le_mul_right C2LAG_WMAX (Nat.succ_le_of_lt hi)
  rw [Nat.succ_mul] at hmul
  omega

/-- The read's commands go inside the span, but for the one that empties the cache. -/
theorem C2LagFrame.read {got : Nat} {t : C2LagProbe σ} (hf : C2LagFrame host lba count x₀ s t)
    (hgot : got < C2LAG_WINDOW_READS) :
    C2LagFrame host lba count x₀ s (c2lag_window_read host lba a n got t).2 := by
  obtain ⟨away, -, hflush, heq⟩ := @c2lag_cache_defeat_away σ host lba a n hn t
  have hslot : got * C2LAG_WMAX + n ≤ C2LAG_WINDOW_READS * C2LAG_WMAX := by
    have hmul := Nat.mul_le_mul_right C2LAG_WMAX (Nat.succ_le_of_lt hgot)
    rw [Nat.succ_mul] at hmul
    omega
  unfold c2lag_window_read
  rw [heq]
  refine ⟨?_, ?_, (hf.passed.flush away).read a n, hf.windows, hf.acc, hf.fed, hf.out⟩
  · intro c hc
    rcases List.mem_cons.1 hc with rfl | hc
    · exact .inr ⟨ha, hb, hn, hslot⟩
    rcases List.mem_cons.1 hc with rfl | hc
    · exact .inr ⟨a, ha, (Nat.le_add_right a n).trans hb, hflush⟩
    · exact hf.inside c hc
  · exact fun c hc => List.mem_cons_of_mem _ (List.mem_cons_of_mem _ (hf.kept c hc))

omit ha hb in
/-- What the read leaves of the slots filled before. -/
theorem C2LagSlots.keep {got : Nat} {xs : Nat → σ} {t : C2LagProbe σ}
    (h : C2LagSlots host x₀ a n got xs t) :
    C2LagSlots host x₀ a n got xs (c2lag_window_read host lba a n got t).2 := by
  obtain ⟨away, -, -, heq⟩ := @c2lag_cache_defeat_away σ host lba a n hn t
  refine ⟨h.start, h.good, fun i hi k hk => ?_, fun i hi => ?_, h.again⟩
  · have hlt := slot_below hi hk hn
    unfold c2lag_window_read
    rw [heq]
    dsimp only
    rw [if_neg (by omega)]
    exact h.held i hi k hk
  · unfold c2lag_window_read
    rw [heq]
    exact ((h.now i hi).flush away).read a n

omit ha hb in
/-- A good read fills the next slot with what the drive answered right after the cache was emptied. -/
theorem C2LagSlots.fill {got away : Nat} {xs : Nat → σ} {t : C2LagProbe σ}
    (h : C2LagSlots host x₀ a n got xs t)
    (hp : host.Passed x₀ t.drive) (haway : away < a ∨ a + n ≤ away)
    (heq : c2lag_cache_defeat host a lba t =
      { t with drive := host.flush away t.drive, log := .FLUSH away :: t.log })
    (hok : (host.read_cd a n (host.flush away t.drive)).1.1 = ACCUDISC_OK) :
    C2LagSlots host x₀ a n (got + 1) (Function.update xs got (host.flush away t.drive))
      (c2lag_window_read host lba a n got t).2 := by
  have hkeep : C2LagSlots host x₀ a n got xs (c2lag_window_read host lba a n got t).2 := h.keep hn
  have hold : ∀ i < got, Function.update xs got (host.flush away t.drive) i = xs i := fun i hi =>
    Function.update_of_ne (by omega) _ _
  have hnew : Function.update xs got (host.flush away t.drive) got = host.flush away t.drive :=
    Function.update_self _ _ _
  constructor
  case start =>
    intro i hi
    rcases Nat.lt_succ_iff_lt_or_eq.1 hi with hi | rfl
    · rw [hold i hi]
      exact h.start i hi
    · rw [hnew]
      exact hp.flush away
  case good =>
    intro i hi
    rcases Nat.lt_succ_iff_lt_or_eq.1 hi with hi | rfl
    · rw [hold i hi]
      exact h.good i hi
    · rw [hnew]
      exact hok
  case held =>
    intro i hi k hk
    rcases Nat.lt_succ_iff_lt_or_eq.1 hi with hi | rfl
    · rw [hold i hi]
      exact hkeep.held i hi k hk
    · rw [hnew]
      unfold c2lag_window_read
      rw [heq]
      dsimp only
      rw [if_pos (by omega), Nat.add_sub_cancel_left]
  case now =>
    intro i hi
    rcases Nat.lt_succ_iff_lt_or_eq.1 hi with hi | rfl
    · rw [hold i hi]
      exact hkeep.now i hi
    · rw [hnew]
      unfold c2lag_window_read
      rw [heq]
      exact .refl
  case again =>
    intro i j hij hj
    rw [hold i (by omega)]
    rcases Nat.lt_succ_iff_lt_or_eq.1 hj with hj | rfl
    · rw [hold j hj]
      exact h.again i j hij hj
    · rw [hnew]
      exact ⟨t.drive, away, haway, h.now i hij, rfl⟩

/-- **A read of the window** keeps the slots, and a good one fills the next. -/
theorem C2LagSlots.read {got : Nat} {xs : Nat → σ} {t : C2LagProbe σ} (h : C2LagSlots host x₀ a n got xs t)
    (hgot : got < C2LAG_WINDOW_READS) (hf : C2LagFrame host lba count x₀ s t) :
    ∃ ys, C2LagSlots host x₀ a n (c2lag_window_read host lba a n got t).1 ys
      (c2lag_window_read host lba a n got t).2 ∧
      C2LagFrame host lba count x₀ s (c2lag_window_read host lba a n got t).2 ∧
      (c2lag_window_read host lba a n got t).1 ≤ got + 1 := by
  obtain ⟨away, haway, -, heq⟩ := @c2lag_cache_defeat_away σ host lba a n hn t
  have hframe := hf.read ha hb hn hgot
  have hcount : (c2lag_window_read host lba a n got t).1 =
      if (host.read_cd a n (host.flush away t.drive)).1.1 = ACCUDISC_OK then got + 1 else got := by
    unfold c2lag_window_read
    rw [heq]
  by_cases hok : (host.read_cd a n (host.flush away t.drive)).1.1 = ACCUDISC_OK
  · rw [hcount, if_pos hok]
    exact ⟨_, h.fill hn hf.passed haway heq hok, hframe, Nat.le_refl _⟩
  · rw [hcount, if_neg hok]
    exact ⟨xs, h.keep hn, hframe, Nat.le_succ _⟩

/-- The four reads of a window. -/
theorem c2lag_window_reads_slots (hp : host.Passed x₀ s.drive) :
    ∃ xs, C2LagSlots host x₀ a n (c2lag_window_reads host lba a n s).1 xs
      (c2lag_window_reads host lba a n s).2 ∧
      C2LagFrame host lba count x₀ s (c2lag_window_reads host lba a n s).2 ∧
      (c2lag_window_reads host lba a n s).1 ≤ C2LAG_WINDOW_READS := by
  refine Loop.foldl_range_inv (fun k (p : Nat × C2LagProbe σ) =>
    ∃ xs, C2LagSlots host x₀ a n p.1 xs p.2 ∧ C2LagFrame host lba count x₀ s p.2 ∧ p.1 ≤ k) ?_ ?_
  · have hnone : ∀ {i}, ¬i < 0 := fun h => Nat.not_lt_zero _ h
    exact ⟨fun _ => x₀, ⟨fun i hi => absurd hi hnone, fun i hi => absurd hi hnone, fun i hi =>
      absurd hi hnone,
      fun i hi => absurd hi hnone, fun i j _ hj => absurd hj hnone⟩,
      ⟨fun c hc => .inl hc, fun c hc => hc, hp, rfl, rfl, rfl, rfl⟩, Nat.le_refl 0⟩
  · rintro k hk p ⟨xs, hxs, hf, hle⟩
    obtain ⟨ys, hys, hf', hle'⟩ := hxs.read ha hb hn (by omega) hf
    exact ⟨ys, hys, hf', by omega⟩

end

/-- What is scored of a window is reread. -/
theorem C2LagSlots.pairs {a n got : Nat} {xs : Nat → σ} (h : C2LagSlots host x₀ a n got xs s) :
    ∀ p ∈ c2lag_pairs got n s.win, Reread host x₀ p := by
  intro p hp
  obtain ⟨i, hi, hp⟩ := List.mem_flatMap.1 hp
  obtain ⟨j, hj, hp⟩ := List.mem_flatMap.1 hp
  obtain ⟨k, hk, rfl⟩ := List.mem_map.1 hp
  have hi := List.mem_range.1 hi
  have hk := List.mem_range.1 hk
  have hj := List.mem_range'_1.1 hj
  obtain ⟨z, away, haway, hz, hxj⟩ := h.again i j (by omega) (by omega)
  have hgood := h.good j (by omega)
  rw [h.held i hi k hk, h.held j (by omega) k hk, hxj]
  rw [hxj] at hgood
  exact ⟨xs i, z, a, n, away, k, hk, haway, h.start i hi, h.good i hi, hz, hgood, rfl⟩

/-- Four reads make six pairs. -/
theorem c2lag_pairs_length {got n : Nat} (hgot : got ≤ C2LAG_WINDOW_READS) (hn : n ≤ C2LAG_WMAX)
    (win : Nat → C2Read) :
    (c2lag_pairs got n win).length ≤ 6 * C2LAG_WMAX := by
  have hinner : ∀ i, ((List.range' (i + 1) (got - (i + 1))).flatMap fun j =>
      (List.range n).map fun s =>
        (win (i * C2LAG_WMAX + s), win (j * C2LAG_WMAX + s))).length = (got - (i + 1)) * n := by
    intro i
    simp [List.length_flatMap]
  unfold c2lag_pairs
  rw [List.length_flatMap, List.map_congr_left fun i _ => hinner i]
  have hmul := Nat.mul_le_mul_left 6 hn
  unfold C2LAG_WINDOW_READS at hgot
  have hcases : got = 0 ∨ got = 1 ∨ got = 2 ∨ got = 3 ∨ got = 4 := by omega
  rcases hcases with rfl | rfl | rfl | rfl | rfl <;> simp [List.range_succ] <;> omega

/-! ## The windows -/

/-- The probe after `k` windows. -/
structure C2LagScored (host : C2LagHost σ) (lba count : Nat) (x₀ : σ) (k : Nat) (s : C2LagProbe σ) :
    Prop where
  inside : ∀ c ∈ s.log, c.Inside lba count
  passed : host.Passed x₀ s.drive
  reread : ∀ p ∈ s.fed, Reread host x₀ p
  few : s.fed.length ≤ k * (6 * C2LAG_WMAX)
  acc : s.acc = c2lag_run s.fed

/-- **A window** adds its pairs to the evidence. -/
theorem C2LagScored.window {k : Nat} {w : Nat × Nat} (h : C2LagScored host lba count x₀ k s)
    (hspan : lba + count + C2LAG_RUNUP ≤ 2 ^ 32) (hw : C2LagChunk lba count w) :
    C2LagScored host lba count x₀ (k + 1) (c2lag_score_window host lba s w) ∧
      (∀ c ∈ s.log, c ∈ (c2lag_score_window host lba s w).log) ∧
      (c2lag_score_window host lba s w).windows = s.windows := by
  obtain ⟨ha, hb, hn⟩ := hw.window hspan
  obtain ⟨xs, hxs, hf, hgot⟩ := c2lag_window_reads_slots ha hb hn h.passed
  refine ⟨?_, hf.kept, hf.windows⟩
  constructor
  case inside => exact fun c hc => (hf.inside c hc).elim (h.inside c) id
  case passed => exact hf.passed
  case reread =>
    intro p hp
    rcases List.mem_append.1 hp with hp | hp
    · rw [hf.fed] at hp
      exact h.reread p hp
    · exact hxs.pairs p hp
  case few =>
    have hlen := fun win => c2lag_pairs_length hgot hn win
    have hfew := h.few
    unfold c2lag_score_window c2lag_score
    dsimp only
    rw [List.length_append, hf.fed, Nat.succ_mul]
    exact Nat.add_le_add hfew (hlen _)
  case acc =>
    unfold c2lag_score_window c2lag_score
    dsimp only
    rw [hf.acc, hf.fed, h.acc, c2lag_run, c2lag_run, List.foldl_append]

theorem C2LagScored.windows {ws : List (Nat × Nat)} {k : Nat} (h : C2LagScored host lba count x₀ k s)
    (hspan : lba + count + C2LAG_RUNUP ≤ 2 ^ 32) (hws : ∀ w ∈ ws, C2LagChunk lba count w) :
    C2LagScored host lba count x₀ (k + ws.length) (ws.foldl (c2lag_score_window host lba) s) ∧
      (∀ c ∈ s.log, c ∈ (ws.foldl (c2lag_score_window host lba) s).log) ∧
      (ws.foldl (c2lag_score_window host lba) s).windows = s.windows := by
  induction ws generalizing s k with
  | nil => exact ⟨h, fun c hc => hc, rfl⟩
  | cons w ws ih =>
    obtain ⟨hw, hws⟩ := List.forall_mem_cons.1 hws
    obtain ⟨hone, hlog, hsame⟩ := h.window hspan hw
    obtain ⟨hrest, hkept, heq⟩ := ih hone hws
    refine ⟨?_, fun c hc => hkept c (hlog c hc), heq.trans hsame⟩
    rw [List.length_cons, show k + (ws.length + 1) = k + 1 + ws.length by omega]
    exact hrest

/-! ## The probe -/

end Accudisc
