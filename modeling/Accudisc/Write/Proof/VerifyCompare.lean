import Accudisc.Write.Proof.VerifyTier

/-!
# What a verification counts

Sample `i` of the disc is compared where the source has a sample `i + shift`. A sector is clipped to
these (`cmp_sector_counts`), so that after `m` sectors in order the counts are those of the first
`588 * m` samples.
-/

namespace Accudisc

section
variable (disc source : Nat → Sample) (shift : Int) (src_samples : Nat)

/-- The source reaches sample `i`. -/
def Compared (i : Nat) : Prop := 0 ≤ (i : Int) + shift ∧ (i : Int) + shift < src_samples

instance (i : Nat) : Decidable (Compared shift src_samples i) := inferInstanceAs (Decidable (_ ∧ _))

/-- It is compared and differs. -/
def Differs (i : Nat) : Prop := Compared shift src_samples i ∧ disc i ≠ source ((i : Int) + shift).toNat

instance (i : Nat) : Decidable (Differs disc source shift src_samples i) :=
  inferInstanceAs (Decidable (_ ∧ _))

/-- The address of the first of the first `n` samples that differs, or -1. -/
def FirstDiff (start n : Nat) (lba : Int) : Prop :=
  (lba = -1 ∧ ∀ i < n, ¬Differs disc source shift src_samples i) ∨
    ∃ i < n, Differs disc source shift src_samples i ∧ (∀ j < i, ¬Differs disc source shift src_samples j) ∧
      lba = (start + i / SAMPLES_PER_SECTOR : Nat)

/-- The counts over the first `n` samples. -/
structure CmpCounted (start n : Nat) (c : CmpCtx) : Prop where
  shift_eq : c.shift = shift
  lba0 : c.lba0 = start
  src_eq : c.src_samples = src_samples
  compared : c.compared = u64 (Nat.count (Compared shift src_samples) n)
  differing : c.differing = u64 (Nat.count (Differs disc source shift src_samples) n)
  first_diff : FirstDiff disc source shift src_samples start n c.first_diff

end

variable {disc source : Nat → Sample} {shift : Int} {src_samples start n lo len : Nat}
  {c : CmpCtx} {e : VerifyEnv}

/-! ## Samples that count and samples that do not -/

theorem u64_succ (m : Nat) : u64 (u64 m + 1) = u64 (m + 1) := by
  unfold u64
  omega

/-- One sample more, which the source does not reach. -/
theorem CmpCounted.skip (h : CmpCounted disc source shift src_samples start n c)
    (hn : ¬Compared shift src_samples n) :
    CmpCounted disc source shift src_samples start (n + 1) c := by
  have hd : ¬Differs disc source shift src_samples n := fun hd => hn hd.1
  refine ⟨h.shift_eq, h.lba0, h.src_eq, ?_, ?_, ?_⟩
  · rw [Nat.count_succ, if_neg hn]
    exact h.compared
  · rw [Nat.count_succ, if_neg hd]
    exact h.differing
  · rcases h.first_diff with ⟨hl, hno⟩ | ⟨i, hi, hfirst⟩
    · refine .inl ⟨hl, fun i hi => ?_⟩
      rcases Nat.lt_succ_iff_lt_or_eq.1 hi with hi | rfl
      · exact hno i hi
      · exact hd
    · exact .inr ⟨i, by omega, hfirst⟩

/-- Many of them. -/
theorem CmpCounted.skips (h : CmpCounted disc source shift src_samples start n c) (k : Nat)
    (hk : ∀ i, n ≤ i → i < n + k → ¬Compared shift src_samples i) :
    CmpCounted disc source shift src_samples start (n + k) c := by
  induction k with
  | zero => exact h
  | succ k ih => exact (ih fun i hi hi' => hk i hi (by omega)).skip (hk (n + k) (by omega) (by omega))

/-- One sample that the source reaches, against the file's. -/
theorem CmpCounted.sample (h : CmpCounted disc e.source shift src_samples start n c)
    (hn : Compared shift src_samples n)
    {audio : Mem} {lba skip j0 i : Nat} (hdisc : sample_at audio ((skip + i) * BYTES_PER_SAMPLE) = disc n)
    (hsource : ((n : Int) + shift).toNat = j0 + i) (hlba : lba = start + n / SAMPLES_PER_SECTOR) :
    CmpCounted disc e.source shift src_samples start (n + 1) (cmp_sample e audio lba skip j0 c i) := by
  have hsrc : sample_at e.bin ((j0 + i) * BYTES_PER_SAMPLE) = e.source ((n : Int) + shift).toNat := by
    rw [hsource]
    rfl
  have hcomp : u64 (c.compared + 1) = u64 (Nat.count (Compared shift src_samples) (n + 1)) := by
    rw [Nat.count_succ, if_pos hn, h.compared]
    exact u64_succ _
  unfold cmp_sample
  simp only [hdisc, hsrc]
  by_cases hne : disc n ≠ e.source ((n : Int) + shift).toNat
  · rw [if_pos hne]
    have hd : Differs disc e.source shift src_samples n := ⟨hn, hne⟩
    refine ⟨h.shift_eq, h.lba0, h.src_eq, hcomp, ?_, ?_⟩
    · rw [Nat.count_succ, if_pos hd]
      show u64 (c.differing + 1) = _
      rw [h.differing]
      exact u64_succ _
    · show FirstDiff _ _ _ _ _ _ (if c.first_diff < 0 then (lba : Int) else c.first_diff)
      rcases h.first_diff with ⟨hl, hno⟩ | ⟨k, hk, hdk, hmin, hl⟩
      · rw [hl, if_pos (by decide), hlba]
        exact .inr ⟨n, Nat.lt_succ_self n, hd, hno, rfl⟩
      · rw [if_neg (hl ▸ Int.not_lt.2 (Int.natCast_nonneg _))]
        exact .inr ⟨k, by omega, hdk, hmin, hl⟩
  · rw [if_neg hne]
    have hd : ¬Differs disc e.source shift src_samples n := fun hd => hne hd.2
    refine ⟨h.shift_eq, h.lba0, h.src_eq, hcomp, ?_, ?_⟩
    · rw [Nat.count_succ, if_neg hd]
      exact h.differing
    · rcases h.first_diff with ⟨hl, hno⟩ | ⟨k, hk, hfirst⟩
      · refine .inl ⟨hl, fun i hi => ?_⟩
        rcases Nat.lt_succ_iff_lt_or_eq.1 hi with hi | rfl
        · exact hno i hi
        · exact hd
      · exact .inr ⟨k, by omega, hfirst⟩

/-! ## Sectors -/

/-- **One sector**, clipped to the source, counts its 588 samples. -/
theorem cmp_sector_counts {m : Nat} {chunk : AccuChunk} {k : Nat}
    (hio : (cmp_sector e chunk c k).io_err = false)
    (h : CmpCounted disc e.source shift src_samples start (m * SAMPLES_PER_SECTOR) c)
    (hlba : u32 (chunk.lba + k) = start + m) (hidx : sub32 (start + m) start = m)
    (hdata : ∀ i < SAMPLES_PER_SECTOR,
      sample_at chunk.data (k * chunk.sector_len + i * BYTES_PER_SAMPLE) =
        disc (m * SAMPLES_PER_SECTOR + i)) :
    CmpCounted disc e.source shift src_samples start ((m + 1) * SAMPLES_PER_SECTOR)
      (cmp_sector e chunk c k) := by
  have hnext : (m + 1) * SAMPLES_PER_SECTOR = m * SAMPLES_PER_SECTOR + SAMPLES_PER_SECTOR :=
    Nat.succ_mul m _
  have hpos : 0 < SAMPLES_PER_SECTOR := by decide
  obtain rfl := h.shift_eq
  obtain rfl := h.lba0
  obtain rfl := h.src_eq
  unfold cmp_sector at hio ⊢
  by_cases hc : c.io_err = true
  · rw [if_pos hc, hc] at hio
    cases hio
  rw [if_neg hc] at hio ⊢
  simp only [hlba, hidx] at hio ⊢
  generalize hb : m * SAMPLES_PER_SECTOR = b at *
  -- before the source begins
  by_cases hbefore : (b : Int) + c.shift < 0 ∧ (SAMPLES_PER_SECTOR : Int) ≤ -((b : Int) + c.shift)
  · rw [if_pos hbefore, hnext]
    refine h.skips _ fun i hi hi' hcmp => ?_
    unfold Compared at hcmp
    omega
  rw [if_neg hbefore] at hio ⊢
  generalize hskip : (if (b : Int) + c.shift < 0 then (-((b : Int) + c.shift)).toNat else 0) = skip at *
  have hskip' : skip < SAMPLES_PER_SECTOR ∧ ((b : Int) + c.shift).toNat = (b : Int) + skip + c.shift ∧
      ∀ i : Nat, i < skip → (b : Int) + i + c.shift < 0 := by
    split at hskip <;> refine ⟨by omega, by omega, fun i hi => by omega⟩
  obtain ⟨hlt, hj0, hneg⟩ := hskip'
  generalize ((b : Int) + c.shift).toNat = j0 at *
  -- after the source ends
  by_cases hafter : c.src_samples < j0 + (SAMPLES_PER_SECTOR - skip) ∧ c.src_samples ≤ j0
  · rw [if_pos hafter, hnext]
    refine h.skips _ fun i hi hi' hcmp => ?_
    have hn := hneg (i - b)
    unfold Compared at hcmp
    omega
  rw [if_neg hafter] at hio ⊢
  generalize hlen : (if c.src_samples < j0 + (SAMPLES_PER_SECTOR - skip) then c.src_samples - j0
    else SAMPLES_PER_SECTOR - skip) = len at *
  have hlen' : 0 < len ∧ skip + len ≤ SAMPLES_PER_SECTOR ∧ j0 + len ≤ c.src_samples ∧
      (skip + len < SAMPLES_PER_SECTOR → c.src_samples ≤ j0 + len) := by
    split at hlen <;> omega
  obtain ⟨hlen0, hfit, hin, hend⟩ := hlen'
  rw [if_neg (by omega)] at hio ⊢
  by_cases hread : e.cmp_io c.reads = true
  swap
  · rw [if_pos (by simp [hread])] at hio
    cases hio
  rw [if_neg (by simp [hread])] at hio ⊢
  -- the clipped head, the samples compared, the clipped tail
  have hhead : CmpCounted disc e.source c.shift c.src_samples c.lba0
    (b + skip) { c with reads := c.reads + 1 } := by
    have := h.skips skip fun i hi hi' hcmp => by
      have := hneg (i - b) (by omega)
      unfold Compared at hcmp
      omega
    exact ⟨this.shift_eq, this.lba0, this.src_eq, this.compared, this.differing, this.first_diff⟩
  have hmid : CmpCounted disc e.source c.shift c.src_samples c.lba0 (b + skip + len) ((List.range len).foldl
      (cmp_sample e (fun a => chunk.data (k * chunk.sector_len + a)) (c.lba0 + m) skip j0)
      { c with reads := c.reads + 1 }) :=
    Loop.foldl_range_inv (fun i t =>
      CmpCounted disc e.source c.shift c.src_samples c.lba0 (b + skip + i) t) hhead
      fun i hi t ht => by
        refine ht.sample ?_ ?_ ?_ ?_
        · unfold Compared
          omega
        · rw [Nat.add_assoc, ← hdata (skip + i) (by omega)]
          rfl
        · omega
        · rw [← hb, Nat.add_assoc, Nat.add_comm (m * _), Nat.add_mul_div_right _ _ hpos,
            Nat.div_eq_of_lt (by omega),
            Nat.zero_add]
  have htail := hmid.skips (SAMPLES_PER_SECTOR - (skip + len)) fun i hi hi' hcmp => by
    unfold Compared at hcmp
    omega
  rw [hnext, show b + SAMPLES_PER_SECTOR = b + skip + len + (SAMPLES_PER_SECTOR - (skip + len)) by omega]
  exact htail

/-! ## The pass -/

theorem cmp_sector_io {chunk : AccuChunk} {k : Nat} (h : (cmp_sector e chunk c k).io_err = false) :
    c.io_err = false := by
  by_contra hne
  rw [Bool.not_eq_false] at hne
  unfold cmp_sector at h
  rw [if_pos hne, hne] at h
  cases h

/-- **One chunk** counts its sectors. -/
theorem cmp_sink_counts {m : Nat} {chunk : AccuChunk} (hio : (cmp_sink e c chunk).io_err = false)
    (h : CmpCounted disc e.source shift src_samples start (m * SAMPLES_PER_SECTOR) c)
      (hlba : chunk.lba = start + m)
    (htop : chunk.lba + chunk.nsec ≤ 2 ^ 32) (hdata : ∀ k < chunk.nsec, ∀ i < SAMPLES_PER_SECTOR,
      sample_at chunk.data (k * chunk.sector_len + i * BYTES_PER_SAMPLE) =
        disc ((m + k) * SAMPLES_PER_SECTOR + i)) :
    CmpCounted disc e.source shift src_samples start ((m + chunk.nsec) * SAMPLES_PER_SECTOR)
      (cmp_sink e c chunk) := by
  have hall := Loop.foldl_range_inv (f := cmp_sector e chunk) (n := chunk.nsec) (s := c) (fun k t =>
    t.io_err = false →
    CmpCounted disc e.source shift src_samples start ((m + k) * SAMPLES_PER_SECTOR) t) (fun _ =>
      h) fun k hk t ht ht' => by
      have hu : u32 (chunk.lba + k) = start + (m + k) := by
        rw [hlba, Nat.add_assoc]
        exact Nat.mod_eq_of_lt (by omega)
      exact cmp_sector_counts ht' (ht (cmp_sector_io ht')) hu (hu ▸ sector_index hlba htop hk) (hdata k hk)
  unfold cmp_sink at hio ⊢
  by_cases hc : c.io_err = true
  · rw [if_pos hc, hc] at hio
    cases hio
  rw [if_neg hc] at hio ⊢
  simp only [] at hio ⊢
  by_cases hend : ((List.range chunk.nsec).foldl (cmp_sector e chunk) c).io_err = true
  · rw [if_pos hend, hend] at hio
    cases hio
  rw [if_neg hend]
  obtain ⟨h1, h2, h3, h4, h5, h6⟩ := hall (Bool.not_eq_true _ ▸ hend)
  exact ⟨h1, h2, h3, h4, h5, h6⟩

theorem cmp_sink_io {chunk : AccuChunk} (h : (cmp_sink e c chunk).io_err = false) : c.io_err = false := by
  by_contra hne
  rw [Bool.not_eq_false] at hne
  unfold cmp_sink at h
  rw [if_pos hne, hne] at h
  cases h

theorem cmp_sinks_io {cs : List AccuChunk} (h : (cs.foldl (cmp_sink e) c).io_err = false) :
    c.io_err = false := by
  induction cs generalizing c with
  | nil => exact h
  | cons chunk cs ih => exact cmp_sink_io (ih h)

/-- **The whole pass**, however the span is cut into chunks. -/
theorem cmp_sinks_count {m m' : Nat} {cs : List AccuChunk} (hcs : Delivers disc start m cs m')
    (hio : (cs.foldl (cmp_sink e) c).io_err = false)
    (h : CmpCounted disc e.source shift src_samples start (m * SAMPLES_PER_SECTOR) c) :
    CmpCounted disc e.source shift src_samples start (m' * SAMPLES_PER_SECTOR)
      (cs.foldl (cmp_sink e) c) := by
  induction cs generalizing m c with
  | nil =>
    obtain rfl : m = m' := hcs
    exact h
  | cons chunk cs ih =>
    obtain ⟨hlba, htop, hdata, hrest⟩ := hcs
    exact ih hrest hio (cmp_sink_counts (cmp_sinks_io hio) h hlba htop hdata)

/-! ## The call -/

variable {o : VerifyOpts} {args : Bool} {abi : Int} {size bytes : Nat} {r : VerifyResult}

/-- The second pass leaves what the first has filled in. -/
theorem census_result_kept (e : VerifyEnv) (o : VerifyOpts) (src_samples : Nat) (r : VerifyResult) :
    (census_result e o src_samples r).samples_compared = r.samples_compared ∧
      (census_result e o src_samples r).samples_differing = r.samples_differing ∧
      (census_result e o src_samples r).first_diff_lba = r.first_diff_lba ∧
      (census_result e o src_samples r).shift_samples = r.shift_samples := by
  unfold census_result
  split
  · simp only []
    split <;> exact ⟨rfl, rfl, rfl, rfl⟩
  · exact ⟨rfl, rfl, rfl, rfl⟩

theorem u64_count {n : Nat} (p : Nat → Prop) [DecidablePred p] (h : n < 2 ^ 32) :
    u64 (Nat.count p (n * SAMPLES_PER_SECTOR)) = Nat.count p (n * SAMPLES_PER_SECTOR) := by
  have hle : Nat.count p (n * SAMPLES_PER_SECTOR) ≤ n * SAMPLES_PER_SECTOR := Nat.count_le p
  unfold SAMPLES_PER_SECTOR at *
  exact Nat.mod_eq_of_lt (by omega)

theorem verify_count_lt (o : VerifyOpts) (src_samples : Nat) : verify_count o src_samples < 2 ^ 32 := by
  unfold verify_count
  split
  · exact Nat.mod_lt _ (by decide)
  · exact o.count.isLt

/-- **The counts** of a verification that compares are those of the whole span, wherever the chunks end. -/
theorem accudisc_verify_counts {fsz : Nat} (hsz : e.size = some fsz)
    (hread : (e.read (compare_req e o (fsz / BYTES_PER_SAMPLE))).2.1 = ACCUDISC_OK →
      Delivers disc o.start.toNat 0 (e.read (compare_req e o (fsz / BYTES_PER_SAMPLE))).1
        (verify_count o (fsz / BYTES_PER_SAMPLE)))
    (h : accudisc_verify e o args abi size = .ok (r, bytes)) (ha : r.aligned = 1) :
    r.samples_compared = Nat.count (Compared r.shift_samples (fsz / BYTES_PER_SAMPLE))
        (verify_count o (fsz / BYTES_PER_SAMPLE) * SAMPLES_PER_SECTOR) ∧
      r.samples_differing = Nat.count (Differs disc e.source r.shift_samples (fsz / BYTES_PER_SAMPLE))
        (verify_count o (fsz / BYTES_PER_SAMPLE) * SAMPLES_PER_SECTOR) ∧
      FirstDiff disc e.source r.shift_samples (fsz / BYTES_PER_SAMPLE) o.start.toNat
        (verify_count o (fsz / BYTES_PER_SAMPLE) * SAMPLES_PER_SECTOR) r.first_diff_lba := by
  obtain ⟨fsz', hstarts, hspan, -⟩ := accudisc_verify_ok h
  obtain rfl : fsz = fsz' := Option.some.inj (hsz.symm.trans hstarts.file)
  generalize hsrc : fsz / BYTES_PER_SAMPLE = src at *
  rcases verify_span_ok hspan with rfl | ⟨shift, hcompared, rfl⟩
  · cases ha
  obtain ⟨hcomp, hdiff, hfirst, hshift⟩ := census_result_kept e o src (compare_result e o src shift)
  rw [hcomp, hdiff, hfirst, hshift]
  have hcount : CmpCounted disc e.source shift src o.start.toNat (verify_count o src * SAMPLES_PER_SECTOR)
      (compare_pass e o src shift) := by
    refine cmp_sinks_count (hread hcompared.read) hcompared.io
      ⟨rfl, rfl, rfl, ?_, ?_, .inl ⟨rfl, fun i hi => ?_⟩⟩
    · rw [Nat.zero_mul]
      rfl
    · rw [Nat.zero_mul]
      rfl
    · rw [Nat.zero_mul] at hi
      exact absurd hi (Nat.not_lt_zero i)
  have hlt := verify_count_lt o src
  refine ⟨?_, ?_, hcount.first_diff⟩
  · exact hcount.compared.trans (u64_count _ hlt)
  · exact hcount.differing.trans (u64_count _ hlt)

/-- The sector of `verify_failing`, all of which is compared. -/
theorem accudisc_verify_counts_sector : ∃ r bytes,
    accudisc_verify verify_failing verify_required true ACCUDISC_OK sizeof_verify_result = .ok (r, bytes) ∧
      r.samples_compared = Nat.count (Compared r.shift_samples 589) 588 := by
  have h := verify_failing_starts.verify verify_failing_compared.span
  exact ⟨_, _, h,
    (accudisc_verify_counts (e := verify_failing) rfl (fun _ => verify_chunk_delivers) h rfl).1⟩

end Accudisc
