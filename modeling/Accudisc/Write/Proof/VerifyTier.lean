import Accudisc.Write.Proof.VerifyAlign

/-!
# The tier that a verification reaches

The tier is settled before the span is read, and a census that fails lowers it once more, when nothing
refuses any longer.
-/

namespace Accudisc

/-- The checks before the span is read. -/
structure VerifyStarts (e : VerifyEnv) (o : VerifyOpts) (args : Bool) (abi : Int) (size fsz : Nat) :
    Prop where
  args : args = true
  abi : abi = ACCUDISC_OK
  export_ok : adsc_abi_export size sizeof_verify_result = .ok size
  tiers : ¬o.want_tier < o.require_tier
  fopen : e.fopen = true
  file : e.size = some fsz
  samples : fsz / BYTES_PER_SAMPLE ≠ 0
  count : verify_count o (fsz / BYTES_PER_SAMPLE) ≠ 0
  tier : o.require_tier.toNat ≤ verify_tier e o

/-- The span is aligned, and read and compared to its end. -/
structure SpanCompared (e : VerifyEnv) (o : VerifyOpts) (src_samples : Nat) (shift : Int) : Prop where
  aligned : align_span e src_samples o.start.toNat (verify_count o src_samples)
    (verify_c2mode e o) o.speed_x.toNat =
    .ok shift
  scratch : e.malloc_scratch = true
  io : (compare_pass e o src_samples shift).io_err = false
  read : (e.read (compare_req e o src_samples)).2.1 = ACCUDISC_OK

/-- What the result says of its own evidence. -/
structure TierHonoured (o : VerifyOpts) (r : VerifyResult) : Prop where
  tier : o.require_tier.toNat ≤ r.tier
  degraded : r.degraded = true ↔ r.tier < o.want_tier.toNat
  c2 : r.tier < ACCUDISC_VERIFY_C2 → r.c2_bits = 0 ∧ r.sectors_flagged = 0 ∧ r.hard_errors = 0
  census : r.tier ≠ ACCUDISC_VERIFY_COUNTERS → r.census = {}

variable {e : VerifyEnv} {o : VerifyOpts} {args : Bool} {abi : Int}
  {size bytes fsz src_samples : Nat} {shift : Int}
  {r : VerifyResult}

/-! ## The call -/

theorem abi_export_eq {want have_bytes n : Nat} (h : adsc_abi_export want have_bytes = .ok n) :
    n = want := by
  unfold adsc_abi_export at h
  split at h
  · cases h
  split at h
  · cases h
  split at h
  · cases h
  exact (Except.ok.inj h).symm

/-- A call that succeeds has come as far as the span. -/
theorem accudisc_verify_ok (h : accudisc_verify e o args abi size = .ok (r, bytes)) :
    ∃ fsz, VerifyStarts e o args abi size fsz ∧ verify_span e o (fsz / BYTES_PER_SAMPLE) = .ok r ∧
      bytes = size := by
  unfold accudisc_verify at h
  split at h
  · cases h
  rename_i hargs
  split at h
  · cases h
  rename_i habi
  cases hb : adsc_abi_export size sizeof_verify_result with
  | error rc =>
    rw [hb] at h
    cases h
  | ok n =>
    obtain rfl := abi_export_eq hb
    rw [hb] at h
    simp only [bind, Except.bind] at h
    split at h
    · cases h
    rename_i htiers
    split at h
    · cases h
    rename_i hopen
    split at h
    · cases h
    rename_i fsz hsz
    split at h
    · cases h
    rename_i hsamples
    split at h
    · cases h
    rename_i hcount
    split at h
    · cases h
    rename_i htier
    refine ⟨fsz, ⟨by simpa using hargs, not_not.1 habi, hb, htiers, by simpa using hopen, hsz,
      hsamples, hcount,
      Nat.not_lt.1 htier⟩, ?_⟩
    cases hs : verify_span e o (fsz / BYTES_PER_SAMPLE) with
    | error rc =>
      rw [hs] at h
      cases h
    | ok r' =>
      rw [hs] at h
      obtain ⟨h1, h2⟩ := Prod.mk.inj (Except.ok.inj h)
      exact ⟨by rw [h1], h2.symm⟩

/-- And one that has come so far ends as the span does. -/
theorem VerifyStarts.verify (h : VerifyStarts e o args abi size fsz)
    (hs : verify_span e o (fsz / BYTES_PER_SAMPLE) = .ok r) :
      accudisc_verify e o args abi size = .ok (r, size) := by
  unfold accudisc_verify
  rw [if_neg (by simp [h.args]), if_neg (not_not.2 h.abi), h.export_ok]
  simp only [bind, Except.bind]
  rw [if_neg h.tiers, if_neg (by simp [h.fopen]), h.file]
  simp only []
  rw [if_neg h.samples, if_neg h.count, if_neg (Nat.not_lt.2 h.tier), hs]

/-- What comes of the span: nothing aligned, or both passes. -/
theorem verify_span_ok (h : verify_span e o src_samples = .ok r) :
    r = { tier := verify_tier e o, degraded := verify_tier e o < o.want_tier.toNat } ∨
      ∃ shift, SpanCompared e o src_samples shift ∧
        r = census_result e o src_samples (compare_result e o src_samples shift) := by
  unfold verify_span at h
  split at h
  · split at h
    · cases h
    · exact .inl (Except.ok.inj h).symm
  · rename_i shift hs
    split at h
    · cases h
    rename_i hscratch
    split at h
    · cases h
    rename_i hio
    split at h
    · cases h
    rename_i hrc
    exact .inr ⟨shift, ⟨hs, by simpa using hscratch, by simpa using hio, not_not.1 hrc⟩,
      (Except.ok.inj h).symm⟩

theorem SpanCompared.span (h : SpanCompared e o src_samples shift) :
    verify_span e o src_samples =
      .ok (census_result e o src_samples (compare_result e o src_samples shift)) := by
  unfold verify_span
  rw [h.aligned]
  simp only []
  rw [if_neg (by simp [h.scratch]), if_neg (by simp [h.io]), if_neg (not_not.2 h.read)]

/-! ## The tier -/

theorem counters_tier_le (e : VerifyEnv) (o : VerifyOpts) : counters_tier e o ≤ 2 ∧
    counters_tier e o ≤ o.want_tier.toNat := by
  unfold counters_tier ACCUDISC_VERIFY_COUNTERS ACCUDISC_VERIFY_C2
  simp only []
  split <;> split
  · split
    · omega
    · split <;> omega
  · omega
  · split
    · omega
    · split <;> omega
  · omega

theorem verify_tier_le (e : VerifyEnv) (o : VerifyOpts) : verify_tier e o ≤ 2 ∧
    verify_tier e o ≤ o.want_tier.toNat := by
  have h := counters_tier_le e o
  unfold verify_tier
  split
  · split
    · exact ⟨Nat.zero_le _, Nat.zero_le _⟩
    · exact h
  · exact h

/-- The result of a pass whose census does not lower the tier. -/
theorem unaligned_honoured (h : o.require_tier.toNat ≤ verify_tier e o) :
    TierHonoured o { tier := verify_tier e o, degraded := verify_tier e o < o.want_tier.toNat } where
  tier := h
  degraded := decide_eq_true_iff
  c2 _ := ⟨rfl, rfl, rfl⟩
  census _ := rfl

theorem census_honoured (h : o.require_tier.toNat ≤ verify_tier e o)
    (hcensus : (ACCUDISC_VERIFY_COUNTERS ≤ verify_tier e o →
      (e.census (census_opts o src_samples)).1 = ACCUDISC_OK) ∨
        o.require_tier.toNat < ACCUDISC_VERIFY_COUNTERS) :
    TierHonoured o (census_result e o src_samples (compare_result e o src_samples shift)) := by
  obtain ⟨hle, hwant⟩ := verify_tier_le e o
  unfold census_result
  by_cases htier : ACCUDISC_VERIFY_COUNTERS ≤ verify_tier e o
  · rw [if_pos htier]
    simp only []
    by_cases hrc : (e.census (census_opts o src_samples)).1 ≠ ACCUDISC_OK
    · -- lowered to C2, which is enough where the counters are not required
      have hreq := hcensus.resolve_left fun hok => hrc (hok htier)
      rw [if_pos hrc]
      unfold ACCUDISC_VERIFY_COUNTERS at htier hreq
      exact
        { tier := Nat.le_of_lt_succ hreq
          degraded := iff_of_true rfl
            (Nat.lt_of_lt_of_le (show ACCUDISC_VERIFY_C2 < 2 by decide) (Nat.le_trans htier hwant))
          c2 := fun hlt => absurd hlt (Nat.lt_irrefl _)
          census := fun _ => rfl }
    · rw [if_neg hrc]
      exact
        { tier := h
          degraded := decide_eq_true_iff
          c2 := fun hlt => absurd (Nat.lt_of_lt_of_le hlt (by decide)) (Nat.not_lt.2 htier)
          census := fun hne => absurd (Nat.le_antisymm hle htier) hne }
  · rw [if_neg htier]
    exact
      { tier := h
        degraded := decide_eq_true_iff
        c2 := fun hlt => by
          have hno : ¬ACCUDISC_VERIFY_C2 ≤ verify_tier e o := Nat.not_le.2 hlt
          unfold compare_result
          simp only [if_neg hno]
          exact ⟨trivial, trivial, trivial⟩
        census := fun _ => rfl }

/-- **When the required tier is honoured**: unless the counters are required and their census fails on a
span that was compared to its end. -/
theorem accudisc_verify_tier_iff (e : VerifyEnv) (o : VerifyOpts) (args : Bool) (abi : Int) (size : Nat)
    (hreq : o.require_tier ≤ o.want_tier) (hwant : o.want_tier.toNat ≤ ACCUDISC_VERIFY_COUNTERS) :
    (∀ r bytes, accudisc_verify e o args abi size = .ok (r, bytes) → TierHonoured o r) ↔
      ¬(o.require_tier.toNat = ACCUDISC_VERIFY_COUNTERS ∧ ∃ fsz shift, VerifyStarts e o args abi size fsz ∧
        SpanCompared e o (fsz / BYTES_PER_SAMPLE) shift ∧
        (e.census (census_opts o (fsz / BYTES_PER_SAMPLE))).1 ≠ ACCUDISC_OK) := by
  have hle : o.require_tier.toNat ≤ 2 := Nat.le_trans (BitVec.le_def.1 hreq) hwant
  constructor
  · rintro h ⟨h2, fsz, shift, hstarts, hcompared, hfails⟩
    have htier := (h _ _ (hstarts.verify hcompared.span)).tier
    unfold census_result at htier
    rw [if_pos (h2 ▸ hstarts.tier)] at htier
    simp only [] at htier
    rw [if_pos hfails, h2] at htier
    exact absurd htier (show ¬ACCUDISC_VERIFY_COUNTERS ≤ ACCUDISC_VERIFY_C2 by decide)
  · intro hno r bytes h
    obtain ⟨fsz, hstarts, hspan, -⟩ := accudisc_verify_ok h
    rcases verify_span_ok hspan with rfl | ⟨shift, hcompared, rfl⟩
    · exact unaligned_honoured hstarts.tier
    · refine census_honoured hstarts.tier ?_
      by_cases h2 : o.require_tier.toNat = ACCUDISC_VERIFY_COUNTERS
      · refine .inl fun _ => ?_
        by_contra hfails
        exact hno ⟨h2, fsz, shift, hstarts, hcompared, hfails⟩
      · exact .inr (Nat.lt_of_le_of_ne hle h2)

/-! ## A drive whose counters fail in mid-disc -/

theorem cmp_sample_io {c : CmpCtx} (audio : Mem) (lba skip j0 i : Nat) :
    (cmp_sample e audio lba skip j0 c i).io_err = c.io_err := by
  unfold cmp_sample
  simp only []
  split <;> rfl

theorem cmp_samples_io {c : CmpCtx} (audio : Mem) (lba skip j0 : Nat) (is : List Nat) :
    (is.foldl (cmp_sample e audio lba skip j0) c).io_err = c.io_err := by
  induction is generalizing c with
  | nil => rfl
  | cons i is ih =>
    rw [List.foldl_cons, ih]
    exact cmp_sample_io audio lba skip j0 i

theorem io_ite {p : Prop} [Decidable p] {c d : CmpCtx} (hc : p → c.io_err = false) (hd : ¬p →
    d.io_err = false) :
    (if p then c else d).io_err = false := by
  split
  · exact hc ‹p›
  · exact hd ‹¬p›

/-- Where the file is read whenever it is wanted, the pass comes to its end. -/
theorem cmp_sinks_no_err (h : ∀ i, e.cmp_io i = true) (cs : List AccuChunk) {c : CmpCtx}
    (hc : c.io_err = false) :
    (cs.foldl (cmp_sink e) c).io_err = false := by
  have hsector : ∀ (chunk : AccuChunk) (ks : List Nat) (c : CmpCtx), c.io_err = false →
      (ks.foldl (cmp_sector e chunk) c).io_err = false := by
    intro chunk ks
    induction ks with
    | nil => exact fun c hc => hc
    | cons k ks ih =>
      intro c hc
      refine ih _ ?_
      unfold cmp_sector
      rw [if_neg (by simp [hc])]
      simp only [h, Bool.not_true, Bool.false_eq_true, if_false]
      refine io_ite (fun _ => hc) fun _ => io_ite (fun _ => hc) fun _ => io_ite (fun _ => hc) fun _ => ?_
      rw [cmp_samples_io]
      exact hc
  induction cs generalizing c with
  | nil => exact hc
  | cons chunk cs ih =>
    refine ih ?_
    have hall := hsector chunk (List.range chunk.nsec) c hc
    unfold cmp_sink
    rw [if_neg (by simp [hc])]
    simp only [hall, Bool.false_eq_true, if_false]

/-- A sector of 588 samples, each of them other than the next. -/
def verify_sawtooth : Mem := fun a => if a % 4 = 0 then BitVec.ofNat 8 (a / 4) else 0

def verify_chunk : AccuChunk := { lba := 0, nsec := 1, data := verify_sawtooth, sector_len := 2352 }

def verify_failing : VerifyEnv where
  fopen := true
  size := some 2356
  bin := verify_sawtooth
  scan_begin := ACCUDISC_OK
  scan_read := ACCUDISC_OK
  probe_features := (ACCUDISC_OK, ACCUDISC_C2_SUPPORTED)
  calloc_anchor _ := true
  anchor_read _ _ := ([verify_chunk], ACCUDISC_OK)
  malloc_window _ := true
  window_io _ := true
  malloc_scratch := true
  read _ := ([verify_chunk], ACCUDISC_OK, {})
  cmp_io _ := true
  census _ := ( ACCUDISC_ERR_IO, {})

def verify_required : VerifyOpts := { count := 1, want_tier := 2, require_tier := 2 }

theorem verify_chunk_delivers : Delivers verify_failing.source 0 0 [verify_chunk] 1 := by
  refine ⟨rfl, by decide, fun k hk i _ => ?_, rfl⟩
  obtain rfl : k = 0 := Nat.lt_one_iff.1 hk
  show sample_at verify_sawtooth (0 * 2352 + i * BYTES_PER_SAMPLE) =
    sample_at verify_sawtooth (((0 + 0) * SAMPLES_PER_SECTOR + i) * BYTES_PER_SAMPLE)
  simp only [Nat.zero_mul, Nat.zero_add]

theorem verify_failing_filled :
    AnchorFilled verify_failing.source 0 1 1 (anchor_filled verify_failing 1 1 0 0 0) :=
  anchor_sink_filled (m := 0) ⟨rfl, rfl, fun j hj =>
    absurd hj (by rw [Nat.zero_mul]; exact Nat.not_lt_zero j)⟩
    verify_chunk_delivers

/-- One shift matches; at the other that the file reaches no sample does. -/
theorem verify_failing_span : SpanAligned verify_failing.source verify_failing.source 589 0 588 0 := by
  have hat : ∀ i, verify_failing.source i = (BitVec.ofNat 8 i, 0, 0, 0) := by
    intro i
    show sample_at verify_sawtooth (i * 4) = _
    unfold sample_at verify_sawtooth
    rw [if_pos (by omega), if_neg (by omega), if_neg (by omega), if_neg (by omega),
      Nat.mul_div_cancel i (by decide)]
  have hbad0 : span_bad verify_failing.source verify_failing.source 0 588 0 = 0 := by
    unfold span_bad
    simp
  have hbad1 : span_bad verify_failing.source verify_failing.source 0 588 1 = 588 := by
    unfold span_bad
    refine Nat.count_iff_forall.2 fun i _ heq => ?_
    rw [hat, hat] at heq
    have := congrArg BitVec.toNat (Prod.mk.inj heq).1
    simp only [BitVec.toNat_ofNat] at this
    omega
  have hshifts : ∀ t, Reaches 589 0 588 t → t = 0 ∨ t = 1 := by
    intro t ht
    unfold Reaches at ht
    omega
  refine ⟨by unfold Reaches; decide, fun t _ => ?_, ?_, fun t ht hne => ?_⟩
  · rw [hbad0]
    exact Nat.zero_le _
  · rw [hbad0]
    exact Nat.zero_le _
  · rw [hbad0, (hshifts t ht).resolve_left hne, hbad1]
    decide

theorem verify_failing_window : win_lo 0 + 588 < win_hi 589 0 588 := by decide

theorem verify_failing_distinct :
    ANCHOR_MIN_DISTINCT ≤ distinct_samples (anchor_filled verify_failing 1 1 0 0 0).buf 588 := by
  rw [@distinct_samples_congr _ verify_sawtooth 588 verify_failing_filled.samples]
  decide +kernel

theorem verify_failing_score :
    score_shifts (anchor_filled verify_failing 1 1 0 0 0).buf (anchor_window verify_failing 0) 588
      (win_hi 589 0 588 - win_lo 0) (win_lo 0 - (0 : Nat)) = some 0 :=
  score_shifts_aligned (by decide) (by decide) (fun i hi => by
    rw [Nat.zero_add]
    exact verify_failing_filled.samples i hi) verify_failing_window verify_failing_span

theorem verify_failing_anchor : align_anchor verify_failing 589 0 1 1 0 0 0 = some (.ok 0) := by
  have hgot : (anchor_filled verify_failing 1 1 0 0 0).got = anchor_sectors 1 := rfl
  have hnsamp : anchor_sectors 1 * SAMPLES_PER_SECTOR = 588 := rfl
  have hbase : anchor_base 0 0 = 0 := rfl
  refine align_anchor_settles (by decide) rfl rfl hgot ?_ ?_ rfl rfl ?_
  · rw [hnsamp]
    exact verify_failing_distinct
  · rw [hnsamp, hbase]
    exact verify_failing_window
  · rw [hnsamp, hbase]
    exact verify_failing_score

theorem verify_failing_aligned : align_span verify_failing 589 0 1 1 0 = .ok 0 :=
  align_span_settles (show anchor_positions 0 1 = [0, 0, 0] by decide) verify_failing_anchor

theorem verify_failing_compared : SpanCompared verify_failing verify_required 589 0 where
  aligned := verify_failing_aligned
  scratch := rfl
  io := cmp_sinks_no_err (fun _ => rfl) _ rfl
  read := rfl

theorem verify_failing_starts :
    VerifyStarts verify_failing verify_required true ACCUDISC_OK sizeof_verify_result 2356 where
  args := rfl
  abi := rfl
  export_ok := rfl
  tiers := by decide
  fopen := rfl
  file := rfl
  samples := by decide
  count := by decide
  tier := by decide

/-- Counters that are required and fail: the call succeeds with the tier below. -/
theorem required_counters_lost : verify_required.require_tier ≤ verify_required.want_tier ∧
    ∃ r bytes, accudisc_verify verify_failing verify_required true ACCUDISC_OK sizeof_verify_result =
      .ok (r, bytes) ∧
      ¬TierHonoured verify_required r := by
  refine ⟨by decide, _, _, verify_failing_starts.verify verify_failing_compared.span, fun h => ?_⟩
  exact absurd h.tier (show ¬ACCUDISC_VERIFY_COUNTERS ≤ ACCUDISC_VERIFY_C2 by decide)

/-- The counters wanted, and the C2 pointers required. -/
def verify_wanted : VerifyOpts := { verify_required with require_tier := 1 }

theorem verify_wanted_ok :
    accudisc_verify verify_failing verify_wanted true ACCUDISC_OK sizeof_verify_result =
    .ok (census_result verify_failing verify_wanted 589 (compare_result verify_failing verify_wanted 589 0),
      sizeof_verify_result) := by
  have hcompared : SpanCompared verify_failing verify_wanted 589 0 :=
    ⟨verify_failing_aligned, rfl, cmp_sinks_no_err (fun _ => rfl) _ rfl, rfl⟩
  have hstarts : VerifyStarts verify_failing verify_wanted true ACCUDISC_OK sizeof_verify_result 2356 :=
    ⟨rfl, rfl, rfl, by decide, rfl, rfl, by decide, by decide, by decide⟩
  exact hstarts.verify hcompared.span

/-- Where the counters are not required, their failure only shows in the result. -/
theorem accudisc_verify_tier_iff_wanted : TierHonoured verify_wanted
    (census_result verify_failing verify_wanted 589 (compare_result verify_failing verify_wanted 589 0)) :=
  (accudisc_verify_tier_iff verify_failing verify_wanted true ACCUDISC_OK sizeof_verify_result (by decide)
    (by decide)).2 (fun h => absurd h.1 (by decide)) _ _ verify_wanted_ok

end Accudisc
