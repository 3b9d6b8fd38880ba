import Accudisc.Lib.Loop
import Accudisc.Read.Proof.ReadLog

/-!
# Reading a span

Every read grows the log by its own transfer and publishes nothing. `read_span_spec`: a sector of a span
is a copy of one good transfer of the span's stage, or it is hard, and then zero-filled and counted
where it is deliverable; and a hard one was asked for on its own (`read_span_missed`).
-/

namespace Accudisc

variable {c : Cfg} {r : Rd} {stage : Stage} {lba nsec len d k : Nat} {buf : Mem}

/-! ## Steps that only keep the engine's own books -/

theorem emit_silent {e : ReadEvent} (he : e.own = true) : Silent r (r.emit e) :=
  ⟨⟨⟨[e], rfl, by simpa using he⟩, rfl, rfl, rfl⟩, rfl⟩

theorem reread_silent : Silent r r.reread := ⟨⟨⟨[], by simp [Rd.reread], nofun⟩, rfl, rfl, rfl⟩, rfl⟩

theorem slip_silent : Silent r r.slip := ⟨⟨⟨[], by simp [Rd.slip], nofun⟩, rfl, rfl, rfl⟩, rfl⟩

theorem count_sense_silent : Silent r (count_sense r) := by
  refine ⟨⟨⟨[], by simp [count_sense], nofun⟩, rfl, rfl, rfl⟩, ?_⟩
  unfold count_sense
  simp only
  split
  · rfl
  · split <;> rfl

/-- The step issues no transfer and keeps the samples. -/
structure Idle (r r' : Rd) : Prop extends Silent r r' where
  same_log : r'.log = r.log
  same_samples : r'.samples = r.samples

theorem Idle.refl (r : Rd) : Idle r r := ⟨.refl r, rfl, rfl⟩

theorem set_speed_once_idle (speed : Nat) : Idle r (set_speed_once r speed) := by
  unfold set_speed_once
  split
  · exact .refl r
  · exact ⟨⟨⟨⟨[], by simp, nofun⟩, rfl, rfl, rfl⟩, rfl⟩, rfl, rfl⟩

theorem Idle.speed_dirty {r' : Rd} (h : Idle r r') (b : Bool) : Idle r { r' with speed_dirty := b } :=
  ⟨⟨⟨h.log, h.status_map, h.subq_map, h.sinks⟩, h.account⟩, h.same_log, h.same_samples⟩

theorem ladder_speed_idle (a : Nat) : Idle r (ladder_speed c r a) := by
  unfold ladder_speed
  split
  · exact .refl r
  · exact (set_speed_once_idle _).speed_dirty true

theorem ladder_restore_idle : Idle r (ladder_restore c r) := by
  unfold ladder_restore
  split
  · exact .refl r
  · exact (set_speed_once_idle _).speed_dirty false

/-! ## One transfer -/

/-- The transfer that a READ CD is. -/
def answer (c : Cfg) (r : Rd) (stage : Stage) (lba nsec len : Nat) : Transfer :=
  ⟨stage, lba, nsec, len, (c.env.drive r.cmds).rc, (c.env.drive r.cmds).data⟩

theorem read_cd_log (off : Nat) : (read_cd c r stage lba nsec len buf off).r.log =
    r.log ++ [.transfer (answer c r stage lba nsec len)] := rfl

theorem read_cd_silent (c : Cfg) (r : Rd) (stage : Stage) (lba nsec len : Nat) (buf : Mem) (off : Nat) :
    Silent r (read_cd c r stage lba nsec len buf off).r :=
  ⟨⟨⟨_, rfl, by simp [ReadEvent.own]⟩, rfl, rfl, rfl⟩, rfl⟩

/-- The records of a transfer are where it was read to. -/
theorem read_cd_record (c : Cfg) (r : Rd) (stage : Stage) (lba nsec len : Nat) (buf : Mem) (d k : Nat) :
    record len (read_cd c r stage lba nsec len buf (d * len)).buf k =
    if d ≤ k ∧ k < d + nsec then record len (answer c r stage lba nsec len).data (k - d)
    else record len buf k := by
  have h := record_memcpy (L := len) buf (c.env.drive r.cmds).data d 0 nsec k
  rw [Nat.zero_mul, Nat.zero_add] at h
  exact h

/-- Record `k` of a good transfer. -/
theorem answer_copy (h : (answer c r stage lba nsec len).rc = ACCUDISC_OK) (hk : k < nsec) :
    Copy len [.transfer (answer c r stage lba nsec len)] (· = stage) (u32 (lba + k))
      (record len (answer c r stage lba nsec len).data k) :=
  ⟨_, List.mem_singleton_self _, ⟨h, rfl⟩, rfl, k, hk, rfl, rfl⟩

/-- A cache-defeat read is one transfer, of its own stage. -/
theorem cache_defeat_log (cur : Nat) : ∃ t, (cache_defeat c r cur).log = r.log ++ [.transfer t] ∧
    t.stage = .flush ∧ Silent r (cache_defeat c r cur) :=
  ⟨_, rfl, rfl, ⟨⟨_, rfl, by simp [ReadEvent.own]⟩, rfl, rfl, rfl⟩, rfl⟩

/-! ## The attempts at one sector -/

theorem u32_of_lt {n : Nat} (h : n < 2 ^ 32) : u32 n = n := Nat.mod_eq_of_lt h

theorem u32_lt (n : Nat) : u32 n < 2 ^ 32 := Nat.mod_lt _ (by decide)

/-- A read of one sector to place `s`. -/
theorem read_sector_spec (r : Rd) (stage : Stage) (buf : Mem) {cur s : Nat} (hcur : cur < 2 ^ 32) :
    let x := read_sector c r stage cur buf (s * c.sector_len)
    (∃ new, x.r.log = r.log ++ new ∧ (x.rc = ACCUDISC_OK →
      Copy c.sector_len new (· = stage) cur (record c.sector_len x.buf s))) ∧
    ∀ k, k ≠ s → record c.sector_len x.buf k = record c.sector_len buf k := by
  refine ⟨⟨_, rfl, fun h => ?_⟩, fun k hk => ?_⟩
  · have hc := @answer_copy c r stage cur 1 c.sector_len 0 h Nat.zero_lt_one
    rw [Nat.add_zero, u32_of_lt hcur] at hc
    unfold read_sector
    rw [read_cd_record, if_pos (by omega), Nat.sub_self]
    exact hc
  · unfold read_sector
    rw [read_cd_record, if_neg (by omega)]

theorem read_attempts_spec (r : Rd) (stage : Stage) (buf : Mem) {cur s : Nat} (hcur : cur < 2 ^ 32)
    (as : List Nat) (src : Int) (hsrc : src ≠ ACCUDISC_OK) :
    let x := read_attempts c stage cur (s * c.sector_len) as r buf src
    Silent r x.r ∧
    (∃ new, x.r.log = r.log ++ new ∧ (x.rc = ACCUDISC_OK →
      Copy c.sector_len new (· = stage) cur (record c.sector_len x.buf s))) ∧
    ∀ k, k ≠ s → record c.sector_len x.buf k = record c.sector_len buf k := by
  induction as generalizing r buf src with
  | nil => exact ⟨.refl r, ⟨[], (List.append_nil _).symm, fun h => absurd h hsrc⟩, fun _ _ => rfl⟩
  | cons a as ih =>
    have hpre : ∃ pre, (if a > 0 then cache_defeat c r cur else r).log = r.log ++ pre ∧
        Silent r (if a > 0 then cache_defeat c r cur else r) := by
      split
      · obtain ⟨t, hl, -, hs⟩ := cache_defeat_log (c := c) (r := r) cur
        exact ⟨_, hl, hs⟩
      · exact ⟨[], (List.append_nil _).symm, .refl r⟩
    obtain ⟨pre, hpl, hps⟩ := hpre
    unfold read_attempts
    generalize (if a > 0 then cache_defeat c r cur else r) = r₁ at hpl hps
    obtain ⟨⟨new, hl, hcopy⟩, hother⟩ := read_sector_spec (c := c) r₁ stage buf (s := s) hcur
    have hx : Silent r (read_sector c r₁ stage cur buf (s * c.sector_len)).r :=
      hps.trans (read_cd_silent ..)
    generalize read_sector c r₁ stage cur buf (s * c.sector_len) = x at hl hcopy hother hx
    have hlog : x.r.log = r.log ++ (pre ++ new) := by rw [hl, hpl, List.append_assoc]
    have hdone : Silent r x.r ∧ (∃ new, x.r.log = r.log ++ new ∧ (x.rc = ACCUDISC_OK →
        Copy c.sector_len new (· = stage) cur (record c.sector_len x.buf s))) ∧
        ∀ k, k ≠ s → record c.sector_len x.buf k = record c.sector_len buf k := by
      refine ⟨hx, ⟨_, hlog, fun h => ?_⟩, hother⟩
      obtain ⟨t, ht, hg⟩ := hcopy h
      exact ⟨t, List.mem_append_right _ ht, hg⟩
    simp only
    split
    · exact hdone
    · rename_i hrc
      split
      · exact hdone
      · obtain ⟨hs, ⟨new', hl', hcopy'⟩, hother'⟩ := ih x.r x.buf x.rc hrc
        refine ⟨hx.trans hs, ⟨_, by rw [hl', hlog, List.append_assoc], fun h => ?_⟩,
          fun k hk => (hother' k hk).trans (hother k hk)⟩
        obtain ⟨t, ht, hg⟩ := hcopy' h
        exact ⟨t, List.mem_append_right _ ht, hg⟩

/-! ## A span -/

/-- The synthetic record: PCM 0, C2 all-ones, SUB 0. -/
def synthetic (c : Cfg) : Mem := fun i =>
  if c.audio_len ≤ i ∧ i < c.audio_len + c.c2_len then 0xff else 0

theorem zero_fill_apply (off a : Nat) : zero_fill c buf off a =
    if off ≤ a ∧ a < off + c.sector_len then synthetic c (a - off) else buf a := by
  have hL := c.layout
  unfold zero_fill synthetic
  by_cases hsub : c.sub_len ≠ 0
  · simp only [if_pos hsub, memset]
    grind
  · simp only [if_neg hsub, memset]
    grind

theorem zero_fill_record (s k : Nat) :
    record c.sector_len (zero_fill c buf (s * c.sector_len)) k =
      if k = s then synthetic c else record c.sector_len buf k := by
  have hL := c.layout
  funext i
  unfold record
  by_cases hi : i < c.sector_len
  · rw [if_pos hi, zero_fill_apply]
    by_cases hk : k = s
    · subst hk
      rw [if_pos ⟨by omega, by omega⟩, if_pos rfl, Nat.add_sub_cancel_left]
    · rw [if_neg hk, if_pos hi, if_neg]
      rintro ⟨h₁, h₂⟩
      rcases Nat.lt_or_gt_of_ne hk with hk | hk
      · have := Nat.mul_le_mul_right c.sector_len hk
        rw [Nat.succ_mul] at this
        omega
      · have := Nat.mul_le_mul_right c.sector_len hk
        rw [Nat.succ_mul] at this
        omega
  · rw [if_neg hi]
    split
    · exact (if_neg (by omega)).symm
    · exact (if_neg hi).symm

/-- What a read of `total` sectors at `lba` comes to, `primary` of them deliverable. -/
structure SpanSpec (c : Cfg) (r : Rd) (stage : Stage) (lba total primary : Nat) (sp : Span) : Prop where
  quiet : Quiet r sp.r
  copies : ∃ new, sp.r.log = r.log ++ new ∧ ∀ s < total, sp.hard s = false →
    Copy c.sector_len new (· = stage) (u32 (lba + s)) (record c.sector_len sp.buf s)
  filled : ∀ s < total, s < primary → sp.hard s = true → record c.sector_len sp.buf s = synthetic c
  hard_lt : ∀ s, sp.hard s = true → s < total
  account : sp.r.st.account = { r.st.account with
    hard_errors := r.st.hard_errors +
      (List.range total).countP fun s => sp.hard s && decide (s < primary) }

/-- What `i` sectors of the fallback come to, after a first read that left `r₁` and `buf`. -/
structure SpanInv (c : Cfg) (r : Rd) (stage : Stage) (lba primary i : Nat) (sp : Span) : Prop where
  quiet : Quiet r sp.r
  copies : ∃ new, sp.r.log = r.log ++ new ∧ ∀ s < i, sp.hard s = false →
    Copy c.sector_len new (· = stage) (u32 (lba + s)) (record c.sector_len sp.buf s)
  filled : ∀ s < i, s < primary → sp.hard s = true → record c.sector_len sp.buf s = synthetic c
  hard_lt : ∀ s, sp.hard s = true → s < i
  account : sp.r.st.account = { r.st.account with
    hard_errors := r.st.hard_errors +
      (List.range i).countP fun s => sp.hard s && decide (s < primary) }

/-- One sector of the fallback: a copy, or hard. -/
theorem span_sector_inv {primary i : Nat} {sp : Span} (h : SpanInv c r stage lba primary i sp) :
    SpanInv c r stage lba primary (i + 1) (span_sector c stage lba primary sp i) := by
  obtain ⟨new, hl, hcopies⟩ := h.copies
  have hnot : sp.hard i = false := by
    by_contra hc
    exact Nat.lt_irrefl _ (h.hard_lt i (by simpa using hc))
  obtain ⟨hs, ⟨new', hl', hcopy⟩, hother⟩ := read_attempts_spec (c := c) sp.r stage sp.buf (s := i)
    (u32_lt (lba + i)) (List.range c.retries) (-1) (by decide)
  unfold span_sector
  simp only
  generalize read_attempts c stage (u32 (lba + i)) (i * c.sector_len) (List.range c.retries) sp.r
    sp.buf (-1) = x at hs hl' hcopy hother
  have hlog : x.r.log = r.log ++ (new ++ new') := by rw [hl', hl, List.append_assoc]
  have hold : ∀ s < i, sp.hard s = false →
      Copy c.sector_len (new ++ new') (· = stage) (u32 (lba + s)) (record c.sector_len x.buf s) :=
    fun s hi hh => by
      rw [hother s (by omega)]
      exact (hcopies s hi hh).mono ⟨new', rfl⟩
  have hupd : ∀ s < i, Function.update sp.hard i true s = sp.hard s := fun s hi =>
    Function.update_of_ne (by omega) ..
  have hcount : ∀ f : Nat → Bool, (∀ s < i, f s = sp.hard s) →
      (List.range (i + 1)).countP (fun s => f s && decide (s < primary)) =
        (List.range i).countP (fun s => sp.hard s && decide (s < primary)) +
          if f i && decide (i < primary) then 1 else 0 := fun f hf => by
    rw [List.range_succ, List.countP_append, List.countP_singleton,
      countP_range_congr fun s hi => by rw [hf s hi]]
  split
  · rename_i hrc
    refine ⟨h.quiet.trans hs.toQuiet, ⟨_, hlog, fun s hi hh => ?_⟩, fun s hi hp hh => ?_,
      fun s hh => Nat.lt_succ_of_lt (h.hard_lt s hh), ?_⟩
    · rcases Nat.lt_succ_iff_lt_or_eq.1 hi with hi | rfl
      · exact hold s hi hh
      · obtain ⟨t, ht, hg⟩ := hcopy hrc
        exact ⟨t, List.mem_append_right _ ht, hg⟩
    · rcases Nat.lt_succ_iff_lt_or_eq.1 hi with hi | rfl
      · exact (hother s (by omega)).trans (h.filled s hi hp hh)
      · simp [hnot] at hh
    · rw [hs.account, h.account, hcount sp.hard fun _ _ => rfl]
      simp [hnot]
  · have hcopies' : ∀ (buf : Mem), (∀ s < i, record c.sector_len buf s = record c.sector_len x.buf s) →
        ∀ s < i + 1, Function.update sp.hard i true s = false →
        Copy c.sector_len (new ++ new') (· = stage) (u32 (lba + s)) (record c.sector_len buf s) :=
      fun buf hbuf s hi hh => by
        rcases Nat.lt_succ_iff_lt_or_eq.1 hi with hi | rfl
        · rw [hupd s hi] at hh
          rw [hbuf s hi]
          exact hold s hi hh
        · simp at hh
    have hlt : ∀ s, Function.update sp.hard i true s = true → s < i + 1 := fun s hh => by
      rcases eq_or_ne s i with rfl | hne
      · omega
      · rw [Function.update_of_ne hne] at hh
        exact Nat.lt_succ_of_lt (h.hard_lt s hh)
    split
    · rename_i hp
      have hq := count_sense_silent (r := { x.r with st := { x.r.st with
        hard_errors := x.r.st.hard_errors + 1 } })
      have hquiet : Quiet x.r (count_sense { x.r with st := { x.r.st with
        hard_errors := x.r.st.hard_errors + 1 } }) :=
        ⟨⟨[], (List.append_nil _).symm, nofun⟩, rfl, rfl, rfl⟩
      refine ⟨(h.quiet.trans hs.toQuiet).trans hquiet, ⟨_, hlog, hcopies' _ fun s hi => ?_⟩,
        fun s hi hps hh => ?_, hlt, ?_⟩
      · rw [zero_fill_record, if_neg (by omega)]
      · rw [zero_fill_record]
        rcases Nat.lt_succ_iff_lt_or_eq.1 hi with hi | rfl
        · rw [if_neg (by omega), hother s (by omega)]
          exact h.filled s hi hps (hupd s hi ▸ hh)
        · exact if_pos rfl
      · have ha := hs.account.trans h.account
        rw [hq.account, hcount _ hupd]
        simp only [Stats.account, hp, Function.update_self, Stats.mk.injEq] at ha ⊢
        simp [ha, Nat.add_assoc]
    · rename_i hp
      refine ⟨h.quiet.trans hs.toQuiet, ⟨_, hlog, hcopies' _ fun _ _ => rfl⟩, fun s hi hps hh => ?_,
        hlt, ?_⟩
      · rcases Nat.lt_succ_iff_lt_or_eq.1 hi with hi | rfl
        · exact (hother s (by omega)).trans (h.filled s hi hps (hupd s hi ▸ hh))
        · exact absurd hps hp
      · rw [hs.account, h.account, hcount _ hupd]
        simp [hp]

theorem read_span_spec (c : Cfg) (r : Rd) (stage : Stage) (lba total primary : Nat) (buf : Mem) :
    SpanSpec c r stage lba total primary (read_span c r stage lba total buf primary) := by
  have hs := read_cd_silent c r stage lba total c.sector_len buf 0
  unfold read_span
  simp only
  split
  · rename_i hrc
    refine ⟨hs.toQuiet, ⟨_, rfl, fun s hi _ => ?_⟩, nofun, nofun, ?_⟩
    · have hrec := read_cd_record c r stage lba total c.sector_len buf 0 s
      rw [Nat.zero_mul, if_pos (by omega), Nat.sub_zero] at hrec
      rw [hrec]
      exact answer_copy hrc hi
    · rw [hs.account]
      simp [Stats.account]
  · have h := Loop.foldl_range_inv (SpanInv c r stage lba primary) (f := span_sector c stage lba primary)
      (n := total) (s := ⟨(read_cd c r stage lba total c.sector_len buf 0).r,
        (read_cd c r stage lba total c.sector_len buf 0).buf, fun _ => false⟩)
      ⟨hs.toQuiet, ⟨_, rfl, nofun⟩, nofun, nofun, by rw [hs.account]; simp [Stats.account]⟩
      fun i _ sp hi => span_sector_inv hi
    exact ⟨h.quiet, h.copies, h.filled, h.hard_lt, h.account⟩

/-! ## A sector the span did not get -/

/-- A read of sector `lba` failed. -/
def Missed (log : List ReadEvent) (stage : Stage) (lba : Nat) : Prop :=
  ∃ t, ReadEvent.transfer t ∈ log ∧ t.stage = stage ∧ t.lba = lba ∧ t.nsec = 1 ∧ t.rc ≠ ACCUDISC_OK

theorem Missed.mono {log log' : List ReadEvent} (h : Missed log stage lba) (hl : log <+: log') :
    Missed log' stage lba := by
  obtain ⟨t, ht, hm⟩ := h
  exact ⟨t, hl.subset ht, hm⟩

/-- Attempts that do not succeed begin with one that failed. -/
theorem read_attempts_missed (stage : Stage) {cur s a : Nat} (hcur : cur < 2 ^ 32) (as : List Nat)
    (src : Int) (h : (read_attempts c stage cur (s * c.sector_len) (a :: as) r buf src).rc ≠ ACCUDISC_OK) :
    Missed (read_attempts c stage cur (s * c.sector_len) (a :: as) r buf src).r.log stage cur := by
  unfold read_attempts at h ⊢
  generalize (if a > 0 then cache_defeat c r cur else r) = r₁ at h ⊢
  have hmem : ReadEvent.transfer (answer c r₁ stage cur 1 c.sector_len) ∈
      (read_sector c r₁ stage cur buf (s * c.sector_len)).r.log :=
    List.mem_append_right _ (List.mem_singleton_self _)
  have hrc : (read_sector c r₁ stage cur buf (s * c.sector_len)).rc =
      (answer c r₁ stage cur 1 c.sector_len).rc := rfl
  generalize read_sector c r₁ stage cur buf (s * c.sector_len) = x at h hmem hrc ⊢
  simp only at h ⊢
  split at h
  · next hok => exact absurd hok h
  next hbad =>
  have hmissed : Missed x.r.log stage cur := ⟨_, hmem, rfl, rfl, rfl, hrc ▸ hbad⟩
  rw [if_neg hbad]
  split
  · exact hmissed
  · exact hmissed.mono (read_attempts_spec x.r stage x.buf hcur as x.rc hbad).1.grows

/-- **A hard sector of a span was asked for on its own, and not read.** -/
theorem read_span_missed (hretries : 0 < c.retries) (r : Rd) (stage : Stage) (lba total primary : Nat)
    (buf : Mem) {s : Nat} (h : (read_span c r stage lba total buf primary).hard s = true) :
    Missed (read_span c r stage lba total buf primary).r.log stage (u32 (lba + s)) := by
  obtain ⟨n, hn⟩ := Nat.exists_eq_add_one.2 hretries
  unfold read_span at h ⊢
  simp only at h ⊢
  split at h
  · cases h
  next hbad =>
  rw [if_neg hbad]
  refine Loop.foldl_range_inv (f := span_sector c stage lba primary)
    (fun _ sp => ∀ t, sp.hard t = true → Missed sp.r.log stage (u32 (lba + t)))
    (fun _ h => absurd h Bool.false_ne_true) (fun i _ sp hsp t ht => ?_) s h
  have hgrows :
    sp.r.log <+: (read_attempts c stage (u32 (lba + i)) (i * c.sector_len) (List.range c.retries)
      sp.r sp.buf (-1)).r.log :=
    (read_attempts_spec sp.r stage sp.buf (u32_lt _) _ (-1) (by decide)).1.grows
  have hmissed := fun h => @read_attempts_missed c sp.r sp.buf stage (u32 (lba + i)) i 0 (u32_lt _)
    ((List.range n).map Nat.succ) (-1) h
  rw [← List.range_succ_eq_map, ← hn] at hmissed
  unfold span_sector at ht ⊢
  simp only at ht ⊢
  generalize read_attempts c stage (u32 (lba + i)) (i * c.sector_len) (List.range c.retries) sp.r sp.buf
    (-1) = x at hgrows hmissed ht ⊢
  split at ht
  · next hok =>
    rw [if_pos hok]
    exact (hsp t ht).mono hgrows
  next hno =>
  rw [if_neg hno]
  have hlog : ∀ st, (count_sense { x.r with st := st }).log = x.r.log := fun _ => rfl
  have hupd : Function.update sp.hard i true t = true := by split at ht <;> exact ht
  have hall : Missed x.r.log stage (u32 (lba + t)) := by
    rcases eq_or_ne t i with rfl | hne
    · exact hmissed hno
    · rw [Function.update_of_ne hne] at hupd
      exact (hsp t hupd).mono hgrows
  split
  · rw [hlog]
    exact hall
  · exact hall

end Accudisc
