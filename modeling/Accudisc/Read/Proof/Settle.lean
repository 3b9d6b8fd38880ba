import Accudisc.Read.Proof.ReadSpan

/-!
# Settling one sector

What the rescues and the consensus of one sector come to (`qpos_rescue_spec`, `anchor_position_spec`,
`c2_rescue_spec`, `consensus_spec`): the sector is left as it was, or replaced by a reread's copy that
the log shows accepted (`AcceptedBy`). No other record changes.
-/

namespace Accudisc

/-- The log shows that `stage` accepted `x` for sector `lba`. -/
def AcceptedBy (L : Nat) (log : List ReadEvent) (stage : Stage) (lba : Nat) (x : Mem) : Prop :=
  .accept stage lba x ∈ log ∧ Copy L log (· = stage) lba x ∧
    (∀ p, stage = .consensus p → Agreed L log p lba x) ∧
    ∀ p, stage = .anchor p → Anchored L log p lba x

theorem AcceptedBy.mono {L : Nat} {log log' : List ReadEvent} {stage : Stage} {lba : Nat} {x : Mem}
    (h : AcceptedBy L log stage lba x) (hl : log <+: log') : AcceptedBy L log' stage lba x :=
  ⟨hl.subset h.1, h.2.1.mono hl, fun p hp => (h.2.2.1 p hp).mono hl, fun p hp => (h.2.2.2 p hp).mono hl⟩

section
variable {L : Nat} {log : List ReadEvent} {p : Pass} {lba : Nat} {x : Mem}

/-- The copy of a reread is a good transfer's. -/
theorem rereads_copy {seg : List ReadEvent} (hlba : lba < 2 ^ 32)
    (hreads : ∀ e ∈ seg, ∃ t, e = .transfer t ∧
      (t.stage = .flush ∨ t.stage = .consensus p ∧ t.lba = lba ∧ t.nsec = 1 ∧ t.sector_len = L))
    (hx : x ∈ rereads L p seg) : Copy L seg (· = .consensus p) lba x := by
  obtain ⟨e, he, hex⟩ := List.mem_filterMap.1 hx
  obtain ⟨t, rfl, ht⟩ := hreads e he
  by_cases hgood : t.stage = .consensus p ∧ t.rc = ACCUDISC_OK
  · obtain ⟨-, htl, htn, hts⟩ := ht.resolve_left fun h => by
      rw [hgood.1] at h
      cases h
    simp only [if_pos hgood, Option.some.injEq] at hex
    refine ⟨t, he, ⟨hgood.2, hts⟩, hgood.1, 0, by omega, ?_, by rw [hts, hex]⟩
    rw [htl]
    exact u32_of_lt hlba
  · simp only [if_neg hgood] at hex
    cases hex

/-- A settlement that ended on two copies with the same audio ended on a reread that repeats one. -/
theorem Agreed.repeated (h : Agreed L log p lba x) : Repeated L log p lba x := by
  obtain ⟨pre, seg, post, sec, alt, rfl, ha⟩ := h
  obtain ⟨ys, hys, y, hy, hd⟩ := ha.agree
  have hlba : lba < 2 ^ 32 := by
    obtain ⟨t, -, -, -, k, -, hk, -⟩ := ha.sec_copy
    rw [← hk]
    exact u32_lt _
  obtain ⟨seg₁, seg₂, rfl, hys₁, hx₂⟩ := List.filterMap_eq_append_iff.1 hys
  have hcopy₂ : Copy L seg₂ (· = .consensus p) lba x :=
    rereads_copy hlba (fun e he => ha.reads e (List.mem_append_right _ he)) (by
      unfold rereads
      rw [hx₂]
      exact List.mem_singleton_self x)
  refine ⟨pre ++ .dispute p lba sec alt :: seg₁, seg₂ ++ post, by simp, ⟨y, ?_, hd⟩,
    hcopy₂.mono ⟨post, rfl⟩⟩
  rcases List.mem_cons.1 hy with rfl | hy
  · exact ha.sec_copy.mono ⟨_, rfl⟩
  rcases List.mem_append.1 hy with hy | hy
  · exact (ha.alt_copy y (Option.mem_toList.1 hy)).mono ⟨_, rfl⟩
  · obtain ⟨t, ht, hg, hs, hh⟩ :=
      rereads_copy hlba (fun e he => ha.reads e (List.mem_append_left _ he)) (by
        unfold rereads
        rw [hys₁]
        exact hy)
    exact ⟨t, by simp [ht], hg, by simp [hs, Stage.Reads], hh⟩

end

/-- Settling sector `lba`, record `s` of the buffer: it is replaced on the evidence `Ev`, or stays. -/
structure Settles (c : Cfg) (r : Rd) (buf : Mem) (s : Nat) (Ev : List ReadEvent → Mem → Prop)
    (x : Settled) : Prop where
  silent : Silent r x.r
  other : ∀ k, k ≠ s → record c.sector_len x.buf k = record c.sector_len buf k
  kept : x.ok = false → record c.sector_len x.buf s = record c.sector_len buf s
  accepted : x.ok = true → Ev x.r.log (record c.sector_len x.buf s)

variable {c : Cfg} {r : Rd} {stage : Stage} {lba s : Nat} {buf : Mem}

/-! ## Rereads -/

theorem Settles.start {r' : Rd} {Ev : List ReadEvent → Mem → Prop} {x : Settled} (hs : Silent r r')
    (h : Settles c r' buf s Ev x) : Settles c r buf s Ev x :=
  ⟨hs.trans h.silent, h.other, h.kept, h.accepted⟩

/-- A settlement that leaves the buffer as it is. -/
theorem Settles.none {r' : Rd} {Ev : List ReadEvent → Mem → Prop} {used : Nat} (hs : Silent r r') :
    Settles c r buf s Ev ⟨r', buf, used, false⟩ :=
  ⟨hs, fun _ _ => rfl, fun _ => rfl, nofun⟩

/-- The transfer answers a read of `nsec` sectors at `lba`, whose records are in `m`. -/
structure Answers (c : Cfg) (stage : Stage) (lba nsec : Nat) (rc : Int) (m : Mem) (t : Transfer) :
    Prop where
  eq : t = ⟨stage, lba, nsec, c.sector_len, rc, t.data⟩
  records : ∀ k < nsec, record c.sector_len m k = record c.sector_len t.data k

section
variable {nsec k : Nat} {rc : Int} {m : Mem} {t : Transfer} {log : List ReadEvent}

theorem Answers.holds (h : Answers c stage lba nsec rc m t) (hk : k < nsec) :
    t.Holds (u32 (lba + k)) (record c.sector_len m k) := by
  rw [h.eq, h.records k hk]
  exact ⟨k, hk, rfl, rfl⟩

theorem Answers.good (h : Answers c stage lba nsec rc m t) (hrc : rc = ACCUDISC_OK) :
    t.Good c.sector_len ∧ t.stage = stage := by
  rw [h.eq]
  exact ⟨⟨hrc, rfl⟩, rfl⟩

theorem Answers.copy (h : Answers c stage lba nsec rc m t) (hrc : rc = ACCUDISC_OK) (hk : k < nsec)
    (ht : .transfer t ∈ log) :
    Copy c.sector_len log (· = stage) (u32 (lba + k)) (record c.sector_len m k) :=
  ⟨t, ht, (h.good hrc).1, (h.good hrc).2, h.holds hk⟩

end

theorem read_scratch_spec (c : Cfg) (r : Rd) (stage : Stage) (lba : Nat) : ∃ t,
     Answers c stage lba 1 (read_scratch c r stage lba).2
      (read_scratch c r stage lba).1.scratch t ∧
    (read_scratch c r stage lba).1.log = r.log ++ [.transfer t] ∧
    Silent r (read_scratch c r stage lba).1 ∧
    (read_scratch c r stage lba).1.samples = r.samples := by
  refine ⟨answer c r stage lba 1 c.sector_len, ⟨rfl, fun k hk => ?_⟩, rfl,
    ⟨⟨⟨_, rfl, by simp [ReadEvent.own]⟩, rfl, rfl, rfl⟩, rfl⟩, rfl⟩
  have h := read_cd_record c r stage lba 1 c.sector_len r.scratch 0 k
  rw [Nat.zero_mul, if_pos (by omega)] at h
  exact h

theorem read_context_spec (c : Cfg) (r : Rd) (stage : Stage) (lba : Nat) : ∃ t,
     Answers c stage lba 3 (read_context c r stage lba).2
      (read_context c r stage lba).1.context t ∧
    (read_context c r stage lba).1.log = r.log ++ [.transfer t] ∧
    Silent r (read_context c r stage lba).1 ∧
    (read_context c r stage lba).1.anchored = r.anchored := by
  refine ⟨answer c r stage lba 3 c.sector_len, ⟨rfl, fun k hk => ?_⟩, rfl,
    ⟨⟨⟨_, rfl, by simp [ReadEvent.own]⟩, rfl, rfl, rfl⟩, rfl⟩, rfl⟩
  have h := read_cd_record c r stage lba 3 c.sector_len r.context 0 k
  rw [Nat.zero_mul, if_pos (by omega)] at h
  exact h

/-- Setting a ladder speed and defeating the cache: one flush transfer. -/
theorem defeat_log (a cur : Nat) : ∃ t, (cache_defeat c (ladder_speed c r a) cur).log =
      r.log ++ [.transfer t] ∧ t.stage = .flush ∧
    Silent r (cache_defeat c (ladder_speed c r a) cur) ∧
    (cache_defeat c (ladder_speed c r a) cur).samples = r.samples := by
  have hi := ladder_speed_idle (c := c) (r := r) a
  obtain ⟨t, hl, ht, hs⟩ := cache_defeat_log (c := c) (r := ladder_speed c r a) cur
  exact ⟨t, by rw [hl, hi.same_log], ht, hi.toSilent.trans hs, hi.same_samples⟩

/-! ## The Q-position rescue -/

/-- The Q frame of a record that has raw subchannel. -/
theorem record_q_record (hsub : c.sub_len = ACCUDISC_BYTES_SUB_RAW) (m : Mem) (s : Nat) :
    record_q c m (s * c.sector_len) = record_q c (record c.sector_len m s) 0 := by
  have hL := c.layout
  refine sub_q_congr fun i hi => ?_
  unfold ptr
  rw [record_lt (by omega)]
  congr 1
  omega

theorem qpos_loop_spec (hsub : c.sub_len = ACCUDISC_BYTES_SUB_RAW) (hlba : lba < 2 ^ 32)
    (as : List Nat) (used : Nat) :
    Settles c r buf s (fun log x => AcceptedBy c.sector_len log .qpos lba x ∧
      misplaced (record_q c x 0) lba = false) (qpos_loop c lba (s * c.sector_len) as r buf used) := by
  induction as generalizing r used with
  | nil => exact .none (.refl r)
  | cons a as ih =>
    obtain ⟨t, -, -, hs, -⟩ := defeat_log (c := c) (r := r) a lba
    unfold qpos_loop
    generalize cache_defeat c (ladder_speed c r a) lba = r₁ at hs
    obtain ⟨t, ha, hl, hs', -⟩ := read_scratch_spec c r₁ .qpos lba
    generalize read_scratch c r₁ .qpos lba = y at ha hl hs'
    obtain ⟨r₂, rc⟩ := y
    have hs₂ : Silent r r₂ := hs.trans hs'
    simp only at ha hl ⊢
    split
    · exact .start hs₂ (ih used)
    · rename_i hrc
      have hrr := hs₂.trans reread_silent
      split
      · exact .start hrr (ih a)
      · rename_i hq
        split
        · exact .start hrr (ih a)
        · rename_i hpos
          have hrec : record c.sector_len (memcpy buf (s * c.sector_len) r₂.scratch 0 c.sector_len) s =
              record c.sector_len r₂.scratch 0 := by
            simpa using record_memcpy_one (L := c.sector_len) buf r₂.scratch s 0 s
          refine ⟨hrr.trans (emit_silent rfl), fun k hk => ?_, by simp, fun _ => ?_⟩
          · simpa [hk] using record_memcpy_one (L := c.sector_len) buf r₂.scratch s 0 k
          · simp only
            rw [hrec]
            have hmem : ReadEvent.transfer t ∈ (r₂.reread.emit (.accept .qpos lba
                (record c.sector_len r₂.scratch 0))).log := by
              simp [Rd.emit, Rd.reread, hl]
            have hcopy := ha.copy (not_not.1 hrc) Nat.zero_lt_one hmem
            rw [Nat.add_zero, u32_of_lt hlba] at hcopy
            refine ⟨⟨by simp [Rd.emit], hcopy, by simp, by simp⟩, ?_⟩
            have h0 := record_q_record hsub r₂.scratch 0
            rw [Nat.zero_mul] at h0
            rw [← h0]
            unfold misplaced
            simp_all

theorem qpos_rescue_spec (hsub : c.sub_len = ACCUDISC_BYTES_SUB_RAW) (hlba : lba < 2 ^ 32) :
    Settles c r buf s (fun log x => AcceptedBy c.sector_len log .qpos lba x ∧
      misplaced (record_q c x 0) lba = false) (qpos_rescue c r lba buf (s * c.sector_len)) :=
  qpos_loop_spec hsub hlba _ 0

/-! ## Anchoring -/

/-- The references are copies of chunk transfers. -/
def RefsOk (L : Nat) (log : List ReadEvent) (refs : List Ref) : Prop :=
  ∀ ref ∈ refs, ∀ data ∈ ref.data, ∀ j < ref.n, ref.hard j = false →
    Copy L log Stage.Chunk (u32 (ref.lba + j)) (record L data j)

theorem RefsOk.mono {L : Nat} {log log' : List ReadEvent} {refs : List Ref} (h : RefsOk L log refs)
    (hl : log <+: log') : RefsOk L log' refs :=
  fun ref hr data hd j hj hh => (h ref hr data hd j hj hh).mono hl

theorem audio_le (c : Cfg) : ACCUDISC_BYTES_AUDIO ≤ c.sector_len := by
  have := c.layout
  have := c.audio_eq
  omega

theorem corroborated_spec {ctx : Mem} {w0 : Nat} {refs : List Ref} {rc : Int} {t : Transfer}
    {log : List ReadEvent} (ha : Answers c stage w0 3 rc ctx t) (hrefs : RefsOk c.sector_len log refs)
    (h : corroborated c ctx w0 lba refs = true) : Corroborated c.sector_len log t lba := by
  simp only [corroborated, List.any_eq_true, List.mem_range, Bool.and_eq_true, bne_iff_ne] at h
  obtain ⟨k, hk, hne, ref, hr, hm⟩ := h
  unfold ref_match at hm
  cases hd : ref.data with
  | none => simp [hd] at hm
  | some data =>
    simp only [hd] at hm
    split at hm
    · cases hm
    · rename_i hcond
      simp only [not_or, Nat.not_lt, Nat.not_le, Bool.not_eq_true] at hcond
      simp only [Bool.and_eq_true, beq_iff_eq] at hm
      have hcopy := hrefs ref hr data hd _ hcond.2.1 hcond.2.2
      rw [Nat.add_sub_cancel' hcond.1, u32_of_lt (u32_lt _)] at hcopy
      refine ⟨k, by rw [ha.eq]; exact hk, by rw [ha.eq]; exact hne, _, by rw [ha.eq]; exact hcopy, ?_, ?_⟩
      · rw [← ha.records k hk, ← audio_diff_record (audio_le c)]
        exact hm.1
      · rw [← alignment_signal_congr (record_audio (audio_le c) _)]
        exact hm.2

/-- Where the sector is in a context read. -/
theorem context_index {a : Nat} (hlba : lba < 2 ^ 32) (hw : ¬(lba : Int) + context_start a < 0) :
    sub32 lba (u32 ((lba : Int) + context_start a).toNat) < 3 ∧
      u32 (u32 ((lba : Int) + context_start a).toNat +
        sub32 lba (u32 ((lba : Int) + context_start a).toNat)) = lba := by
  have hs : context_start a = -1 ∨ context_start a = -2 ∨ context_start a = 0 := by
    unfold context_start
    split
    · exact .inl rfl
    · split
      · exact .inr (.inl rfl)
      · exact .inr (.inr rfl)
  unfold sub32 u32
  rcases hs with hs | hs | hs <;> rw [hs] at hw ⊢ <;> omega

/-- A first corroborated read is in `r->anchored`, once there is one. -/
def AnchorHeld (c : Cfg) (p : Pass) (lba : Nat) (r : Rd) (agree : Nat) : Prop :=
  agree = 0 ∨ ∃ t, .transfer t ∈ r.log ∧ t.Good c.sector_len ∧ t.stage = .anchor p ∧
    Corroborated c.sector_len r.log t lba ∧ t.Holds lba (record c.sector_len r.anchored 0)

theorem anchor_loop_spec {p : Pass} {refs : List Ref} (hlba : lba < 2 ^ 32) (as : List Nat)
    (agree used : Nat) (hrefs : RefsOk c.sector_len r.log refs) (hheld : AnchorHeld c p lba r agree) :
    Settles c r buf s (fun log x => AcceptedBy c.sector_len log (.anchor p) lba x)
      (anchor_loop c p lba (s * c.sector_len) refs as r buf agree used) := by
  induction as generalizing r agree used with
  | nil => exact .none (.refl r)
  | cons a as ih =>
    unfold anchor_loop
    simp only
    split
    · exact ih agree used hrefs hheld
    rename_i hw
    obtain ⟨hj, hidx⟩ := context_index hlba hw
    generalize hw0 : u32 ((lba : Int) + context_start (a % 3)).toNat = w0 at hj hidx ⊢
    obtain ⟨tf, hfl, -, hfs⟩ := cache_defeat_log (c := c) (r := r) lba
    have hfa : (cache_defeat c r lba).anchored = r.anchored := rfl
    generalize cache_defeat c r lba = r₁ at hfl hfs hfa ⊢
    obtain ⟨t, ha, hl, hs, han⟩ := read_context_spec c r₁ (.anchor p) w0
    generalize read_context c r₁ (.anchor p) w0 = y at ha hl hs han ⊢
    obtain ⟨r₂, rc⟩ := y
    simp only at ha hl hs han ⊢
    have hs₂ : Silent r r₂ := hfs.trans hs
    have hlog : r₂.log = r.log ++ [.transfer tf, .transfer t] := by simp [hl, hfl]
    have hpre : r.log <+: r₂.log := hs₂.grows
    have hheld₂ : ∀ r' : Rd, r'.log = r₂.log → r'.anchored = r.anchored → AnchorHeld c p lba r' agree := by
      intro r' hl' ha'
      rcases hheld with h0 | ⟨t, ht, hg, hst, hc, hh⟩
      · exact .inl h0
      · exact .inr ⟨t, hl' ▸ hpre.subset ht, hg, hst, hl' ▸ hc.mono hpre, ha' ▸ hh⟩
    split
    · exact .start hs₂ (ih agree used (hrefs.mono hpre) (hheld₂ r₂ rfl (han.trans hfa)))
    rename_i hrc
    have hgood := ha.good (not_not.1 hrc)
    have hss := hs₂.trans reread_silent
    split
    · exact .start hss (ih agree (used + 1) (hrefs.mono hpre) (hheld₂ r₂.reread rfl (han.trans hfa)))
    rename_i hcor
    have hcorr : Corroborated c.sector_len r₂.log t lba :=
      corroborated_spec ha (hrefs.mono hpre) (by simpa using hcor)
    have hholds : t.Holds lba (record c.sector_len r₂.context (sub32 lba w0)) := by
      have h := ha.holds hj
      rwa [hidx] at h
    have hmem : ReadEvent.transfer t ∈ r₂.log := by rw [hlog]; simp
    split
    · -- The first corroborated read is kept.
      have hkeep : Silent r₂.reread { r₂.reread with
          anchored := memcpy r₂.anchored 0 r₂.context (sub32 lba w0 * c.sector_len) c.sector_len } :=
        ⟨⟨⟨[], (List.append_nil _).symm, nofun⟩, rfl, rfl, rfl⟩, rfl⟩
      refine .start (hss.trans hkeep) (ih 1 (used + 1) (hrefs.mono hpre) (.inr ?_))
      refine ⟨t, hmem, hgood.1, hgood.2, hcorr, ?_⟩
      rw [record_memcpy_zero]
      exact hholds
    rename_i hagree
    split
    · -- The second one holds the same audio.
      rename_i hdiff
      obtain ⟨t', ht', hg', hst', hc', hh'⟩ := hheld.resolve_left hagree
      rw [← han.trans hfa] at hh'
      have hrec : record c.sector_len (memcpy buf (s * c.sector_len) r₂.anchored 0 c.sector_len) s =
          record c.sector_len r₂.anchored 0 := by
        simpa using record_memcpy_one (L := c.sector_len) buf r₂.anchored s 0 s
      have hsub : [ReadEvent.transfer t', .transfer t].Sublist r₂.log := by
        rw [hlog]
        exact (List.singleton_sublist.2 ht').append (List.singleton_sublist.2 (by simp))
      have hl' : r₂.log <+: (r₂.reread.emit
          (.accept (.anchor p) lba (record c.sector_len r₂.anchored 0))).log := ⟨_, rfl⟩
      refine ⟨hss.trans (emit_silent rfl), fun k hk => ?_, nofun, fun _ => ?_⟩
      · simpa [hk] using record_memcpy_one (L := c.sector_len) buf r₂.anchored s 0 k
      · simp only
        rw [hrec]
        refine ⟨by simp [Rd.emit], ⟨t', hl'.subset (hpre.subset ht'), hg', hst', hh'⟩, nofun, ?_⟩
        rintro _ ⟨⟩
        refine Anchored.mono ?_ hl'
        refine ⟨t', t, hsub, ⟨hg', hst', hc'.mono hpre, hh'⟩, hgood.1, hgood.2, hcorr, _, hholds, ?_⟩
        refine .trans (adsc_audio_diff_congr ?_ ?_) hdiff
        · exact fun i hi => by
            rw [record_lt (Nat.lt_of_lt_of_le hi (audio_le c)), Nat.zero_mul, Nat.zero_add]
        · exact fun i hi => (record_audio (audio_le c) _ i hi).symm
    · exact .none hss

theorem anchor_position_spec (buf : Mem) (p : Pass) {refs : List Ref} (hlba : lba < 2 ^ 32) (used : Nat)
    (hrefs : RefsOk c.sector_len r.log refs) :
    Settles c r buf s (fun log x => AcceptedBy c.sector_len log (.anchor p) lba x)
      (anchor_position c p r lba buf (s * c.sector_len) refs used) :=
  anchor_loop_spec hlba _ 0 used hrefs (.inl rfl)

/-! ## The C2 rescue -/

theorem record_bits_record (c : Cfg) (m : Mem) (s : Nat) :
    record_bits c m (s * c.sector_len) = record_bits c (record c.sector_len m s) 0 := by
  have hL := c.layout
  refine popcount_buf_congr fun i hi => ?_
  unfold ptr
  rw [record_lt (by omega)]
  congr 1
  omega

/-- The rescue of sector `lba`, record `s`: it is kept with its bits, or replaced with the bits of the
copy that replaces it, which are fewer. -/
structure Rescues (c : Cfg) (r : Rd) (buf : Mem) (s lba bits : Nat) (x : Rescued) : Prop where
  silent : Silent r x.r
  other : ∀ k, k ≠ s → record c.sector_len x.buf k = record c.sector_len buf k
  result : (record c.sector_len x.buf s = record c.sector_len buf s ∧ x.best = bits) ∨
    AcceptedBy c.sector_len x.r.log .c2 lba (record c.sector_len x.buf s) ∧
      C2Lined c.sector_len x.r.log lba (record c.sector_len x.buf s) ∧
      x.best = record_bits c (record c.sector_len x.buf s) 0 ∧ x.best < bits

theorem Rescues.start {r' : Rd} {bits : Nat} {x : Rescued} (hs : Silent r r')
    (h : Rescues c r' buf s lba bits x) : Rescues c r buf s lba bits x :=
  ⟨hs.trans h.silent, h.other, h.result⟩

theorem c2_loop_spec {refs : List Ref} (hlba : lba < 2 ^ 32) (as : List Nat) (buf : Mem)
    (best used : Nat) (hrefs : RefsOk c.sector_len r.log refs) :
    Rescues c r buf s lba best (c2_loop c lba (s * c.sector_len) refs as r buf best used) := by
  induction as generalizing r buf best used with
  | nil => exact ⟨.refl r, fun _ _ => rfl, .inl ⟨rfl, rfl⟩⟩
  | cons a as ih =>
    unfold c2_loop
    simp only
    split
    · exact ⟨.refl r, fun _ _ => rfl, .inl ⟨rfl, rfl⟩⟩
    have hidx : ∃ j, j = sub32 lba (u32 (if (lba : Int) + context_start ((a - 1) % 3) < 0 then lba
          else ((lba : Int) + context_start ((a - 1) % 3)).toNat)) ∧ j < 3 ∧
        u32 (u32 (if (lba : Int) + context_start ((a - 1) % 3) < 0 then lba
          else ((lba : Int) + context_start ((a - 1) % 3)).toNat) + j) = lba := by
      refine ⟨_, rfl, ?_⟩
      split
      · unfold sub32 u32
        omega
      · exact context_index hlba ‹_›
    obtain ⟨j, hj, hj3, hidx⟩ := hidx
    rw [← hj]
    generalize u32 (if (lba : Int) + context_start ((a - 1) % 3) < 0 then lba
      else ((lba : Int) + context_start ((a - 1) % 3)).toNat) = w0 at hj hidx ⊢
    obtain ⟨-, -, -, hfs, -⟩ := defeat_log (c := c) (r := r) a lba
    generalize cache_defeat c (ladder_speed c r a) lba = r₁ at hfs ⊢
    obtain ⟨t, ha, hl, hs, -⟩ := read_context_spec c r₁ .c2 w0
    generalize read_context c r₁ .c2 w0 = y at ha hl hs ⊢
    obtain ⟨r₂, rc⟩ := y
    simp only at ha hl hs ⊢
    have hs₂ : Silent r r₂ := hfs.trans hs
    have hrefs₂ := hrefs.mono hs₂.grows
    split
    · exact .start hs₂ (ih buf best used hrefs₂)
    rename_i hrc
    have hss := hs₂.trans reread_silent
    split
    · exact .start hss (ih buf best a hrefs₂)
    rename_i hcor
    have hcorr : Corroborated c.sector_len r₂.log t lba := corroborated_spec ha hrefs₂ (by simpa using hcor)
    split
    · rename_i hfewer
      have hmem : .transfer t ∈ r₂.log := by simp [hl]
      have hholds : t.Holds lba (record c.sector_len r₂.context j) := by
        have h := ha.holds hj3
        rwa [hidx] at h
      have hcopy : Copy c.sector_len r₂.log (· = .c2) lba (record c.sector_len r₂.context j) :=
        ⟨t, hmem, (ha.good (not_not.1 hrc)).1, (ha.good (not_not.1 hrc)).2, hholds⟩
      have hx : record c.sector_len (ptr r₂.context (j * c.sector_len)) 0 =
          record c.sector_len r₂.context j := by rw [record_ptr, Nat.add_zero]
      generalize hr₃ : r₂.reread.emit
        (.accept .c2 lba (record c.sector_len (ptr r₂.context (j * c.sector_len)) 0)) = r₃
      have hs₃ : Silent r r₃ := hr₃ ▸ hss.trans (emit_silent rfl)
      have hacc : AcceptedBy c.sector_len r₃.log .c2 lba (record c.sector_len r₂.context j) :=
        ⟨by simp [← hr₃, Rd.emit, hx], hcopy.mono (hr₃ ▸ ⟨_, rfl⟩), nofun, nofun⟩
      have hmv := record_memcpy_one (L := c.sector_len) buf r₂.context s j
      have hb := record_bits_record c r₂.context j
      have hgrows : r₂.log <+: r₃.log := hr₃ ▸ ⟨_, rfl⟩
      have hlined : C2Lined c.sector_len r₃.log lba (record c.sector_len r₂.context j) :=
        C2Lined.mono ⟨t, hmem, (ha.good (not_not.1 hrc)).1, (ha.good (not_not.1 hrc)).2,
          hcorr, hholds⟩ hgrows
      obtain ⟨hsi, hot, hres⟩ := ih (r := r₃)
        (memcpy buf (s * c.sector_len) r₂.context (j * c.sector_len) c.sector_len)
        (record_bits c r₂.context (j * c.sector_len)) a (hrefs₂.mono hgrows)
      refine ⟨hs₃.trans hsi, fun k hk => ?_, .inr ?_⟩
      · rw [hot k hk, hmv, if_neg hk]
      · rcases hres with ⟨hrec, hbest⟩ | hres
        · rw [hmv, if_pos rfl] at hrec
          rw [hrec]
          exact ⟨hacc.mono hsi.grows, hlined.mono hsi.grows, by rw [hbest, hb], hbest.trans_lt hfewer⟩
        · exact ⟨hres.1, hres.2.1, hres.2.2.1, hres.2.2.2.trans hfewer⟩
    · exact .start hss (ih buf best a hrefs₂)

theorem c2_rescue_spec {refs : List Ref} (hlba : lba < 2 ^ 32) (bits : Nat)
    (hrefs : RefsOk c.sector_len r.log refs) :
    Rescues c r buf s lba bits (c2_rescue c r lba buf (s * c.sector_len) bits refs) :=
  c2_loop_spec hlba _ buf bits 0 hrefs

/-! ## Consensus -/

theorem unshifted_append {seen ys : List Mem} {y : Mem} : Unshifted seen (ys ++ [y]) ↔
    Unshifted seen ys ∧ ∀ z ∈ seen ++ ys, adsc_audio_diff y z ≠ 0 → adsc_shift_find y z = none := by
  induction ys generalizing seen with
  | nil => simp [Unshifted]
  | cons x ys ih =>
    simp only [List.cons_append, Unshifted]
    rw [ih, and_assoc]
    simp

theorem ptr_zero (m : Mem) : ptr m 0 = m := by
  funext i
  simp [ptr]

/-- The comparison of a reread with sample `i`, on records. -/
theorem audio_diff_sample (m m' : Mem) (i : Nat) : adsc_audio_diff m (ptr m' (i * c.sector_len)) =
    adsc_audio_diff (record c.sector_len m 0) (record c.sector_len m' i) := by
  have h := @audio_diff_record m m' _ (audio_le c) 0 i
  rwa [Nat.zero_mul, ptr_zero] at h

theorem shift_find_sample (m m' : Mem) (i : Nat) : adsc_shift_find m (ptr m' (i * c.sector_len)) =
    adsc_shift_find (record c.sector_len m 0) (record c.sector_len m' i) := by
  have h := @shift_find_record m m' _ (audio_le c) 0 i
  rwa [Nat.zero_mul, ptr_zero] at h

/-- What a scan of the samples finds. -/
theorem consensus_scan_spec (scratch samples : Mem) (count : Nat) (shifted : Bool) :
    ((consensus_scan c scratch samples count shifted).1 = true → ∃ i < count,
      adsc_audio_diff (record c.sector_len scratch 0) (record c.sector_len samples i) = 0) ∧
    ((consensus_scan c scratch samples count shifted).2 = false → shifted = false ∧ ∀ i < count,
      adsc_audio_diff (record c.sector_len scratch 0) (record c.sector_len samples i) ≠ 0 →
        adsc_shift_find (record c.sector_len scratch 0) (record c.sector_len samples i) = none) := by
  refine Loop.foldl_range_inv (fun n (st : Bool × Bool) => (st.1 = true → ∃ i < n,
      adsc_audio_diff (record c.sector_len scratch 0) (record c.sector_len samples i) = 0) ∧
    (st.2 = false → shifted = false ∧ ∀ i < n,
      adsc_audio_diff (record c.sector_len scratch 0) (record c.sector_len samples i) ≠ 0 →
        adsc_shift_find (record c.sector_len scratch 0) (record c.sector_len samples i) = none))
    ⟨nofun, fun h => ⟨h, nofun⟩⟩ ?_
  rintro n - ⟨m, sh⟩ ⟨hm, hsh⟩
  simp only [audio_diff_sample, shift_find_sample] at hm hsh ⊢
  have hsucc : ∀ i < n + 1, i < n ∨ i = n := fun i hi => Nat.lt_succ_iff_lt_or_eq.1 hi
  split
  · rename_i hd
    refine ⟨fun _ => ⟨n, Nat.lt_succ_self n, hd⟩, fun h => ⟨(hsh h).1, fun i hi hne => ?_⟩⟩
    rcases hsucc i hi with hi | rfl
    · exact (hsh h).2 i hi hne
    · exact absurd hd hne
  · rename_i hd
    have hm' : m = true → ∃ i < n + 1,
        adsc_audio_diff (record c.sector_len scratch 0) (record c.sector_len samples i) = 0 := fun h => by
      obtain ⟨i, hi, h0⟩ := hm h
      exact ⟨i, Nat.lt_succ_of_lt hi, h0⟩
    split
    · exact ⟨hm', nofun⟩
    · rename_i hs
      refine ⟨hm', fun h => ⟨(hsh h).1, fun i hi hne => ?_⟩⟩
      rcases hsucc i hi with hi | rfl
      · exact (hsh h).2 i hi hne
      · simpa [show sh = false from h] using hs

/-- A settlement under way: the log since it began, the samples, and no shift among them unless it is
known. -/
structure Settling (c : Cfg) (p : Pass) (lba : Nat) (pre : List ReadEvent) (sec : Mem)
    (alt : Option Mem) (r : Rd) (count : Nat) (shifted : Bool) (seg : List ReadEvent) : Prop where
  log : r.log = pre ++ .dispute p lba sec alt :: seg
  reads : ∀ e ∈ seg, ∃ t, e = .transfer t ∧ (t.stage = .flush ∨
    t.stage = .consensus p ∧ t.lba = lba ∧ t.nsec = 1 ∧ t.sector_len = c.sector_len)
  counted : count = (sec :: (alt.toList ++ rereads c.sector_len p seg)).length
  samples : ∀ i < count, (sec :: (alt.toList ++ rereads c.sector_len p seg))[i]? =
    some (record c.sector_len r.samples i)
  unshifted : shifted = false →
    (∀ y ∈ alt, adsc_audio_diff sec y ≠ 0 → adsc_shift_find sec y = none) ∧
      Unshifted (sec :: alt.toList) (rereads c.sector_len p seg)

section
variable {p : Pass} {pre : List ReadEvent} {sec : Mem} {alt : Option Mem}

/-- The samples are the copies seen. -/
theorem Settling.mem {count : Nat} {shifted : Bool} {seg : List ReadEvent}
    (h : Settling c p lba pre sec alt r count shifted seg) {z : Mem} :
    z ∈ sec :: (alt.toList ++ rereads c.sector_len p seg) ↔
      ∃ i < count, z = record c.sector_len r.samples i := by
  rw [List.mem_iff_getElem?]
  constructor
  · rintro ⟨i, hi⟩
    have hlt : i < count := h.counted ▸ (List.getElem?_eq_some_iff.1 hi).1
    exact ⟨i, hlt, Option.some.inj (hi.symm.trans (h.samples i hlt))⟩
  · rintro ⟨i, hi, rfl⟩
    exact ⟨i, h.samples i hi⟩

/-- One turn of a settlement: a flush and a reread with the code `rc`, whose copy is in `scratch`. -/
structure SettleReread (c : Cfg) (p : Pass) (lba : Nat) (pre : List ReadEvent) (sec : Mem)
    (alt : Option Mem) (r : Rd)
    (seg : List ReadEvent) (r₂ : Rd) (rc : Int) (seg' : List ReadEvent) : Prop where
  silent : Silent r r₂
  log : r₂.log = pre ++ .dispute p lba sec alt :: seg'
  reads : ∀ e ∈ seg', ∃ t, e = .transfer t ∧ (t.stage = .flush ∨
    t.stage = .consensus p ∧ t.lba = lba ∧ t.nsec = 1 ∧ t.sector_len = c.sector_len)
  samples : r₂.samples = r.samples
  copies : rereads c.sector_len p seg' =
    rereads c.sector_len p seg ++ if rc = ACCUDISC_OK then [record c.sector_len r₂.scratch 0] else []
  copy : rc = ACCUDISC_OK → lba < 2 ^ 32 →
    Copy c.sector_len r₂.log (· = .consensus p) lba (record c.sector_len r₂.scratch 0)

section
variable {count : Nat} {shifted : Bool} {seg : List ReadEvent}
  (h : Settling c p lba pre sec alt r count shifted seg)
include h

theorem Settling.reread (a : Nat) : ∃ seg', SettleReread c p lba pre sec alt r seg
    (read_scratch c (cache_defeat c (ladder_speed c r a) lba) (.consensus p) lba).1
    (read_scratch c (cache_defeat c (ladder_speed c r a) lba) (.consensus p) lba).2 seg' := by
  obtain ⟨tf, hfl, hfst, hfs, hfsm⟩ := defeat_log (c := c) (r := r) a lba
  generalize cache_defeat c (ladder_speed c r a) lba = r₁ at hfl hfs hfsm ⊢
  obtain ⟨t, ha, hl, hs, hsm⟩ := read_scratch_spec c r₁ (.consensus p) lba
  generalize read_scratch c r₁ (.consensus p) lba = y at ha hl hs hsm ⊢
  refine ⟨seg ++ [.transfer tf, .transfer t], hfs.trans hs, by rw [hl, hfl, h.log]; simp, fun e he => ?_,
    hsm.trans hfsm, ?_, fun hrc hlba => ?_⟩
  · simp only [List.mem_append, List.mem_cons, List.not_mem_nil, or_false] at he
    rcases he with he | rfl | rfl
    · exact h.reads e he
    · exact ⟨tf, rfl, .inl hfst⟩
    · exact ⟨t, rfl, .inr (by rw [ha.eq]; exact ⟨rfl, rfl, rfl, rfl⟩)⟩
  · have hrec := ha.records 0 Nat.zero_lt_one
    rw [ha.eq] at hrec ⊢
    rw [hrec]
    by_cases hrc : y.2 = ACCUDISC_OK <;> simp [rereads, hfst, hrc]
  · have hcopy := ha.copy hrc Nat.zero_lt_one (show .transfer t ∈ y.1.log by simp [hl])
    rwa [Nat.add_zero, u32_of_lt hlba] at hcopy

variable {r₂ : Rd} {rc : Int} {seg' : List ReadEvent}
  (hr : SettleReread c p lba pre sec alt r seg r₂ rc seg')
include hr

/-- A read that failed is no copy. -/
theorem Settling.failed (hrc : rc ≠ ACCUDISC_OK) : Settling c p lba pre sec alt r₂ count shifted seg' := by
  have hcopies := hr.copies
  rw [if_neg hrc, List.append_nil] at hcopies
  refine ⟨hr.log, hr.reads, ?_, ?_, ?_⟩
  · rw [hcopies]
    exact h.counted
  · rw [hcopies, hr.samples]
    exact h.samples
  · rw [hcopies]
    exact h.unshifted

/-- No shift is seen, where none is between the samples and the new copy. -/
theorem Settling.unshifted_reread (hrc : rc = ACCUDISC_OK) {shifted' : Bool} (hshift : shifted' = false →
      shifted = false ∧ ∀ i < count, adsc_audio_diff (record c.sector_len r₂.scratch 0)
        (record c.sector_len r.samples i) ≠ 0 →
        adsc_shift_find (record c.sector_len r₂.scratch 0) (record c.sector_len r.samples i) = none)
    (h' : shifted' = false) :
    (∀ y ∈ alt, adsc_audio_diff sec y ≠ 0 → adsc_shift_find sec y = none) ∧
      Unshifted (sec :: alt.toList) (rereads c.sector_len p seg') := by
  obtain ⟨h0, hnone⟩ := hshift h'
  refine ⟨(h.unshifted h0).1, ?_⟩
  rw [hr.copies, if_pos hrc, unshifted_append]
  refine ⟨(h.unshifted h0).2, fun z hz hne => ?_⟩
  obtain ⟨i, hi, rfl⟩ := h.mem.1 (by simpa using hz)
  exact hnone i hi hne

/-- The reread is one more sample. -/
theorem Settling.sampled (hrc : rc = ACCUDISC_OK) {shifted' : Bool} (hunsh : shifted' = false →
      (∀ y ∈ alt, adsc_audio_diff sec y ≠ 0 → adsc_shift_find sec y = none) ∧
        Unshifted (sec :: alt.toList) (rereads c.sector_len p seg')) :
    Settling c p lba pre sec alt { r₂.reread with
      samples := memcpy r₂.samples (count * c.sector_len) r₂.scratch 0 c.sector_len }
        (count + 1) shifted' seg' := by
  have hcopies := hr.copies
  rw [if_pos hrc] at hcopies
  refine ⟨hr.log, hr.reads, ?_, fun i hi => ?_, hunsh⟩
  · rw [hcopies, h.counted]
    simp [Nat.add_assoc]
  · have hmv := record_memcpy_one (L := c.sector_len) r₂.samples r₂.scratch count 0 i
    rw [Nat.zero_mul] at hmv
    simp only
    rw [hmv, hcopies, ← List.append_assoc, ← List.cons_append]
    rcases Nat.lt_succ_iff_lt_or_eq.1 hi with hi | rfl
    · rw [if_neg (by omega), List.getElem?_append_left (h.counted ▸ hi), hr.samples]
      exact h.samples i hi
    · rw [if_pos rfl, List.getElem?_append_right (Nat.le_of_eq h.counted.symm), ← h.counted]
      simp

end

theorem consensus_loop_spec (buf : Mem) (hlba : lba < 2 ^ 32)
    (hsec : Copy c.sector_len pre Stage.Reads lba sec)
    (halt : ∀ y ∈ alt, Copy c.sector_len pre Stage.Reads lba y) (as : List Nat) (count used : Nat)
    (shifted : Bool) (seg : List ReadEvent) (h : Settling c p lba pre sec alt r count shifted seg)
    (hroom : count + as.length ≤ ADSC_SAMPLES_MAX) :
    Settles c r buf s (fun log x => AcceptedBy c.sector_len log (.consensus p) lba x)
      (consensus_loop c p lba (s * c.sector_len) as r buf count shifted used).toSettled := by
  induction as generalizing r count used shifted seg with
  | nil => exact .none (.refl r)
  | cons a as ih =>
    unfold consensus_loop
    obtain ⟨seg', hr⟩ := h.reread a
    generalize read_scratch c (cache_defeat c (ladder_speed c r a) lba) (.consensus p) lba = y at hr ⊢
    obtain ⟨r₂, rc⟩ := y
    simp only at hr ⊢
    simp only [List.length_cons] at hroom
    split
    · rename_i hrc
      exact .start hr.silent (ih count used shifted _ (h.failed hr hrc) (by omega))
    rename_i hrc
    have hrc : rc = ACCUDISC_OK := not_not.1 hrc
    have hss := hr.silent.trans reread_silent
    obtain ⟨hmatch, hshift⟩ := consensus_scan_spec (c := c) r₂.scratch r₂.samples count shifted
    generalize consensus_scan c r₂.scratch r₂.samples count shifted = scan at hmatch hshift ⊢
    obtain ⟨matched, shifted'⟩ := scan
    simp only at hmatch hshift ⊢
    rw [hr.samples] at hmatch hshift
    have hunsh := h.unshifted_reread hr hrc hshift
    split
    · -- Two copies agree and no shift was seen.
      rename_i hacc
      have hsh : shifted' = false := by simpa using hacc.2
      obtain ⟨i, hi, hdiff⟩ := hmatch hacc.1
      have hmv := record_memcpy_one (L := c.sector_len) buf r₂.scratch s 0
      rw [Nat.zero_mul] at hmv
      refine ⟨hss.trans (emit_silent rfl), fun k hk => ?_, by simp, fun _ => ?_⟩
      · rw [hmv, if_neg hk]
      · simp only
        rw [hmv, if_pos rfl]
        refine ⟨by simp [Rd.emit], (hr.copy hrc hlba).mono ⟨_, rfl⟩, ?_, by simp⟩
        rintro _ ⟨⟩
        refine ⟨pre, seg', [.accept (.consensus p) lba (record c.sector_len r₂.scratch 0)], sec, alt,
          by simp [Rd.emit, Rd.reread, hr.log], ?_⟩
        exact ⟨hsec, halt, hr.reads,
          ⟨_, hr.copies.trans (by rw [if_pos hrc]), _, h.mem.2 ⟨i, hi, rfl⟩, hdiff⟩,
          (hunsh hsh).1, (hunsh hsh).2⟩
    split
    · exact .none hss
    · rw [if_pos (show count < ADSC_SAMPLES_MAX by omega)]
      have hkeep : Silent r₂.reread { r₂.reread with
          samples := memcpy r₂.samples (count * c.sector_len) r₂.scratch 0 c.sector_len } :=
        ⟨⟨⟨[], (List.append_nil _).symm, by simp⟩, rfl, rfl, rfl⟩, rfl⟩
      exact .start (hss.trans hkeep) (ih (count + 1) a shifted' _ (h.sampled hr hrc hunsh) (by omega))

end

/-- The evidence of a sector that consensus settled. -/
def SettledBy (L : Nat) (p : Pass) (lba : Nat) (log : List ReadEvent) (x : Mem) : Prop :=
  AcceptedBy L log (.consensus p) lba x ∨ AcceptedBy L log (.anchor p) lba x

/-- A settlement begins with the sector, and with the other copy if there is one. -/
theorem consensus_start_spec (c : Cfg) (r : Rd) (lba s : Nat) (buf : Mem)
    (p : Pass) {alt : Option Mem} {shifted : Bool}
    (hshifted : shifted = false → ∀ y ∈ alt,
      adsc_shift_find (record c.sector_len buf s) (record c.sector_len y 0) = none) :
    let st := consensus_start c p r lba buf (s * c.sector_len) alt
    Silent r st.1 ∧ st.2 + 4 ≤ ADSC_SAMPLES_MAX ∧
      Settling c p lba r.log (record c.sector_len buf s) (alt.map fun y => record c.sector_len y 0) st.1
        st.2 shifted [] := by
  have hsec0 : record c.sector_len (ptr buf (s * c.sector_len)) 0 = record c.sector_len buf s := by
    rw [record_ptr, Nat.add_zero]
  have hem : ∀ m, Silent r { r.emit (.dispute p lba (record c.sector_len buf s)
      (alt.map fun alt => record c.sector_len alt 0)) with samples := m } := fun m =>
    ⟨⟨⟨_, rfl, by simp [ReadEvent.own]⟩, rfl, rfl, rfl⟩, rfl⟩
  unfold consensus_start
  cases alt with
  | none =>
    simp only [hsec0]
    refine ⟨hem _, by decide, rfl, by simp, rfl, fun i hi => ?_, fun _ => ⟨by simp, trivial⟩⟩
    obtain rfl : i = 0 := by omega
    simp [rereads, Rd.emit, record_memcpy_zero]
  | some y =>
    simp only [hsec0]
    refine ⟨hem _, by decide, rfl, by simp, rfl, fun i hi => ?_, fun h => ⟨?_, trivial⟩⟩
    · have h1 := record_memcpy_one (L := c.sector_len)
        (memcpy r.samples 0 buf (s * c.sector_len) c.sector_len) y 1 0
      simp only [Nat.one_mul, Nat.zero_mul] at h1
      obtain rfl | rfl : i = 0 ∨ i = 1 := by omega
      · simp [rereads, Rd.emit, h1, record_memcpy_zero]
      · simp [rereads, Rd.emit, h1]
    · rintro _ h' -
      obtain rfl := Option.some.inj h'
      exact hshifted h y rfl

section
variable {p : Pass} {alt : Option Mem} {shifted : Bool} {refs : List Ref}
  (hlba : lba < 2 ^ 32) (hsec : Copy c.sector_len r.log Stage.Reads lba (record c.sector_len buf s))
  (halt : ∀ y ∈ alt, Copy c.sector_len r.log Stage.Reads lba (record c.sector_len y 0))
  (hshifted : shifted = false → ∀ y ∈ alt,
    adsc_shift_find (record c.sector_len buf s) (record c.sector_len y 0) = none)
  (hrefs : RefsOk c.sector_len r.log refs)
include hlba hsec halt hshifted hrefs

/-- Consensus, from the copies it begins with. -/
theorem consensus_settles :
    Settles c (consensus_start c p r lba buf (s * c.sector_len) alt).1 buf s
      (fun log x => SettledBy c.sector_len p lba log x)
      (consensus c p r lba buf (s * c.sector_len) alt shifted refs) := by
  obtain ⟨hsil, hroom, hset⟩ := consensus_start_spec c r lba s buf p hshifted
  unfold consensus
  generalize consensus_start c p r lba buf (s * c.sector_len) alt = st at hsil hroom hset ⊢
  obtain ⟨r₁, count⟩ := st
  have halt' : ∀ y ∈ alt.map fun y => record c.sector_len y 0,
    Copy c.sector_len r.log Stage.Reads lba y := by
    simpa using halt
  have hloop := consensus_loop_spec buf (s := s) hlba hsec halt'
    (List.range' 1 (ADSC_SAMPLES_MAX - 2)) count 0 shifted [] hset hroom
  simp only
  generalize consensus_loop c p lba (s * c.sector_len) (List.range' 1 (ADSC_SAMPLES_MAX - 2)) r₁ buf
    count shifted 0 = k at hloop ⊢
  split
  · exact ⟨hloop.silent, hloop.other, hloop.kept, fun h => .inl (hloop.accepted h)⟩
  rename_i hok
  split
  · exact ⟨hloop.silent, hloop.other, hloop.kept, fun h => absurd h hok⟩
  · have hi := ladder_restore_idle (c := c) (r := k.r)
    have hs := hloop.silent.trans hi.toSilent
    have ha := anchor_position_spec (s := s) k.buf p hlba k.used (hrefs.mono (hsil.trans hs).grows)
    exact ⟨hs.trans ha.silent, fun j hj => (ha.other j hj).trans (hloop.other j hj),
      fun h => (ha.kept h).trans (hloop.kept (by simpa using hok)), fun h => .inr (ha.accepted h)⟩

/-- Consensus settles a sector by agreement, or by anchoring, or leaves it. -/
theorem consensus_spec :
    Settles c r buf s (fun log x => SettledBy c.sector_len p lba log x)
      (consensus c p r lba buf (s * c.sector_len) alt shifted refs) :=
  .start (consensus_start_spec c r lba s buf p hshifted).1
    (consensus_settles hlba hsec halt hshifted hrefs)

/-- A settlement leaves its dispute in the log. -/
theorem consensus_disputes :
    .dispute p lba (record c.sector_len buf s) (alt.map fun y => record c.sector_len y 0) ∈
      (consensus c p r lba buf (s * c.sector_len) alt shifted refs).r.log := by
  refine (consensus_settles hlba hsec halt hshifted hrefs).silent.grows.subset ?_
  have hsec₀ : record c.sector_len (ptr buf (s * c.sector_len)) 0 = record c.sector_len buf s := by
    rw [record_ptr, Nat.add_zero]
  unfold consensus_start
  cases alt with
  | none =>
    simp only [hsec₀]
    exact List.mem_append_right _ (List.mem_singleton_self _)
  | some y =>
    simp only [hsec₀]
    exact List.mem_append_right _ (List.mem_singleton_self _)

end

end Accudisc
