import Accudisc.Read.Proof.Chunk

/-!
# The stages of a chunk

What each stage makes of a sector: the Q-position check (`qpos_check_spec`), the seam
(`seam_check_spec`), the C2 scan and rescue (`c2_rescue_chunk_spec`), and a witnessed pass
(`witness_pass_spec`).
-/

namespace Accudisc

variable {c : Cfg} {w : Work} {s : Nat}

/-! ## The Q-position check -/

/-- Within the margin of a sector that names another LBA, a sector is settled. -/
def QposTo (c : Cfg) (sus : Nat → Bool) (lba : Nat) (log : List ReadEvent) (s : Nat) (x y : Sector) :
    Prop :=
  if sus s = true ∧ x.hard = false ∧ x.susp = false then
    SettledTo (fun z => AcceptedBy c.sector_len log .qpos (u32 (lba + s)) z ∧
      misplaced (record_q c z 0) (u32 (lba + s)) = false) x y
  else y = x

theorem QposTo.moves {sus : Nat → Bool} {lba : Nat} {log : List ReadEvent} {x y : Sector}
    (h : QposTo c sus lba log s x y) : Moves c log (u32 (lba + s)) x y := by
  unfold QposTo at h
  split at h
  · rename_i hc
    cases h with
    | suspect => exact ⟨rfl, fun _ => rfl, .inl rfl⟩
    | replaced hev => exact ⟨rfl, id, .inr ⟨hc.2.1, .qpos, by simp, fun _ => hev.2, hev.1⟩⟩
  · exact h ▸ .refl

theorem qpos_sector_spec (hsub : c.sub_len = ACCUDISC_BYTES_SUB_RAW) (sus : Nat → Bool) :
    StepAt c s (QposTo c sus w.k.lba · s) w (qpos_sector c sus w s) := by
  unfold qpos_sector
  split
  · rename_i h
    refine .skip ?_
    unfold QposTo
    rw [if_neg]
    rintro ⟨h₁, h₂, h₃⟩
    simp only [ChunkState.sector] at h₂ h₃
    simp [h₁, h₂, h₃] at h
  · rename_i h
    simp only [Bool.not_eq_true', not_or, Bool.not_eq_false, Bool.not_eq_true] at h
    refine (settle_spec (qpos_rescue_spec hsub (u32_lt _))).weaken fun y hy => ?_
    unfold QposTo
    rw [if_pos ⟨h.1, h.2.1, h.2.2⟩]
    exact hy

/-- A sector is within its own margin. -/
theorem qsus_of_qbad {k : ChunkState} (hs : s < k.n) (h : qbad c k s = true) : qsus c k s = true := by
  unfold qsus ADSC_QPOS_MARGIN
  rw [List.any_eq_true]
  refine ⟨s, List.mem_range.2 hs, ?_⟩
  rw [h, Bool.true_and, decide_eq_true_eq]
  constructor
  · split <;> omega
  · split <;> omega

/-- **The Q-position check**: no sector is moved but as a stage may, and the ones that name another LBA
are settled. -/
theorem qpos_check_spec (hclean : ∀ s < w.k.n, w.k.susp s = false)
    (hsound : w.k.All c.sector_len (Sound c w.r.log)) :
    Advance c w (qpos_check c w) ∧
    (∀ s, (qpos_check c w).k.bits s = w.k.bits s) ∧
    (qpos_check c w).k.All c.sector_len (Held c (qpos_check c w).r.log) := by
  unfold qpos_check
  split
  · rename_i hsub
    simp only
    generalize hr : { w.r with st := { w.r.st with
      subq_misposition := w.r.st.subq_misposition + (List.range w.k.n).countP (qbad c w.k) } } = r
    have hs₁ : Silent w.r r := hr ▸ ⟨⟨⟨[], (List.append_nil _).symm, nofun⟩, rfl, rfl, rfl⟩, rfl⟩
    have hsw : Swept c w.k.n (QposTo c (qsus c w.k) w.k.lba) ⟨r, w.k⟩
        ((List.range w.k.n).foldl (qpos_sector c (qsus c w.k)) ⟨r, w.k⟩) := by
      refine sweep ?_ fun w' s _ _ hk _ => ?_
      · intro log log' s x y h hl
        unfold QposTo at h ⊢
        split
        · rename_i hc
          rw [if_pos hc] at h
          exact h.mono fun z hz => ⟨hz.1.mono hl, hz.2⟩
        · rename_i hc
          rwa [if_neg hc] at h
      · have h := qpos_sector_spec (c := c) (w := w') (s := s) hsub (qsus c w.k)
        rwa [hk.lba] at h
    have hbits : ∀ s, ((List.range w.k.n).foldl (qpos_sector c (qsus c w.k)) ⟨r, w.k⟩).k.bits s =
        w.k.bits s := fun s => by
      rcases Nat.lt_or_ge s w.k.n with hs | hs
      · have h := hsw.each s hs
        unfold QposTo at h
        split at h
        · cases hx : ((List.range w.k.n).foldl (qpos_sector c (qsus c w.k)) ⟨r, w.k⟩).k.sector
            c.sector_len s with
          | mk => rw [hx] at h; cases h <;> exact (congrArg Sector.bits hx)
        · exact congrArg Sector.bits h
      · exact congrArg Sector.bits (hsw.beyond s hs)
    generalize (List.range w.k.n).foldl (qpos_sector c (qsus c w.k)) ⟨r, w.k⟩ = w' at hsw hbits
    refine ⟨⟨hs₁.trans hsw.silent, hsw.same, hsw.beyond⟩, hbits, fun s hs => ?_⟩
    rw [hsw.same.n] at hs
    rw [hsw.same.lba]
    have hx : Sound c w.r.log (u32 (w.k.lba + s)) (w.k.sector c.sector_len s) := hsound s hs
    have hl : w.r.log <+: w'.r.log := (hs₁.trans hsw.silent).grows
    have hto := hsw.each s hs
    have hfree := hclean s hs
    simp only at hto
    -- The sound part is that of any move; the placed part is what the check is for.
    have hsnd : Sound c w'.r.log (u32 (w.k.lba + s)) (w'.k.sector c.sector_len s) := by
      have hm := hto.moves
      rcases hm.data with hd | ⟨hh, stage, hf, -, ha⟩
      · exact ⟨fun h => hd ▸ (hx.mono hl).copy (hm.hard ▸ h), fun h => hd ▸ hx.filled (hm.hard ▸ h)⟩
      · exact ⟨fun _ => ha.reads hf, fun h => by rw [hm.hard, hh] at h; cases h⟩
    refine ⟨hsnd, fun _ _ hh hmis => ?_⟩
    unfold QposTo at hto
    split at hto
    · generalize w'.k.sector c.sector_len s = y at hto hmis ⊢
      cases hto with
      | suspect => rfl
      | replaced hev => rw [hev.2] at hmis; cases hmis
    · rename_i hc
      rw [hto] at hmis hh
      have hbad : qbad c w.k s = true := by
        have hh' : w.k.hard s = false := hh
        unfold qbad
        rw [hh', record_q_record hsub]
        exact hmis
      exact absurd ⟨qsus_of_qbad hs hbad, hh, hfree⟩ hc
  · rename_i hsub
    exact ⟨.refl w, fun _ => rfl, fun s hs => ⟨hsound s hs, fun h => absurd h hsub⟩⟩

/-! ## The seam -/

/-- The extension of the chunk before is the copies of chunk transfers. -/
def Seam.Ok (c : Cfg) (log : List ReadEvent) (lba : Nat) (seam : Seam) : Prop :=
  ∀ s < seam.n, seam.hard s = false → ∃ m, seam.data = some m ∧
    Copy c.sector_len log Stage.Chunk (u32 (lba + s)) (record c.sector_len m s)

/-- The chunk as first delivered is the copies of chunk transfers. -/
def PrimOk (c : Cfg) (log : List ReadEvent) (k : ChunkState) : Prop :=
  RefsOk c.sector_len log [⟨k.lba, k.n, k.prim, k.hard⟩]

theorem PrimOk.mono {log log' : List ReadEvent} {k k' : ChunkState} (h : PrimOk c log k)
    (hl : log <+: log') (hk : SameChunk k k') : PrimOk c log' k' := by
  unfold PrimOk at h ⊢
  rw [hk.lba, hk.n, hk.prim, hk.hard]
  exact RefsOk.mono h hl

theorem Seam.Ok.mono {log log' : List ReadEvent} {lba : Nat} {seam : Seam} (h : seam.Ok c log lba)
    (hl : log <+: log') : seam.Ok c log' lba := fun s hs hh => by
  obtain ⟨m, hm, hc⟩ := h s hs hh
  exact ⟨m, hm, hc.mono hl⟩

/-- Two references. -/
theorem refs_ok {log : List ReadEvent} {a b : Ref} (ha : RefsOk c.sector_len log [a])
    (hb : RefsOk c.sector_len log [b]) : RefsOk c.sector_len log [a, b] := by
  intro ref hr
  rcases List.mem_cons.1 hr with rfl | hr
  · exact ha ref (List.mem_singleton_self ref)
  · exact hb ref hr

theorem Seam.Ok.refs {log : List ReadEvent} {lba : Nat} {seam : Seam} (h : seam.Ok c log lba) :
    RefsOk c.sector_len log [⟨lba, seam.n, seam.data, seam.hard⟩] := by
  intro ref hr data hd j hj hh
  obtain rfl := List.mem_singleton.1 hr
  obtain ⟨m, hm, hc⟩ := h j hj hh
  obtain rfl : m = data := Option.some.inj (hm.symm.trans hd)
  exact hc

/-- A chunk's own copies are copies of the disc's records. -/
theorem Stage.Chunk.reads {st : Stage} (h : st.Chunk) : st.Reads := by
  rcases h with rfl | ⟨p, rfl⟩ <;> simp [Stage.Reads]

/-- The audio of two copies of one sector. -/
theorem copies_diff {m m' : Mem} : adsc_audio_diff (ptr m (s * c.sector_len)) (ptr m' (s * c.sector_len)) =
    adsc_audio_diff (record c.sector_len m s) (record c.sector_len m' s) :=
  audio_diff_record (audio_le c) s s

theorem copies_shift {m m' : Mem} : adsc_shift_find (ptr m (s * c.sector_len)) (ptr m' (s * c.sector_len)) =
    adsc_shift_find (record c.sector_len m s) (record c.sector_len m' s) :=
  shift_find_record (audio_le c) s s

/-- A seam sector stays, or is settled. -/
def SeamTo (c : Cfg) (lba n : Nat) (log : List ReadEvent) (s : Nat) (x y : Sector) : Prop :=
  y = x ∨ s < n ∧ x.hard = false ∧ ∃ d,
    SettledTo (SettledBy c.sector_len .seam (u32 (lba + s)) log) { x with diffb := d } y

theorem SeamTo.moves {lba n : Nat} {log : List ReadEvent} {x y : Sector} (h : SeamTo c lba n log s x y) :
    Moves c log (u32 (lba + s)) x y := by
  rcases h with rfl | ⟨-, hx, d, h⟩
  · exact .refl
  · exact h.moves hx

theorem seam_sector_spec {seam : Seam} (bad : Bool) (hs : s < seam.n)
    (hseam : seam.Ok c w.r.log w.k.lba) (hprim : PrimOk c w.r.log w.k)
    (hsnd : s < w.k.n → Sound c w.r.log (u32 (w.k.lba + s)) (w.k.sector c.sector_len s)) :
    StepAt c s (SeamTo c w.k.lba w.k.n · s) w (seam_sector c seam (w, bad) s).1 := by
  unfold seam_sector
  simp only
  split
  · exact .skip (.inl rfl)
  rename_i h
  simp only [not_or, Nat.not_le, Bool.not_eq_true] at h
  obtain ⟨hn, hsh, hh, -⟩ := h
  split
  · exact .skip (.inl rfl)
  obtain ⟨m, hm, hcopy⟩ := hseam s hs hsh
  rw [hm, Option.getD_some]
  generalize hr : (if (adsc_shift_find (ptr w.k.buf (s * c.sector_len)) (ptr m (s * c.sector_len))).isSome =
    true then w.r.slip else w.r) = r
  have hsil : Silent w.r r := by
    rw [← hr]
    split
    · exact slip_silent
    · exact .refl _
  refine (StepAt.diffb hsil (settle_spec (consensus_spec (u32_lt _) ?_ ?_ ?_ ?_))).weaken
    fun y hy => .inr ⟨hn, hh, _, hy⟩
  · exact ((hsnd hn).copy hh).mono hsil.grows
  · intro y hy
    obtain rfl := Option.some.inj hy
    rw [record_ptr, Nat.add_zero]
    exact (hcopy.mono hsil.grows).weaken fun _ => Stage.Chunk.reads
  · intro hf y hy
    obtain rfl := Option.some.inj hy
    rw [record_ptr, Nat.add_zero, ← copies_shift]
    simpa using hf
  · have hrefs := hseam.refs
    rw [hm] at hrefs
    exact (refs_ok hprim hrefs).mono hsil.grows

/-- The first `i` sectors of the seam. -/
theorem seam_check_swept (seam : Seam) (hseam : seam.Ok c w.r.log w.k.lba) (hprim : PrimOk c w.r.log w.k)
    (hheld : w.k.All c.sector_len (Held c w.r.log)) {i : Nat} (hi : i ≤ seam.n) :
    Swept c i (SeamTo c w.k.lba w.k.n) w ((List.range i).foldl (seam_sector c seam) (w, false)).1 := by
  induction i with
  | zero => exact ⟨.refl w.r, .refl w.k, fun _ _ => rfl, nofun⟩
  | succ i ih =>
    have h := ih (by omega)
    rw [List.range_succ, List.foldl_append, List.foldl_cons, List.foldl_nil]
    generalize (List.range i).foldl (seam_sector c seam) (w, false) = st at h ⊢
    obtain ⟨w', bad⟩ := st
    refine h.step ?_ ?_
    · intro log log' s x y hxy hl
      exact hxy.imp_right fun ⟨hn, hx, d, h⟩ => ⟨hn, hx, d, h.mono fun z hz => hz.mono hl⟩
    · have hst := seam_sector_spec (c := c) (w := w') (s := i) bad (by omega)
        (h.same.lba ▸ hseam.mono h.silent.grows) (hprim.mono h.silent.grows h.same) fun hs => ?_
      · rwa [h.same.lba, h.same.n] at hst
      · rw [h.beyond i (Nat.le_refl i), h.same.lba]
        exact (hheld i (h.same.n ▸ hs)).sound.mono h.silent.grows

/-- Sector `s` of the seam is compared, and differs. -/
def DiffersAt (c : Cfg) (seam : Seam) (w : Work) (s : Nat) : Prop :=
  s < w.k.n ∧ seam.hard s = false ∧ w.k.hard s = false ∧ w.k.susp s = false ∧
    adsc_audio_diff (ptr w.k.buf (s * c.sector_len))
      (ptr (seam.data.getD fun _ => 0) (s * c.sector_len)) ≠ 0

theorem seam_sector_bad (seam : Seam) (bad : Bool) :
    (seam_sector c seam (w, bad) s).2 = true ↔ bad = true ∨ DiffersAt c seam w s := by
  unfold seam_sector DiffersAt
  simp only
  split
  · next h =>
    refine ⟨.inl, fun h' => h'.resolve_right ?_⟩
    rintro ⟨hn, hsh, hh, hs, -⟩
    exact absurd hn (Nat.not_lt.2 (by simpa [hsh, hh, hs] using h))
  next h =>
  simp only [not_or, Nat.not_le, Bool.not_eq_true] at h
  split
  · next hd => exact ⟨.inl, fun h' => h'.resolve_right fun hx => hx.2.2.2.2 hd⟩
  · next hd => exact ⟨fun _ => .inr ⟨h.1, h.2.1, h.2.2.1, h.2.2.2, hd⟩, fun _ => rfl⟩

/-- **The seam is bad where a sector compared differed**, as the stage found it. -/
theorem seam_check_bad (seam : Seam) (hseam : seam.Ok c w.r.log w.k.lba) (hprim : PrimOk c w.r.log w.k)
    (hheld : w.k.All c.sector_len (Held c w.r.log)) :
    (seam_check c seam w).2 = true ↔ ∃ s < seam.n, DiffersAt c seam w s := by
  have hbad : ∀ i ≤ seam.n, ((List.range i).foldl (seam_sector c seam) (w, false)).2 = true ↔
      ∃ s < i, DiffersAt c seam w s := by
    intro i
    induction i with
    | zero => exact fun _ => ⟨nofun, nofun⟩
    | succ i ih =>
      intro hi
      have hsw := seam_check_swept seam hseam hprim hheld (Nat.le_of_succ_le hi)
      have ih := ih (Nat.le_of_succ_le hi)
      rw [List.range_succ, List.foldl_append, List.foldl_cons, List.foldl_nil]
      generalize (List.range i).foldl (seam_sector c seam) (w, false) = st at hsw ih ⊢
      obtain ⟨w', bad⟩ := st
      have hsame := hsw.beyond i (Nat.le_refl i)
      have hat : DiffersAt c seam w' i ↔ DiffersAt c seam w i := by
        unfold DiffersAt
        rw [hsw.same.n, hsw.same.hard, copies_diff, copies_diff,
          show w'.k.susp i = w.k.susp i from congrArg Sector.susp hsame,
          show record c.sector_len w'.k.buf i = record c.sector_len w.k.buf i
            from congrArg Sector.data hsame]
      rw [seam_sector_bad, hat, ih]
      constructor
      · rintro (⟨s, hs, h⟩ | h)
        · exact ⟨s, Nat.lt_succ_of_lt hs, h⟩
        · exact ⟨i, Nat.lt_succ_self i, h⟩
      · rintro ⟨s, hs, h⟩
        rcases Nat.lt_succ_iff_lt_or_eq.1 hs with hs | rfl
        · exact .inl ⟨s, hs, h⟩
        · exact .inr h
  exact hbad seam.n (Nat.le_refl _)

/-- **The seam** moves sectors as a stage may. -/
theorem seam_check_spec (seam : Seam) (hseam : seam.Ok c w.r.log w.k.lba) (hprim : PrimOk c w.r.log w.k)
    (hheld : w.k.All c.sector_len (Held c w.r.log)) :
    Advance c w (seam_check c seam w).1 ∧
    (∀ s, (seam_check c seam w).1.k.bits s = w.k.bits s) ∧
    (seam_check c seam w).1.k.All c.sector_len (Held c (seam_check c seam w).1.r.log) := by
  have h := seam_check_swept seam hseam hprim hheld (Nat.le_refl seam.n)
  have hto : ∀ s, SeamTo c w.k.lba w.k.n (seam_check c seam w).1.r.log s (w.k.sector c.sector_len s)
      ((seam_check c seam w).1.k.sector c.sector_len s) := fun s => by
    rcases Nat.lt_or_ge s seam.n with hs | hs
    · exact h.each s hs
    · exact .inl (h.beyond s hs)
  refine ⟨⟨h.silent, h.same, fun s hs => ?_⟩, fun s => ?_, h.held (fun s _ x y _ hxy => hxy.moves) hheld⟩
  · rcases hto s with he | ⟨hn, -⟩
    · exact he
    · omega
  · rcases hto s with he | ⟨-, -, d, he⟩
    · exact congrArg Sector.bits he
    · cases hx : (seam_check c seam w).1.k.sector c.sector_len s with
      | mk => rw [hx] at he; cases he <;> exact congrArg Sector.bits hx

/-! ## C2 -/

theorem record_bits_none (h0 : c.c2_len = 0) (m : Mem) : record_bits c m 0 = 0 := by
  unfold record_bits popcount_buf
  rw [h0]
  rfl

/-- The scan counts the bits of every sector. -/
theorem c2_scan_spec (hbits : ∀ s < w.k.n, w.k.bits s = 0) (hheld : w.k.All c.sector_len (Held c w.r.log)) :
    Advance c w (c2_scan c w) ∧ (c2_scan c w).k.All c.sector_len (Held c (c2_scan c w).r.log) ∧
    (c2_scan c w).k.All c.sector_len fun _ => Counted c := by
  unfold c2_scan
  split
  · refine ⟨⟨.refl w.r, ⟨rfl, rfl, rfl, rfl, rfl⟩, fun s hs => ?_⟩, fun s hs => ?_, fun s hs hh => ?_⟩
    · simp [ChunkState.sector, Nat.not_lt.2 hs]
    · exact ⟨⟨(hheld s hs).sound.copy, (hheld s hs).sound.filled⟩, (hheld s hs).placed⟩
    · have hh' : w.k.hard s = false := hh
      have hif : (s < w.k.n ∧ ¬w.k.hard s = true) := ⟨hs, by simp [hh']⟩
      simp only [ChunkState.sector, if_pos hif]
      exact record_bits_record c w.k.buf s
  · rename_i h0
    refine ⟨.refl w, hheld, fun s hs _ => ?_⟩
    exact (hbits s hs).trans (record_bits_none (not_not.1 h0) _).symm

/-- The C2 rescue of a sector keeps its verdict, and its bits are those of its record. -/
def C2To (c : Cfg) (lba : Nat) (log : List ReadEvent) (s : Nat) (x y : Sector) : Prop :=
  y.hard = x.hard ∧ y.susp = x.susp ∧
    (y.data = x.data ∧ y.bits = x.bits ∨ x.hard = false ∧
      AcceptedBy c.sector_len log .c2 (u32 (lba + s)) y.data ∧ Cleaner c log (u32 (lba + s)) y.data ∧
      y.bits = record_bits c y.data 0)

theorem C2To.moves {lba : Nat} {log : List ReadEvent} {x y : Sector} (h : C2To c lba log s x y) :
    Moves c log (u32 (lba + s)) x y :=
  ⟨h.1, fun hs => h.2.1.trans hs,
    h.2.2.imp And.left fun ⟨hx, ha, hcl, _⟩ =>
      ⟨hx, .c2, by simp, fun hfine => hfine.cleaner _ _ hcl.wire, ha⟩⟩

theorem C2To.counted {lba : Nat} {log : List ReadEvent} {x y : Sector} (h : C2To c lba log s x y)
    (hx : Counted c x) : Counted c y := by
  obtain ⟨hh, -, ⟨hd, hb⟩ | ⟨-, -, -, hb⟩⟩ := h
  · intro hy
    rw [hd, hb]
    exact hx (hh ▸ hy)
  · exact fun _ => hb

theorem c2_sector_spec (seam : Seam) (hseam : seam.Ok c w.r.log w.k.lba) (hprim : PrimOk c w.r.log w.k)
    (hsnd : Sound c w.r.log (u32 (w.k.lba + s)) (w.k.sector c.sector_len s))
    (hcount : Counted c (w.k.sector c.sector_len s)) :
    StepAt c s (C2To c w.k.lba · s) w (c2_sector c seam w s) := by
  unfold c2_sector
  simp only
  split
  · exact .skip ⟨rfl, rfl, .inl ⟨rfl, rfl⟩⟩
  rename_i h
  simp only [not_or, Bool.not_eq_true] at h
  obtain ⟨hsil, hother, hres⟩ := c2_rescue_spec (c := c) (r := w.r) (s := s)
    (u32_lt (w.k.lba + s)) (w.k.bits s) (refs_ok hprim hseam.refs)
  generalize c2_rescue c w.r (u32 (w.k.lba + s)) w.k.buf (s * c.sector_len) (w.k.bits s)
    [⟨w.k.lba, w.k.n, w.k.prim, w.k.hard⟩, ⟨w.k.lba, seam.n, seam.data, seam.hard⟩] = x at hsil hother hres
  refine ⟨hsil, ⟨rfl, rfl, rfl, rfl, rfl⟩, fun t ht => ?_, rfl, rfl, ?_⟩
  · unfold ChunkState.sector
    simp only
    rw [hother t ht]
    split <;> simp [Function.update_of_ne ht]
  · simp only [ChunkState.sector, Function.update_self]
    rcases hres with hsame | ⟨hacc, hlined, hbest, hfewer⟩
    · exact .inl hsame
    refine .inr ⟨h.1, hacc, ⟨hlined, ?_⟩, hbest⟩
    refine ⟨record c.sector_len w.k.buf s, (hsnd.copy h.1).mono hsil.grows, ?_⟩
    have hb : w.k.bits s = record_bits c (record c.sector_len w.k.buf s) 0 := hcount h.1
    rwa [← hbest, ← hb]

/-- **The C2 rescue** moves sectors as a stage may, and keeps their counts. -/
theorem c2_rescue_chunk_spec (seam : Seam) (hseam : seam.Ok c w.r.log w.k.lba)
    (hprim : PrimOk c w.r.log w.k)
    (hheld : w.k.All c.sector_len (Held c w.r.log))
    (hcount : w.k.All c.sector_len fun _ => Counted c) :
    Advance c w (c2_rescue_chunk c seam w) ∧
    (c2_rescue_chunk c seam w).k.All c.sector_len (Held c (c2_rescue_chunk c seam w).r.log) ∧
    (c2_rescue_chunk c seam w).k.All c.sector_len fun _ => Counted c := by
  unfold c2_rescue_chunk
  split
  · have hsw : Swept c w.k.n (C2To c w.k.lba) w ((List.range w.k.n).foldl (c2_sector c seam) w) := by
      refine sweep ?_ fun w' s hs hsil hk hsame => ?_
      · exact fun h hl => ⟨h.1, h.2.1,
          h.2.2.imp_right fun ⟨hx, ha, hcl, hb⟩ => ⟨hx, ha.mono hl, hcl.mono hl, hb⟩⟩
      · have h := c2_sector_spec (c := c) (w := w') (s := s) seam (hk.lba ▸ hseam.mono hsil.grows)
          (hprim.mono hsil.grows hk) (by rw [hsame, hk.lba]; exact (hheld s hs).sound.mono hsil.grows)
          (by rw [hsame]; exact hcount s hs)
        rwa [hk.lba] at h
    refine ⟨hsw.advance, hsw.held (fun s _ x y _ h => h.moves) hheld, fun s hs => ?_⟩
    exact (hsw.each s (hsw.same.n ▸ hs)).counted (hcount s (hsw.same.n ▸ hs))
  · exact ⟨.refl w, hheld, hcount⟩

/-! ## A witnessed pass -/

/-- What a witnessed pass makes of a sector: it passes it over, confirms it, replaces it, or finds it
suspect. -/
inductive WitnessTo (c : Cfg) (p : Pass) (lba : Nat) (log : List ReadEvent) (x : Sector) :
    Sector → Prop where
  | skip : x.hard = true ∨ x.susp = true → WitnessTo c p lba log x x
  | confirmed : x.hard = false → x.susp = false → Confirmed c.sector_len log p lba x.data →
      WitnessTo c p lba log x x
  | replaced {data : Mem} {att d : Nat} : x.hard = false → x.susp = false →
      SettledBy c.sector_len p lba log data →
      WitnessTo c p lba log x { x with
        data, recov := true, att, diffb := d
        bits := if c.c2_len ≠ 0 then record_bits c data 0 else x.bits }
  | suspect {d : Nat} : x.hard = false → x.susp = false →
      WitnessTo c p lba log x { x with susp := true, diffb := d }

theorem WitnessTo.mono {p : Pass} {lba : Nat} {log log' : List ReadEvent} {x y : Sector}
    (h : WitnessTo c p lba log x y) (hl : log <+: log') : WitnessTo c p lba log' x y := by
  cases h with
  | skip h => exact .skip h
  | confirmed hh hs h => exact .confirmed hh hs (h.mono hl)
  | replaced hh hs h => exact .replaced hh hs (h.mono hl)
  | suspect hh hs => exact .suspect hh hs

theorem WitnessTo.moves {p : Pass} {lba : Nat} {log : List ReadEvent} {x y : Sector}
    (h : WitnessTo c p lba log x y) : Moves c log lba x y := by
  cases h with
  | skip _ => exact .refl
  | confirmed _ _ _ => exact .refl
  | replaced hh hs h =>
    obtain ⟨stage, hf, ha⟩ := h.stage
    exact ⟨rfl, id, .inr ⟨hh, stage, hf, h.placed, ha⟩⟩
  | suspect _ _ => exact ⟨rfl, fun _ => rfl, .inl rfl⟩

theorem WitnessTo.counted {p : Pass} {lba : Nat} {log : List ReadEvent} {x y : Sector}
    (h : WitnessTo c p lba log x y) (hx : Counted c x) : Counted c y := by
  cases h with
  | skip _ => exact hx
  | confirmed _ _ _ => exact hx
  | @replaced data att d hh _ _ =>
    intro _
    by_cases h0 : c.c2_len ≠ 0
    · exact if_pos h0
    · have hb := hx hh
      simp only [if_neg h0]
      rw [hb, record_bits_none (not_not.1 h0), record_bits_none (not_not.1 h0)]
  | suspect _ _ => exact hx

/-- Verify pass `p` verifies up to itself what the passes before verified up to `p - 1`. -/
theorem WitnessTo.verified {p lba : Nat} {log : List ReadEvent} {x y : Sector}
    (h : WitnessTo c (.verify (p + 1)) lba log x y) (hx : Verified c log p lba x) :
    Verified c log (p + 1) lba y := by
  cases h with
  | skip h =>
    refine ⟨fun hh hs => ?_, fun hh hs => ?_⟩ <;> simp [hh, hs] at h
  | confirmed hh hs hc =>
    refine ⟨fun _ _ hr q h2 hq => ?_, fun _ _ _ _ => .inl hc⟩
    rcases Nat.lt_succ_iff_lt_or_eq.1 (Nat.lt_succ_of_le hq) with hq | rfl
    · exact hx.clean hh hs hr q h2 (Nat.le_of_lt_succ hq)
    · exact hc
  | replaced hh hs hb => exact ⟨fun _ _ hr => (nomatch hr), fun _ _ _ _ => .inr hb⟩
  | suspect hh hs => exact ⟨fun _ hs => (nomatch hs), fun _ hs => (nomatch hs)⟩

/-- Without verify passes there is nothing to show. -/
theorem Verified.none {p lba : Nat} {log : List ReadEvent} {x : Sector} (hp : p ≤ 1) :
    Verified c log p lba x :=
  ⟨fun _ _ _ q h2 hq => by omega, fun _ _ _ h2 => by omega⟩

/-- A second transfer of a chunk: its copies came after `pre`. -/
structure Second (c : Cfg) (p : Pass) (k : ChunkState) (sp : Span) (pre log : List ReadEvent) : Prop where
  log : ∃ post, log = pre ++ post ∧ ∀ s < k.n, sp.hard s = false →
    Copy c.sector_len post (· = .witness p) (u32 (k.lba + s)) (record c.sector_len sp.buf s)

theorem Second.copy {p : Pass} {k : ChunkState} {sp : Span} {pre log : List ReadEvent}
    (h : Second c p k sp pre log) (hs : s < k.n) (hh : sp.hard s = false) :
    Copy c.sector_len log (· = .witness p) (u32 (k.lba + s)) (record c.sector_len sp.buf s) := by
  obtain ⟨post, rfl, hc⟩ := h.log
  obtain ⟨t, ht, hg⟩ := hc s hs hh
  exact ⟨t, List.mem_append_right _ ht, hg⟩

theorem Second.mono {p : Pass} {k k' : ChunkState} {sp : Span} {pre log log' : List ReadEvent}
    (h : Second c p k sp pre log) (hl : log <+: log') (hk : SameChunk k k') :
    Second c p k' sp pre log' := by
  obtain ⟨post, rfl, hc⟩ := h.log
  obtain ⟨new, rfl⟩ := hl
  refine ⟨post ++ new, by rw [List.append_assoc], ?_⟩
  rw [hk.n, hk.lba]
  exact fun s hs hh => (hc s hs hh).mono ⟨new, rfl⟩

theorem Second.refs {p : Pass} {k : ChunkState} {sp : Span} {pre log : List ReadEvent}
    (h : Second c p k sp pre log) : RefsOk c.sector_len log [⟨k.lba, k.n, some sp.buf, sp.hard⟩] := by
  intro ref hr data hd j hj hh
  obtain rfl := List.mem_singleton.1 hr
  obtain rfl := Option.some.inj hd
  exact (h.copy hj hh).weaken fun _ he => .inr ⟨p, he⟩

theorem ChunkState.sector_bits {L b : Nat} {k : ChunkState} :
    ({ k with bits := Function.update k.bits s b } : ChunkState).sector L s =
      { k.sector L s with bits := b } := by
  simp [ChunkState.sector]

theorem ChunkState.sector_bits_of_ne {L b t : Nat} {k : ChunkState} (h : t ≠ s) :
    ({ k with bits := Function.update k.bits s b } : ChunkState).sector L t = k.sector L t := by
  simp [ChunkState.sector, Function.update_of_ne h]

/-- Sector `s` before a witnessed pass takes it up: what is known of the chunk, and the second transfer `sp`
of it, whose copies came after `pre`. -/
structure Facing (c : Cfg) (p : Pass) (sp : Span) (pre : List ReadEvent) (w : Work) (s : Nat) : Prop where
  lt : s < w.k.n
  prim : PrimOk c w.r.log w.k
  second : Second c p w.k sp pre w.r.log
  missed : 0 < c.retries → sp.hard s = true → Missed w.r.log (.witness p) (u32 (w.k.lba + s))
  copy : w.k.hard s = false →
    Copy c.sector_len pre Stage.Reads (u32 (w.k.lba + s)) (record c.sector_len w.k.buf s)

/-- The settlement that a witnessed pass asks for, where the second transfer does not confirm the sector:
the other copy, whether it is a shift of the first, and the engine. -/
theorem Facing.settlement {p : Pass} {sp : Span} {pre : List ReadEvent} (h : Facing c p sp pre w s)
    (hh : w.k.hard s = false) :
    let alt := if sp.hard s = true then none else some (ptr sp.buf (s * c.sector_len))
    let shifted := !sp.hard s && (adsc_shift_find (ptr w.k.buf (s * c.sector_len))
      (ptr sp.buf (s * c.sector_len))).isSome
    let r := if shifted = true then w.r.slip else w.r
    Silent w.r r ∧ Copy c.sector_len r.log Stage.Reads (u32 (w.k.lba + s)) (record c.sector_len w.k.buf s) ∧
      (∀ y ∈ alt, Copy c.sector_len r.log Stage.Reads (u32 (w.k.lba + s)) (record c.sector_len y 0)) ∧
      (shifted = false → ∀ y ∈ alt,
        adsc_shift_find (record c.sector_len w.k.buf s) (record c.sector_len y 0) = none) ∧
      RefsOk c.sector_len r.log
        [⟨w.k.lba, w.k.n, w.k.prim, w.k.hard⟩, ⟨w.k.lba, w.k.n, some sp.buf, sp.hard⟩] := by
  intro alt shifted r
  have hsil : Silent w.r r := by
    change Silent w.r (if shifted = true then w.r.slip else w.r)
    split
    · exact slip_silent
    · exact .refl _
  have hpre : pre <+: w.r.log := by
    obtain ⟨post, hlog, -⟩ := h.second.log
    exact ⟨post, hlog.symm⟩
  have halt : ∀ y ∈ alt, sp.hard s = false ∧ y = ptr sp.buf (s * c.sector_len) := by
    intro y hy
    change y ∈ (if sp.hard s = true then none else some (ptr sp.buf (s * c.sector_len))) at hy
    split at hy
    · cases hy
    · rename_i hn
      exact ⟨by simpa using hn, (Option.some.inj hy).symm⟩
  refine ⟨hsil, (h.copy hh).mono (hpre.trans hsil.grows), fun y hy => ?_, fun hf y hy => ?_,
    (refs_ok h.prim h.second.refs).mono hsil.grows⟩
  · obtain ⟨hsp, rfl⟩ := halt y hy
    rw [record_ptr, Nat.add_zero]
    exact ((h.second.copy h.lt hsp).mono hsil.grows).weaken fun _ he => by simp [he, Stage.Reads]
  · obtain ⟨hsp, rfl⟩ := halt y hy
    rw [record_ptr, Nat.add_zero, ← copies_shift]
    have : (!sp.hard s && (adsc_shift_find (ptr w.k.buf (s * c.sector_len))
      (ptr sp.buf (s * c.sector_len))).isSome) = false := hf
    rw [hsp] at this
    simpa using this

/-- What a witnessed pass makes of one sector. -/
theorem witness_sector_spec {p : Pass} {sp : Span} {pre : List ReadEvent} (h : Facing c p sp pre w s) :
    StepAt c s (fun log => WitnessTo c p (u32 (w.k.lba + s)) log) w (witness_sector c p sp w s) := by
  have hset := h.settlement
  have hsec := h.second
  have hsnd := h.copy
  have hs := h.lt
  unfold witness_sector
  simp only at hset ⊢
  split
  · rename_i h
    exact .skip (.skip h)
  rename_i h
  simp only [not_or, Bool.not_eq_true] at h
  obtain ⟨hh, hsus⟩ := h
  generalize hd : (if sp.hard s = true then 0 else
    adsc_audio_diff (ptr w.k.buf (s * c.sector_len)) (ptr sp.buf (s * c.sector_len))) = d
  by_cases hc : (!sp.hard s) = true ∧ d = 0
  · -- The second transfer holds the same audio.
    rw [if_pos hc]
    obtain ⟨hsp, rfl⟩ := hc
    have hsp : sp.hard s = false := by simpa using hsp
    rw [if_neg (by simp [hsp]), copies_diff] at hd
    obtain ⟨post, hlog, hcopy⟩ := hsec.log
    exact .skip (.confirmed hh hsus ⟨pre, post, hlog, hsnd hh, _, hcopy s hs hsp, hd⟩)
  rw [if_neg hc]
  obtain ⟨hsil, hcopy, halt, hshift, hrefs⟩ := hset hh
  generalize (!sp.hard s && (adsc_shift_find (ptr w.k.buf (s * c.sector_len))
    (ptr sp.buf (s * c.sector_len))).isSome) = shifted at hsil hcopy halt hshift hrefs ⊢
  generalize (if sp.hard s = true then none else some (ptr sp.buf (s * c.sector_len))) =
    alt at halt hshift ⊢
  generalize (if shifted = true then w.r.slip else w.r) = r at hsil hcopy halt hrefs ⊢
  have hset := StepAt.diffb (d := d) hsil
    (settle_spec (consensus_spec (p := p) (u32_lt (w.k.lba + s)) hcopy halt hshift hrefs))
  generalize consensus c p r (u32 (w.k.lba + s)) w.k.buf (s * c.sector_len) alt shifted
    [⟨w.k.lba, w.k.n, w.k.prim, w.k.hard⟩, ⟨w.k.lba, w.k.n, some sp.buf, sp.hard⟩] = x at hset ⊢
  generalize hw₁ : settle { w with k := { w.k with diffb := Function.update w.k.diffb s d } } s x = w₁
  have hset : StepAt c s (fun log x y => SettledTo (SettledBy c.sector_len p (u32 (w.k.lba + s)) log)
      { x with diffb := d } y) w w₁ := hw₁ ▸ hset
  have hsusp : (w₁.k.sector c.sector_len s).susp = !x.ok := by
    rw [← hw₁]
    unfold settle ChunkState.sector
    cases x.ok <;> simp [hsus]
  have hto := hset.at_sector
  generalize hy : w₁.k.sector c.sector_len s = y at hto hsusp
  split
  · -- Replaced, with C2: the bits are counted again.
    rename_i hcond
    obtain ⟨hok, hc2⟩ := hcond
    refine ⟨hset.silent, hset.same.trans ⟨rfl, rfl, rfl, rfl, rfl⟩, fun t ht => ?_, ?_⟩
    · rw [ChunkState.sector_bits_of_ne ht]
      exact hset.other t ht
    · rw [ChunkState.sector_bits, hy, record_bits_record,
        show record c.sector_len w₁.k.buf s = y.data from congrArg Sector.data hy]
      cases hto with
      | suspect => simp [hok] at hsusp
      | @replaced data att hev =>
        have := @WitnessTo.replaced c p _ _ (w.k.sector c.sector_len s) data att d hh hsus hev
        rwa [if_pos hc2] at this
  · rename_i hcond
    refine ⟨hset.silent, hset.same, hset.other, ?_⟩
    rw [hy]
    cases hto with
    | suspect => exact .suspect hh hsus
    | @replaced data att hev =>
      have hok : x.ok = true := by
        have : (w.k.sector c.sector_len s).susp = false := hsus
        simpa [this] using hsusp
      have := @WitnessTo.replaced c p _ _ (w.k.sector c.sector_len s) data att d hh hsus hev
      rwa [if_neg fun h => hcond ⟨hok, h⟩] at this

/-- **Pass rule**: what each sector comes to, a witnessed pass does to every one. -/
theorem witness_pass_sweep (p : Pass) (hprim : PrimOk c w.r.log w.k)
    (hsnd : w.k.All c.sector_len (Sound c w.r.log))
    {R : List ReadEvent → Nat → Sector → Sector → Prop} (hR : Grows R)
    (hstep : ∀ sp pre w' s, SameChunk w.k w'.k → Facing c p sp pre w' s →
      StepAt c s (R · s) w' (witness_sector c p sp w' s)) :
    Swept c w.k.n R w (witness_pass c p w) := by
  unfold witness_pass
  have hres := ladder_restore_idle (c := c) (r := w.r)
  obtain ⟨tf, -, -, hfs⟩ := cache_defeat_log (c := c) (r := ladder_restore c w.r) w.k.lba
  have hs₀ : Silent w.r (cache_defeat c (ladder_restore c w.r) w.k.lba) := hres.toSilent.trans hfs
  generalize cache_defeat c (ladder_restore c w.r) w.k.lba = r₀ at hs₀ ⊢
  have hspan := read_span_spec c r₀ (.witness p) w.k.lba w.k.n 0 r₀.buf2
  have hmissed := fun hc s => @read_span_missed c hc r₀ (.witness p) w.k.lba w.k.n 0 r₀.buf2 s
  simp only
  generalize read_span c r₀ (.witness p) w.k.lba w.k.n r₀.buf2 0 = sp at hspan hmissed ⊢
  have hsp : Silent r₀ { sp.r with buf2 := sp.buf } := by
    refine ⟨⟨hspan.quiet.log, hspan.quiet.status_map, hspan.quiet.subq_map, hspan.quiet.sinks⟩, ?_⟩
    exact hspan.account.trans (by simp [Stats.account])
  have hs₁ := hs₀.trans hsp
  have hsec : Second c p w.k sp r₀.log sp.r.log := by
    obtain ⟨new, hl, hc⟩ := hspan.copies
    exact ⟨new, hl, fun s hs hh => hc s hs hh⟩
  have hsw := sweep (c := c) (R := R)
    (f := witness_sector c p sp) (n := w.k.n) (w := ⟨{ sp.r with buf2 := sp.buf }, w.k⟩) hR
    fun w' s hs hsil hk hsame => hstep sp r₀.log w' s hk ⟨hk.n ▸ hs, hprim.mono (hs₁.trans hsil).grows hk,
      hsec.mono hsil.grows hk, fun hc hh => ?_, fun hh => ?_⟩
  · exact ⟨hs₁.trans hsw.silent, hsw.same, hsw.beyond, hsw.each⟩
  · rw [hk.lba]
    exact (hmissed hc s hh).mono hsil.grows
  · have hx : (w.k.sector c.sector_len s).hard = false := by
      rw [← hsame]
      exact hh
    have hcopy := ((hsnd s hs).copy hx).mono hs₀.grows
    rw [← hsame] at hcopy
    rw [hk.lba]
    exact hcopy

/-- **A witnessed pass** goes over every sector of the chunk. -/
theorem witness_pass_spec (p : Pass) (hprim : PrimOk c w.r.log w.k)
    (hsnd : w.k.All c.sector_len (Sound c w.r.log)) :
    Swept c w.k.n (fun log s x y => WitnessTo c p (u32 (w.k.lba + s)) log x y) w (witness_pass c p w) :=
  witness_pass_sweep p hprim hsnd (fun h hl => h.mono hl) fun sp pre w' s hk hf => by
    rw [← hk.lba]
    exact witness_sector_spec hf

end Accudisc
