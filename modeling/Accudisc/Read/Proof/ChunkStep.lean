import Accudisc.Read.Proof.Stages

/-!
# One chunk, read and settled

`chunk_settle` is the part of `chunk_step` from the read to the verify passes. `chunk_settle_spec`: the
chunk it leaves is `Ready` to be published, and its extension is a seam for the next one.
-/

namespace Accudisc

variable {c : Cfg} {w : Work} {s : Nat}

/-- What a chunk shows of itself when it is published. -/
structure Ready (c : Cfg) (log : List ReadEvent) (k : ChunkState) : Prop where
  held : k.All c.sector_len (Held c log)
  counted : k.All c.sector_len fun _ => Counted c
  verified : k.All c.sector_len (Verified c log c.passes)
  prim : PrimOk c log k

theorem ChunkState.All.mono {L : Nat} {P Q : Nat → Sector → Prop} {k : ChunkState} (h : k.All L P)
    (hPQ : ∀ lba x, P lba x → Q lba x) : k.All L Q := fun s hs => hPQ _ _ (h s hs)

theorem Ready.mono {log log' : List ReadEvent} {k : ChunkState} (h : Ready c log k) (hl : log <+: log') :
    Ready c log' k :=
  ⟨h.held.mono fun _ _ hx => hx.mono hl, h.counted, h.verified.mono fun _ _ hx => hx.mono hl,
    h.prim.mono hl (.refl k)⟩

/-! ## Witnessed passes -/

/-- A witnessed pass keeps what a chunk holds. -/
theorem witness_pass_held (p : Pass) (hheld : w.k.All c.sector_len (Held c w.r.log))
    (hcount : w.k.All c.sector_len fun _ => Counted c) (hprim : PrimOk c w.r.log w.k) :
    Advance c w (witness_pass c p w) ∧
      (witness_pass c p w).k.All c.sector_len (Held c (witness_pass c p w).r.log) ∧
      ((witness_pass c p w).k.All c.sector_len fun _ => Counted c) ∧
      PrimOk c (witness_pass c p w).r.log (witness_pass c p w).k := by
  have hsw := witness_pass_spec (c := c) (w := w) p hprim fun s hs => (hheld s hs).sound
  refine ⟨hsw.advance, hsw.held (fun s _ x y _ h => h.moves) hheld, fun s hs => ?_,
    hprim.mono hsw.silent.grows hsw.same⟩
  have hs' := hsw.same.n ▸ hs
  exact (hsw.each s hs').counted (hcount s hs')

/-- The verify passes, from 2 on. -/
theorem verify_loop_spec (hheld : w.k.All c.sector_len (Held c w.r.log))
    (hcount : w.k.All c.sector_len fun _ => Counted c) (hprim : PrimOk c w.r.log w.k) (m : Nat) :
    let w' := (List.range' 2 m).foldl (fun w pass => witness_pass c (.verify pass) w) w
    Advance c w w' ∧ w'.k.All c.sector_len (Held c w'.r.log) ∧
      (w'.k.All c.sector_len fun _ => Counted c) ∧ PrimOk c w'.r.log w'.k ∧
      w'.k.All c.sector_len (Verified c w'.r.log (m + 1)) := by
  induction m with
  | zero => exact ⟨.refl w, hheld, hcount, hprim, fun _ _ => .none (by omega)⟩
  | succ m ih =>
    rw [List.range'_1_concat, List.foldl_append, List.foldl_cons, List.foldl_nil]
    obtain ⟨ha, hh, hc, hp, hv⟩ := ih
    generalize (List.range' 2 m).foldl (fun w pass => witness_pass c (.verify pass) w) w =
      w₁ at ha hh hc hp hv
    obtain ⟨ha', hh', hc', hp'⟩ := witness_pass_held (.verify (2 + m)) hh hc hp
    have hsw := witness_pass_spec (c := c) (.verify (2 + m)) hp fun s hs => (hh s hs).sound
    refine ⟨ha.trans ha', hh', hc', hp', fun s hs => ?_⟩
    have hs' := hsw.same.n ▸ hs
    have hto := hsw.each s hs'
    rw [show 2 + m = m + 1 + 1 by omega] at hto
    have := WitnessTo.verified hto
      ((hv s hs').mono (by rw [show m + 1 + 1 = 2 + m by omega]; exact hsw.silent.grows))
    rw [hsw.same.lba]
    rwa [show m + 1 + 1 = 2 + m by omega] at this ⊢

theorem verify_passes_spec (hheld : w.k.All c.sector_len (Held c w.r.log))
    (hcount : w.k.All c.sector_len fun _ => Counted c) (hprim : PrimOk c w.r.log w.k) :
    Advance c w (verify_passes c w) ∧ Ready c (verify_passes c w).r.log (verify_passes c w).k ∧
      (1 < c.passes → (verify_passes c w).k.witnessed = true) := by
  obtain ⟨ha, hh, hc, hp, hv⟩ := verify_loop_spec hheld hcount hprim (c.passes - 1)
  unfold verify_passes
  simp only
  generalize (List.range' 2 (c.passes - 1)).foldl (fun w pass => witness_pass c (.verify pass) w) w = w'
    at ha hh hc hp hv
  split
  · rename_i hp1
    rw [Nat.sub_add_cancel (by omega)] at hv
    exact ⟨⟨ha.silent, ⟨ha.same.live, ha.same.lba, ha.same.n, ha.same.prim, ha.same.hard⟩, ha.beyond⟩,
      ⟨hh, hc, hv, hp⟩, fun _ => rfl⟩
  · exact ⟨ha, ⟨hh, hc, fun _ _ => .none (by omega), hp⟩, fun h => absurd h ‹_›⟩

/-- A widening keeps a chunk ready: with verify passes it does nothing. -/
theorem widen_spec (want : Bool) (hready : Ready c w.r.log w.k)
    (hwit : 1 < c.passes → w.k.witnessed = true) :
    Advance c w (widen c w want) ∧ Ready c (widen c w want).r.log (widen c w want).k ∧
      (1 < c.passes → (widen c w want).k.witnessed = true) := by
  unfold widen
  split
  · rename_i hw
    obtain ⟨ha, hh, hc, hp⟩ := witness_pass_held .widen hready.held hready.counted hready.prim
    have h1 : ¬1 < c.passes := fun h => by simp [hwit h] at hw
    exact ⟨⟨ha.silent, ⟨ha.same.live, ha.same.lba, ha.same.n, ha.same.prim, ha.same.hard⟩, ha.beyond⟩,
      ⟨hh, hc, fun _ _ => .none (by omega), hp⟩, fun _ => rfl⟩
  · exact ⟨.refl w, hready, hwit⟩

/-! ## The read -/

theorem countP_primary (f : Nat → Bool) (n ext : Nat) :
    ((List.range (n + ext)).countP fun s => f s && decide (s < n)) = (List.range n).countP f := by
  rw [List.range_add, List.countP_append, List.countP_map]
  have h0 : (List.range ext).countP ((fun s => f s && decide (s < n)) ∘ fun x => n + x) = 0 := by
    rw [List.countP_eq_zero]
    simp
  rw [h0, Nat.add_zero]
  exact countP_range_congr fun i hi => by simp [hi]

/-- The extension past a chunk is copies of its own transfer. -/
def ExtOk (c : Cfg) (log : List ReadEvent) (k : ChunkState) (ext : Nat) : Prop :=
  ∀ s < ext, k.hard (k.n + s) = false →
    Copy c.sector_len log Stage.Chunk (u32 (k.lba + (k.n + s))) (record c.sector_len k.buf (k.n + s))

theorem chunk_read_spec (ext : Nat) :
    let w' := chunk_read c w ext
    Quiet w.r w'.r ∧ w'.r.st.account = { w.r.st.account with
      hard_errors := w.r.st.hard_errors + (List.range w.k.n).countP w'.k.hard } ∧
    w'.k.All c.sector_len (Sound c w'.r.log) ∧ PrimOk c w'.r.log w'.k ∧ ExtOk c w'.r.log w'.k ext := by
  have hres := ladder_restore_idle (c := c) (r := w.r)
  have hsp := read_span_spec c (ladder_restore c w.r) .stream w.k.lba (w.k.n + ext) w.k.n w.k.buf
  unfold chunk_read
  simp only
  generalize read_span c (ladder_restore c w.r) .stream w.k.lba (w.k.n + ext) w.k.buf w.k.n = sp at hsp
  obtain ⟨new, hl, hcopy⟩ := hsp.copies
  have hcopy' : ∀ s < w.k.n + ext, sp.hard s = false →
      Copy c.sector_len sp.r.log (· = .stream) (u32 (w.k.lba + s)) (record c.sector_len sp.buf s) :=
    fun s hs hh => by
      obtain ⟨t, ht, hg⟩ := hcopy s hs hh
      exact ⟨t, hl ▸ List.mem_append_right _ ht, hg⟩
  refine ⟨hres.toQuiet.trans hsp.quiet, ?_, fun s hs => ⟨fun hh => ?_, fun hh => ?_⟩, ?_, fun s hs hh => ?_⟩
  · have ha := hres.account
    have hh : (ladder_restore c w.r).st.hard_errors = w.r.st.hard_errors := by
      simp only [Stats.account, Stats.mk.injEq] at ha
      exact ha.2.2.2.2.1
    rw [hsp.account, ha, hh, countP_primary]
  · exact (hcopy' s (Nat.lt_add_right ext hs) hh).weaken fun _ he => by simp [he, Stage.Reads]
  · exact hsp.filled s (Nat.lt_add_right ext hs) hs hh
  · intro ref hr data hd j hj hh
    obtain rfl := List.mem_singleton.1 hr
    obtain ⟨prim, -, rfl⟩ := Option.map_eq_some_iff.1 hd
    have hrec := record_memcpy (L := c.sector_len) prim sp.buf 0 0 w.k.n j
    rw [Nat.zero_mul, if_pos ⟨Nat.zero_le j, by simpa using hj⟩, Nat.sub_zero, Nat.zero_add] at hrec
    rw [hrec]
    exact (hcopy' j (Nat.lt_add_right ext hj) hh).weaken fun _ he => .inl he
  · exact (hcopy' _ (Nat.add_lt_add_left hs w.k.n) hh).weaken fun _ he => .inl he

/-! ## The chunk -/

/-- `chunk_step` from the read to the verify passes; did the seam differ, has a sector a C2 flag? -/
def chunk_settle (c : Cfg) (seam : Seam) (w : Work) (ext : Nat) : Work × Bool × Bool :=
  let w := qpos_check c (chunk_read c w ext)
  let (w, seam_bad) := seam_check c seam w
  let w := c2_scan c w
  (verify_passes c (c2_rescue_chunk c seam w), seam_bad, c2_hit c w.k)

/-- `chunk_step` from the read to the C2 rescue. -/
def chunk_checks (c : Cfg) (seam : Seam) (w : Work) (ext : Nat) : Work :=
  c2_rescue_chunk c seam (c2_scan c (seam_check c seam (qpos_check c (chunk_read c w ext))).1)

theorem chunk_settle_work (seam : Seam) (ext : Nat) :
    (chunk_settle c seam w ext).1 = verify_passes c (chunk_checks c seam w ext) := rfl

/-- What the checks leave. -/
structure ChunkChecked (c : Cfg) (w : Work) (ext : Nat) (w' : Work) : Prop where
  quiet : Quiet w.r w'.r
  lba : w'.k.lba = w.k.lba
  n : w'.k.n = w.k.n
  account : w'.r.st.account = { w.r.st.account with
    hard_errors := w.r.st.hard_errors + (List.range w.k.n).countP w'.k.hard }
  held : w'.k.All c.sector_len (Held c w'.r.log)
  counted : w'.k.All c.sector_len fun _ => Counted c
  prim : PrimOk c w'.r.log w'.k
  ext : ExtOk c w'.r.log w'.k ext

theorem ExtOk.advance {w w' : Work} {ext : Nat} (h : ExtOk c w.r.log w.k ext) (ha : Advance c w w') :
    ExtOk c w'.r.log w'.k ext := by
  intro s hs hh
  rw [ha.same.n] at hh ⊢
  rw [ha.same.hard] at hh
  rw [ha.same.lba, show record c.sector_len w'.k.buf (w.k.n + s) = record c.sector_len w.k.buf (w.k.n + s)
    from congrArg Sector.data (ha.beyond _ (Nat.le_add_right _ _))]
  exact (h s hs hh).mono ha.silent.grows

theorem chunk_checks_spec (seam : Seam) (ext : Nat) (hsusp : ∀ s < w.k.n, w.k.susp s = false)
    (hbits : ∀ s < w.k.n, w.k.bits s = 0) (hseam : seam.Ok c w.r.log w.k.lba) :
    ChunkChecked c w ext (chunk_checks c seam w ext) := by
  obtain ⟨hq, hacc, hsnd, hprim, hext⟩ := chunk_read_spec (c := c) (w := w) ext
  have hsusp₀ : ∀ s < w.k.n, (chunk_read c w ext).k.susp s = false := hsusp
  have hbits₀ : ∀ s < w.k.n, (chunk_read c w ext).k.bits s = 0 := hbits
  have hlba₀ : (chunk_read c w ext).k.lba = w.k.lba := rfl
  have hn₀ : (chunk_read c w ext).k.n = w.k.n := rfl
  unfold chunk_checks
  generalize chunk_read c w ext = w₀ at hq hacc hsnd hprim hext hsusp₀ hbits₀ hlba₀ hn₀ ⊢
  obtain ⟨ha₁, hb₁, hh₁⟩ := qpos_check_spec (c := c) (hn₀ ▸ hsusp₀) hsnd
  generalize qpos_check c w₀ = w₁ at ha₁ hb₁ hh₁ ⊢
  have hl₁ := hq.grows.trans ha₁.silent.grows
  obtain ⟨ha₂, hb₂, hh₂⟩ := seam_check_spec (c := c) seam
    (by rw [ha₁.same.lba, hlba₀]; exact hseam.mono hl₁) (hprim.mono ha₁.silent.grows ha₁.same) hh₁
  generalize (seam_check c seam w₁).1 = w₂ at ha₂ hb₂ hh₂ ⊢
  have ha₀₂ := ha₁.trans ha₂
  obtain ⟨ha₃, hh₃, hc₃⟩ := c2_scan_spec (c := c) (w := w₂)
    (fun s hs => by rw [hb₂, hb₁]; exact hbits₀ s (by rwa [ha₀₂.same.n, hn₀] at hs)) hh₂
  generalize c2_scan c w₂ = w₃ at ha₃ hh₃ hc₃ ⊢
  have ha₀₃ := ha₀₂.trans ha₃
  obtain ⟨ha₄, hh₄, hc₄⟩ := c2_rescue_chunk_spec seam
    (by rw [ha₀₃.same.lba, hlba₀]; exact hseam.mono (hq.grows.trans ha₀₃.silent.grows))
    (hprim.mono ha₀₃.silent.grows ha₀₃.same) hh₃ hc₃
  generalize c2_rescue_chunk c seam w₃ = w₄ at ha₄ hh₄ hc₄ ⊢
  have ha := ha₀₃.trans ha₄
  refine ⟨hq.trans ha.silent.toQuiet, ha.same.lba.trans hlba₀, ha.same.n.trans hn₀, ?_, hh₄, hc₄,
    hprim.mono ha.silent.grows ha.same, hext.advance ha⟩
  rw [ha.silent.account, hacc, ha.same.hard]

/-- What it leaves. -/
structure ChunkSettled (c : Cfg) (w : Work) (ext : Nat) (w' : Work) : Prop where
  quiet : Quiet w.r w'.r
  lba : w'.k.lba = w.k.lba
  n : w'.k.n = w.k.n
  account : w'.r.st.account = { w.r.st.account with
    hard_errors := w.r.st.hard_errors + (List.range w.k.n).countP w'.k.hard }
  ready : Ready c w'.r.log w'.k
  witnessed : 1 < c.passes → w'.k.witnessed = true
  ext : ExtOk c w'.r.log w'.k ext

/-- **A chunk is ready after its stages.** -/
theorem chunk_settle_spec (seam : Seam) (ext : Nat) (hsusp : ∀ s < w.k.n, w.k.susp s = false)
    (hbits : ∀ s < w.k.n, w.k.bits s = 0) (hseam : seam.Ok c w.r.log w.k.lba) :
    ChunkSettled c w ext (chunk_settle c seam w ext).1 := by
  have h := chunk_checks_spec seam ext hsusp hbits hseam
  rw [chunk_settle_work]
  generalize chunk_checks c seam w ext = w₁ at h ⊢
  obtain ⟨ha, hr, hw⟩ := verify_passes_spec h.held h.counted h.prim
  refine ⟨h.quiet.trans ha.silent.toQuiet, ha.same.lba.trans h.lba, ha.same.n.trans h.n, ?_, hr, hw,
    h.ext.advance ha⟩
  rw [ha.silent.account, h.account, ha.same.hard]

end Accudisc
