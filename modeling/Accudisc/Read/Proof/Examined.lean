import Accudisc.Read.Proof.ChunkStep

/-!
# What a witnessed pass compares

A witnessed pass holds every sector that it takes up against a second transfer (`Seconded`,
`witness_pass_examines`). `Examined` is what the pass leaves of a sector, however many passes follow it.
-/

namespace Accudisc

variable {c : Cfg} {w : Work} {s : Nat} {log log' : List ReadEvent} {p q : Pass} {lba : Nat}
  {x y z : Sector}

/-- How a pass held the copy `x` of a sector against a second transfer: they agreed, or they differed and
both were put to the rereads, or the second transfer could not read it and `x` alone was. -/
inductive Seconded (L : Nat) (log : List ReadEvent) (p : Pass) (lba : Nat) (x : Mem) : Prop where
  | agreed : Confirmed L log p lba x → Seconded L log p lba x
  | differed {y : Mem} : Copy L log (· = .witness p) lba y → adsc_audio_diff x y ≠ 0 →
      .dispute p lba x (some y) ∈ log → Seconded L log p lba x
  | unread : Missed log (.witness p) lba → .dispute p lba x none ∈ log → Seconded L log p lba x

/-- Sector `x` has been through the pass, and perhaps through later ones, and is `y` now. -/
structure Examined (c : Cfg) (log : List ReadEvent) (p : Pass) (lba : Nat) (x y : Sector) : Prop where
  kept : x.hard = true ∨ x.susp = true → y = x
  seconded : x.hard = false → x.susp = false → Seconded c.sector_len log p lba x.data
  clean : y.hard = false → y.susp = false → y.recov = false →
    y = x ∧ Confirmed c.sector_len log p lba x.data

theorem Seconded.mono {L : Nat} {m : Mem} (h : Seconded L log p lba m) (hl : log <+: log') :
    Seconded L log' p lba m := by
  cases h with
  | agreed h => exact .agreed (h.mono hl)
  | differed hy hd hm => exact .differed (hy.mono hl) hd (hl.subset hm)
  | unread hm hd => exact .unread (hm.mono hl) (hl.subset hd)

theorem Examined.mono (h : Examined c log p lba x y) (hl : log <+: log') : Examined c log' p lba x y :=
  ⟨h.kept, fun hh hs => (h.seconded hh hs).mono hl,
    fun hh hs hr => (h.clean hh hs hr).imp_right (·.mono hl)⟩

/-! ## One pass after another -/

/-- A pass passes over a sector that is hard or suspect. -/
theorem WitnessTo.kept (h : WitnessTo c p lba log x y) (hx : x.hard = true ∨ x.susp = true) : y = x := by
  cases h with
  | skip _ | confirmed _ _ _ => rfl
  | replaced hh hs _ => simp [hh, hs] at hx
  | suspect hh hs => simp [hh, hs] at hx

/-- What a pass leaves as it was read, it confirmed. -/
theorem WitnessTo.clean (h : WitnessTo c p lba log x y) (hh : y.hard = false) (hs : y.susp = false)
    (hr : y.recov = false) : y = x ∧ Confirmed c.sector_len log p lba x.data := by
  cases h with
  | skip hx => simp [hh, hs] at hx
  | confirmed _ _ hc => exact ⟨rfl, hc⟩
  | replaced _ _ _ => cases hr
  | suspect _ _ => cases hs

theorem WitnessTo.examined (h : WitnessTo c p lba log x y)
    (hx : x.hard = false → x.susp = false → Seconded c.sector_len log p lba x.data) :
    Examined c log p lba x y := ⟨h.kept, hx, h.clean⟩

/-- A sector examined stays so through another pass. -/
theorem Examined.pass (h : Examined c log p lba x y) (hl : log <+: log') (hq : WitnessTo c q lba log' y z) :
    Examined c log' p lba x z := by
  have h := h.mono hl
  refine ⟨fun hx => ?_, h.seconded, fun hh hs hr => ?_⟩
  · obtain rfl := h.kept hx
    exact hq.kept hx
  · obtain ⟨rfl, -⟩ := hq.clean hh hs hr
    exact h.clean hh hs hr

/-! ## The pass -/

/-- A sector that the second transfer does not confirm is put to consensus. -/
theorem witness_sector_disputes {sp : Span} (hh : w.k.hard s = false) (hsus : w.k.susp s = false)
    (hno : ¬(sp.hard s = false ∧
      adsc_audio_diff (ptr w.k.buf (s * c.sector_len)) (ptr sp.buf (s * c.sector_len)) = 0)) :
    (witness_sector c p sp w s).r = (consensus c p
      (if (!sp.hard s && (adsc_shift_find (ptr w.k.buf (s * c.sector_len))
        (ptr sp.buf (s * c.sector_len))).isSome) = true then w.r.slip else w.r)
      (u32 (w.k.lba + s)) w.k.buf (s * c.sector_len)
      (if sp.hard s = true then none else some (ptr sp.buf (s * c.sector_len)))
      (!sp.hard s && (adsc_shift_find (ptr w.k.buf (s * c.sector_len))
        (ptr sp.buf (s * c.sector_len))).isSome)
      [⟨w.k.lba, w.k.n, w.k.prim, w.k.hard⟩, ⟨w.k.lba, w.k.n, some sp.buf, sp.hard⟩]).r := by
  unfold witness_sector
  simp only
  rw [if_neg (by simp [hh, hsus])]
  rw [if_neg fun h => hno ?_]
  · generalize consensus c p _ _ _ _ _ _ _ = x
    split <;> rfl
  · have hsp : sp.hard s = false := by simpa using h.1
    exact ⟨hsp, by simpa [hsp] using h.2⟩

/-- A sector that a pass takes up is held against the second transfer. -/
theorem witness_sector_seconded {sp : Span} {pre : List ReadEvent} (h : Facing c p sp pre w s)
    (hretries : 0 < c.retries) (hh : w.k.hard s = false) (hsus : w.k.susp s = false) :
    Seconded c.sector_len (witness_sector c p sp w s).r.log p (u32 (w.k.lba + s))
      (record c.sector_len w.k.buf s) := by
  have hgrows := (witness_sector_spec h).silent.grows
  by_cases hsame : sp.hard s = false ∧
      adsc_audio_diff (ptr w.k.buf (s * c.sector_len)) (ptr sp.buf (s * c.sector_len)) = 0
  · obtain ⟨hsp, hd⟩ := hsame
    obtain ⟨post, hl, hcopy⟩ := h.second.log
    have hconf : Confirmed c.sector_len w.r.log p (u32 (w.k.lba + s)) (record c.sector_len w.k.buf s) :=
      ⟨pre, post, hl, h.copy hh, _, hcopy s h.lt hsp, copies_diff.symm.trans hd⟩
    exact .agreed (hconf.mono hgrows)
  obtain ⟨-, hcopy, halt, hshift, hrefs⟩ := h.settlement hh
  have hdis := consensus_disputes (p := p) (u32_lt (w.k.lba + s)) hcopy halt hshift hrefs
  rw [← witness_sector_disputes hh hsus hsame] at hdis
  cases hsp : sp.hard s with
  | true =>
    rw [if_pos hsp, Option.map_none] at hdis
    exact .unread ((h.missed hretries hsp).mono hgrows) hdis
  | false =>
    rw [if_neg (by simp [hsp])] at hdis
    simp only [Option.map_some, record_ptr, Nat.add_zero] at hdis
    have hne : adsc_audio_diff (record c.sector_len w.k.buf s) (record c.sector_len sp.buf s) ≠ 0 :=
      fun hd => hsame ⟨hsp, copies_diff.trans hd⟩
    exact .differed ((h.second.copy h.lt hsp).mono hgrows) hne hdis

/-- **A witnessed pass examines every sector of the chunk.** -/
theorem witness_pass_examines (p : Pass) (hretries : 0 < c.retries) (hprim : PrimOk c w.r.log w.k)
    (hsnd : w.k.All c.sector_len (Sound c w.r.log)) :
    Swept c w.k.n (fun log s x y => Examined c log p (u32 (w.k.lba + s)) x y) w (witness_pass c p w) :=
  witness_pass_sweep p hprim hsnd (fun h hl => h.mono hl) fun sp pre w' s hk hf => by
    have hst := witness_sector_spec hf
    rw [← hk.lba]
    exact ⟨hst.silent, hst.same, hst.other,
      hst.at_sector.examined fun hh hs => witness_sector_seconded hf hretries hh hs⟩

/-- The verify passes examine every sector, in the first of them. -/
theorem verify_loop_examines (hretries : 0 < c.retries) (hheld : w.k.All c.sector_len (Held c w.r.log))
    (hcount : w.k.All c.sector_len fun _ => Counted c) (hprim : PrimOk c w.r.log w.k) (m : Nat) :
    let w' := (List.range' 2 (m + 1)).foldl (fun w pass => witness_pass c (.verify pass) w) w
    ∀ s < w.k.n, Examined c w'.r.log (.verify 2) (u32 (w.k.lba + s)) (w.k.sector c.sector_len s)
      (w'.k.sector c.sector_len s) := by
  induction m with
  | zero => exact (witness_pass_examines (.verify 2) hretries hprim fun s hs => (hheld s hs).sound).each
  | succ m ih =>
    obtain ⟨ha, hh, -, hp, -⟩ := verify_loop_spec hheld hcount hprim (m + 1)
    rw [List.range'_1_concat, List.foldl_append, List.foldl_cons, List.foldl_nil]
    generalize (List.range' 2 (m + 1)).foldl (fun w pass => witness_pass c (.verify pass) w) w = w₁
      at ha hh hp ih
    have hsw := witness_pass_spec (c := c) (.verify (2 + (m + 1))) hp fun s hs => (hh s hs).sound
    intro w' s hs
    have hto := hsw.each s (ha.same.n ▸ hs)
    rw [ha.same.lba] at hto
    exact (ih s hs).pass hsw.silent.grows hto

theorem verify_passes_examine (hretries : 0 < c.retries) (hpasses : 1 < c.passes)
    (hheld : w.k.All c.sector_len (Held c w.r.log)) (hcount : w.k.All c.sector_len fun _ => Counted c)
    (hprim : PrimOk c w.r.log w.k) :
    ∀ s < w.k.n, Examined c (verify_passes c w).r.log (.verify 2) (u32 (w.k.lba + s))
      (w.k.sector c.sector_len s) ((verify_passes c w).k.sector c.sector_len s) := by
  obtain ⟨m, hm⟩ := Nat.exists_eq_add_of_le hpasses
  have h := verify_loop_examines hretries hheld hcount hprim m
  unfold verify_passes
  simp only [if_pos hpasses]
  rw [show c.passes - 1 = m + 1 by omega]
  exact h

/-- Without verify passes there is no pass before the widening. -/
theorem verify_passes_none (hpasses : ¬1 < c.passes) : verify_passes c w = w := by
  unfold verify_passes
  rw [show c.passes - 1 = 0 by omega]
  exact if_neg hpasses

/-! ## The mark of a pass -/

theorem settle_witnessed (w : Work) (s : Nat) (x : Settled) :
    (settle w s x).k.witnessed = w.k.witnessed := rfl

theorem qpos_check_witnessed (w : Work) : (qpos_check c w).k.witnessed = w.k.witnessed := by
  unfold qpos_check
  split
  · refine Loop.foldl_range_inv (fun _ (w' : Work) => w'.k.witnessed = w.k.witnessed) rfl fun i _ w' h => ?_
    rw [← h]
    unfold qpos_sector
    split
    · rfl
    · exact settle_witnessed ..
  · rfl

theorem seam_check_witnessed (seam : Seam) (w : Work) :
    (seam_check c seam w).1.k.witnessed = w.k.witnessed := by
  refine Loop.foldl_range_inv (fun _ (st : Work × Bool) => st.1.k.witnessed = w.k.witnessed) rfl
    fun i _ st h => ?_
  rw [← h]
  unfold seam_sector
  simp only
  split
  · rfl
  split
  · rfl
  · exact settle_witnessed ..

theorem c2_rescue_chunk_witnessed (seam : Seam) (w : Work) :
    (c2_rescue_chunk c seam w).k.witnessed = w.k.witnessed := by
  unfold c2_rescue_chunk
  split
  · refine Loop.foldl_range_inv (fun _ (w' : Work) => w'.k.witnessed = w.k.witnessed) rfl fun i _ w' h => ?_
    rw [← h]
    unfold c2_sector
    simp only
    split <;> rfl
  · rfl

/-- The checks of a chunk are no witnessed pass. -/
theorem chunk_checks_witnessed (seam : Seam) (w : Work) (ext : Nat) :
    (chunk_checks c seam w ext).k.witnessed = w.k.witnessed := by
  have hscan : ∀ w : Work, (c2_scan c w).k.witnessed = w.k.witnessed := fun w => by
    unfold c2_scan
    split <;> rfl
  unfold chunk_checks
  rw [c2_rescue_chunk_witnessed, hscan, seam_check_witnessed, qpos_check_witnessed]
  rfl

/-! ## A chunk and its passes -/

/-- The first pass that a chunk gets, if it gets one. -/
def Cfg.first_pass (c : Cfg) : Pass := if 1 < c.passes then .verify 2 else .widen

/-- The chunk `k₀`, as its checks left it, is `k` now: it has had its first pass, or it is what it was. -/
structure Watched (c : Cfg) (log : List ReadEvent) (k₀ k : ChunkState) : Prop where
  lba : k.lba = k₀.lba
  n : k.n = k₀.n
  examined : k.witnessed = true → ∀ s < k.n, Examined c log c.first_pass (u32 (k.lba + s))
    (k₀.sector c.sector_len s) (k.sector c.sector_len s)
  untouched : k.witnessed = false →
    ¬1 < c.passes ∧ ∀ s < k.n, k.sector c.sector_len s = k₀.sector c.sector_len s

theorem Watched.mono {k₀ k : ChunkState} (h : Watched c log k₀ k) (hl : log <+: log') :
    Watched c log' k₀ k :=
  ⟨h.lba, h.n, fun hw s hs => (h.examined hw s hs).mono hl, h.untouched⟩

theorem Watched.live {k₀ k : ChunkState} (h : Watched c log k₀ k) :
    Watched c log k₀ { k with live := true } :=
  ⟨h.lba, h.n, h.examined, h.untouched⟩

/-- The verify passes are the first ones of a chunk. -/
theorem verify_passes_watched (hretries : 0 < c.retries) (hwit : w.k.witnessed = false)
    (hheld : w.k.All c.sector_len (Held c w.r.log)) (hcount : w.k.All c.sector_len fun _ => Counted c)
    (hprim : PrimOk c w.r.log w.k) : Watched c (verify_passes c w).r.log w.k (verify_passes c w).k := by
  by_cases hpasses : 1 < c.passes
  · obtain ⟨ha, -, hw⟩ := verify_passes_spec hheld hcount hprim
    have hex := verify_passes_examine hretries hpasses hheld hcount hprim
    refine ⟨ha.same.lba, ha.same.n, fun _ s hs => ?_, fun h => ?_⟩
    · rw [Cfg.first_pass, if_pos hpasses, ha.same.lba]
      exact hex s (ha.same.n ▸ hs)
    · rw [hw hpasses] at h
      cases h
  · rw [verify_passes_none hpasses]
    refine ⟨rfl, rfl, fun h => ?_, fun _ => ⟨hpasses, fun _ _ => rfl⟩⟩
    rw [hwit] at h
    cases h

/-- **Widening**: a chunk that is wanted has had its first pass afterwards, and none loses it. -/
theorem widen_watched (hretries : 0 < c.retries) (want : Bool) {k₀ : ChunkState}
    (h : Watched c w.r.log k₀ w.k) (hready : Ready c w.r.log w.k) :
    Watched c (widen c w want).r.log k₀ (widen c w want).k ∧
      (want = true ∨ w.k.witnessed = true → (widen c w want).k.witnessed = true) := by
  unfold widen
  split
  · next hw =>
    have hno : w.k.witnessed = false := by simpa using hw.2
    obtain ⟨hpasses, hsame⟩ := h.untouched hno
    have hsw := witness_pass_examines (c := c) .widen hretries hready.prim
      fun s hs => (hready.held s hs).sound
    refine ⟨⟨hsw.same.lba.trans h.lba, hsw.same.n.trans h.n, fun _ s hs => ?_, nofun⟩, fun _ => rfl⟩
    have hs : s < w.k.n := hsw.same.n ▸ hs
    have hex := hsw.each s hs
    rw [hsame s hs] at hex
    rw [Cfg.first_pass, if_neg hpasses]
    exact hsw.same.lba.symm ▸ hex
  · next hw =>
    refine ⟨h, fun hor => ?_⟩
    rcases hor with hwant | hwit
    · simpa [hwant] using hw
    · exact hwit

end Accudisc
