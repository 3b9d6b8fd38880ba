import Accudisc.Read.Proof.CddaTrust

/-!
# The reach of a seam and of a C2 flag

The run of a call as the turns of its loop (`turns`), and the chunk that each turn reads as it is
published (`published_chunk`). A chunk is `Condemned` by the seam before it or after it, by a C2 flag of
its own, or by one of a neighbour. `WidenInv` is what the turns so far say of the chunks published and of
the one held back; each turn keeps it (`WidenInv.turn`), so every condemned chunk is published examined
(`accudisc_read_cdda_widens`).
-/

namespace Accudisc

variable {c : Cfg} {sink : Nat} {l : Loop} {ts : List Turn} {t u : Turn} {log log' : List ReadEvent}
  {j m : Nat}

/-! ## What condemns a chunk -/

section
variable (c : Cfg)

/-- A sector of the chunk has a C2 flag. -/
def Flagged (k : ChunkState) : Prop :=
  c.c2_len ≠ 0 ∧ ∃ s < k.n, k.hard s = false ∧ record_bits c k.buf (s * c.sector_len) ≠ 0

namespace Turn
variable (t : Turn)

/-- A compared sector of the seam behind the chunk differed. -/
def Torn : Prop := ∃ s < t.seam.n, DiffersAt c t.seam t.placed s

/-- The call widens for C2, and the chunk has a flag when its seam has been compared. -/
def C2 : Prop := c.req.c2_witness ≠ 0 ∧ Flagged c t.compared.k

end Turn

/-- The chunk of turn `j` lies at a torn seam, has a C2 flag, or a neighbour has one. -/
def Condemned (ts : List Turn) (j : Nat) : Prop :=
  (∃ t, ts[j]? = some t ∧ (t.Torn c ∨ t.C2 c)) ∨ (∃ t, ts[j + 1]? = some t ∧ (t.Torn c ∨ t.C2 c)) ∨
    ∃ i t, i + 1 = j ∧ ts[i]? = some t ∧ t.C2 c

/-- The turns of the loop, at most `fuel` of them. -/
def turns (sink : Nat) : Nat → Loop → List Turn
  | 0, _ => []
  | fuel + 1, l =>
    if l.remaining = 0 ∨ (c.req.cancel ≠ 0 ∧ c.env.cancel l.r.cmds) then []
    else
      let (l', rc) := chunk_step c sink l
      l.turn c :: if rc ≠ ACCUDISC_OK then [] else turns sink fuel l'

/-- The chunk of turn `j` as it is published: in the turn after it, or after the loop. -/
def published_chunk (ts : List Turn) (j : Nat) : Option ChunkState :=
  match ts[j + 1]? with
  | some t => some t.pend.k
  | none => (ts[j]?).map fun t => t.cur.k

/-- What is published of it. -/
def published_pubs (ts : List Turn) (j : Nat) : List Pub :=
  ((published_chunk ts j).map fun k => (List.range k.n).map (k.pub c.sector_len)).getD []

end

theorem c2_hit_flagged (w : Work) : c2_hit c (c2_scan c w).k = true ↔ Flagged c w.k := by
  unfold c2_hit c2_scan Flagged
  by_cases h0 : c.c2_len = 0
  · simp [h0]
  · rw [if_pos h0, List.any_eq_true]
    constructor
    · rintro ⟨s, hs, h⟩
      have hs : s < w.k.n := List.mem_range.1 hs
      simp only [Bool.and_eq_true, Bool.not_eq_true', decide_eq_true_eq, bne_iff_ne] at h
      obtain ⟨⟨hh, -⟩, hb⟩ := h
      rw [if_pos ⟨hs, by simp [hh]⟩] at hb
      exact ⟨h0, s, hs, hh, hb⟩
    · rintro ⟨-, s, hs, hh, hb⟩
      refine ⟨s, List.mem_range.2 hs, ?_⟩
      simp only [Bool.and_eq_true, Bool.not_eq_true', decide_eq_true_eq, bne_iff_ne]
      rw [if_pos ⟨hs, by simp [hh]⟩]
      exact ⟨⟨hh, h0⟩, hb⟩

/-- The turn's own account of its C2 flags. -/
theorem turn_c2 (l : Loop) : (l.turn c).c2_trig = true ↔ (l.turn c).C2 c := by
  unfold Turn.C2
  rw [← c2_hit_flagged]
  exact Bool.and_eq_true_iff.trans (and_congr_left fun _ => decide_eq_true_iff)

/-- The turn's own account of its seam. -/
theorem turn_torn (h : LoopInv c sink l) : (l.turn c).seam_bad = true ↔ (l.turn c).Torn c := by
  obtain ⟨hq, -, hsnd, hprim, -⟩ := chunk_read_spec (c := c)
    (w := ⟨l.r, chunk_begin l.cur l.lba (l.turn c).n⟩) (l.turn c).ext
  obtain ⟨ha, -, hh⟩ := qpos_check_spec (c := c)
    (w := chunk_read c ⟨l.r, chunk_begin l.cur l.lba (l.turn c).n⟩ (l.turn c).ext) (fun _ _ => rfl) hsnd
  have hplaced : (l.turn c).placed =
      qpos_check c (chunk_read c ⟨l.r, chunk_begin l.cur l.lba (l.turn c).n⟩ (l.turn c).ext) := rfl
  rw [← hplaced] at ha hh
  have hseam : (l.turn c).seam.Ok c (l.turn c).placed.r.log (l.turn c).placed.k.lba := by
    rw [ha.same.lba]
    exact h.seam.mono (hq.grows.trans ha.silent.grows)
  exact seam_check_bad (l.turn c).seam hseam (hprim.mono ha.silent.grows ha.same) hh

/-! ## The turns so far -/

/-- The chunk of turn `j` was published examined: every sector of it has been through its first pass. -/
def PublishedExamined (c : Cfg) (log : List ReadEvent) (ts : List Turn) (j : Nat) : Prop :=
  ∃ t k, ts[j]? = some t ∧ published_chunk ts j = some k ∧ k.lba = t.checked.k.lba ∧ k.n = t.checked.k.n ∧
    ∀ s < k.n, Examined c log c.first_pass (u32 (k.lba + s)) (t.checked.k.sector c.sector_len s)
      (k.sector c.sector_len s)

/-- What is published is the first `m` chunks, the condemned ones examined. -/
structure Reached (c : Cfg) (ts : List Turn) (m : Nat) (log : List ReadEvent) : Prop where
  sectors : pubs log = (List.range m).flatMap (published_pubs c ts)
  examined : ∀ j < m, Condemned c ts j → PublishedExamined c log ts j

/-- The chunk held back, of the last turn `t`. -/
structure Waiting (c : Cfg) (ts : List Turn) (l : Loop) (t : Turn) : Prop where
  eq : l.pend = { t.cur.k with live := true }
  watched : Watched c l.r.log t.checked.k l.pend
  condemned : Condemned c ts (ts.length - 1) → l.pend.witnessed = true

/-- **What the turns so far say of the loop.** -/
structure WidenInv (c : Cfg) (ts : List Turn) (l : Loop) : Prop where
  reached : Reached c ts (ts.length - 1) l.r.log
  first : ts = [] → l.pend.live = false
  next : l.witness_next = true ↔ ∃ t, ts[ts.length - 1]? = some t ∧ t.C2 c
  waiting : ∀ t, ts[ts.length - 1]? = some t → Waiting c ts l t

theorem PublishedExamined.mono (h : PublishedExamined c log ts j) (hl : log <+: log') :
    PublishedExamined c log' ts j := by
  obtain ⟨t, k, ht, hk, hlba, hn, hex⟩ := h
  exact ⟨t, k, ht, hk, hlba, hn, fun s hs => (hex s hs).mono hl⟩

/-- A chunk that is published stays as it is when the run goes on. -/
theorem published_snoc (hj : j + 1 < ts.length) : published_chunk (ts ++ [t]) j = published_chunk ts j := by
  unfold published_chunk
  rw [List.getElem?_append_left hj, List.getElem?_append_left (by omega)]

theorem published_last (hj : j + 1 = ts.length) : published_chunk (ts ++ [t]) j = some t.pend.k := by
  unfold published_chunk
  rw [hj, List.getElem?_concat_length]

/-- It is condemned by no later turn. -/
theorem condemned_snoc (hj : j + 1 < ts.length) : Condemned c (ts ++ [t]) j ↔ Condemned c ts j := by
  unfold Condemned
  rw [List.getElem?_append_left hj, List.getElem?_append_left (by omega)]
  refine or_congr_right (or_congr_right ?_)
  constructor
  · rintro ⟨i, u, rfl, hu, h⟩
    exact ⟨i, u, rfl, by rwa [List.getElem?_append_left (by omega)] at hu, h⟩
  · rintro ⟨i, u, rfl, hu, h⟩
    exact ⟨i, u, rfl, by rwa [List.getElem?_append_left (by omega)], h⟩

/-- The turn after a chunk's own condemns it by its seam or its C2 flag. -/
theorem condemned_before (hj : j + 1 = ts.length) (h : Condemned c (ts ++ [t]) j) :
    Condemned c ts j ∨ t.Torn c ∨ t.C2 c := by
  rcases h with ⟨u, hu, h⟩ | ⟨u, hu, h⟩ | ⟨i, u, rfl, hu, h⟩
  · rw [List.getElem?_append_left (by omega)] at hu
    exact .inl (.inl ⟨u, hu, h⟩)
  · rw [hj, List.getElem?_concat_length] at hu
    obtain rfl := Option.some.inj hu
    exact .inr h
  · rw [List.getElem?_append_left (by omega)] at hu
    exact .inl (.inr (.inr ⟨i, u, rfl, hu, h⟩))

/-- A chunk is condemned by its own turn or by the C2 flag of the one before. -/
theorem condemned_now (h : Condemned c (ts ++ [t]) ts.length) :
    t.Torn c ∨ t.C2 c ∨ ∃ u, ts[ts.length - 1]? = some u ∧ u.C2 c := by
  rcases h with ⟨u, hu, h⟩ | ⟨u, hu, h⟩ | ⟨i, u, hi, hu, h⟩
  · rw [List.getElem?_concat_length] at hu
    obtain rfl := Option.some.inj hu
    exact h.imp_right .inl
  · rw [List.getElem?_eq_none (by simp)] at hu
    cases hu
  · rw [List.getElem?_append_left (by omega)] at hu
    exact .inr (.inr ⟨u, by rwa [show ts.length - 1 = i by omega], h⟩)

/-- The chunks published before the turn, with one more turn known. -/
theorem Reached.snoc (h : Reached c ts (ts.length - 1) log) (hl : log <+: log')
    (hp : pubs log' = pubs log) :
    Reached c (ts ++ [t]) (ts.length - 1) log' := by
  refine ⟨hp.trans (h.sectors.trans ?_), fun j hj hc => ?_⟩
  · refine List.flatMap_congr fun j hj => ?_
    have hj := List.mem_range.1 hj
    unfold published_pubs
    rw [published_snoc (by omega)]
  · obtain ⟨u, k, hu, hk, hex⟩ := (h.examined j hj ((condemned_snoc (by omega)).1 hc)).mono hl
    exact ⟨u, k, by rwa [List.getElem?_append_left (by omega)], by rwa [published_snoc (by omega)], hex⟩

/-- One more chunk published. -/
theorem Reached.succ (h : Reached c ts m log) (hl : log <+: log')
    (hp : pubs log' = pubs log ++ published_pubs c ts m)
    (hex : Condemned c ts m → PublishedExamined c log' ts m) : Reached c ts (m + 1) log' := by
  refine ⟨?_, fun j hj hc => ?_⟩
  · rw [hp, h.sectors, List.range_succ, List.flatMap_append, List.flatMap_singleton]
  · rcases Nat.lt_succ_iff_lt_or_eq.1 hj with hj | rfl
    · exact (h.examined j hj hc).mono hl
    · exact hex hc

/-! ## One turn -/

/-- What delivering the chunk held back publishes. -/
theorem deliver_sectors {w : Work} (hL : c.sector_len < 2 ^ 32) (hrun : Run c sink w.r)
    (hp : w.k.live = true → Pending c w.r w.k) :
    pubs (deliver c sink w).1.r.log =
      pubs w.r.log ++ if w.k.live then (List.range w.k.n).map (w.k.pub c.sector_len) else [] := by
  unfold deliver
  split
  · next hl => simp_all
  · next hl =>
    have hl : w.k.live = true := by simpa using hl
    have hpend := hp hl
    rw [if_pos hl]
    exact (publish_spec sink hL hpend.ready.counted hrun.books hpend.lba
      (Nat.lt_of_le_of_lt hpend.le c.req.count.toNat_lt)).sectors

/-- The chunk held back is published in the turn after its own. -/
theorem Waiting.published {d : Rd} (h : Waiting c ts l u) (hu : ts[ts.length - 1]? = some u)
    (ht : TurnSpec c l t) (htorn : t.seam_bad = true ↔ t.Torn c) (hc2 : t.c2_trig = true ↔ t.C2 c)
    (hretries : 0 < c.retries) (hgrows : t.cur.r.log <+: d.log)
    (hc : Condemned c (ts ++ [t]) (ts.length - 1)) :
    PublishedExamined c d.log (ts ++ [t]) (ts.length - 1) := by
  have hlt := (List.getElem?_eq_some_iff.1 hu).1
  obtain ⟨hw, hmark⟩ := ht.pend_watched hretries (by rw [h.eq]) u.checked.k h.watched
  have hmarked : t.pend.k.witnessed = true := by
    refine hmark ?_
    rw [Bool.or_eq_true, htorn, hc2]
    rcases condemned_before (by omega) hc with hc | hc
    · exact .inr (h.condemned hc)
    · exact .inl hc
  exact ⟨u, t.pend.k, by rwa [List.getElem?_append_left hlt], published_last (by omega), hw.lba, hw.n,
    fun s hs => (hw.examined hmarked s hs).mono hgrows⟩

/-- **One turn keeps the history**, and publishes the chunk held back. -/
theorem WidenInv.turn (hL : c.sector_len < 2 ^ 32) (hretries : 0 < c.retries) (hinv : LoopInv c sink l)
    (h : WidenInv c ts l) (hrem : 0 < l.remaining) (hcancel : ¬(c.req.cancel ≠ 0 ∧ c.env.cancel l.r.cmds)) :
    Reached c (ts ++ [l.turn c]) ts.length (chunk_step c sink l).1.r.log ∧
    ((chunk_step c sink l).2 = ACCUDISC_OK → WidenInv c (ts ++ [l.turn c]) (chunk_step c sink l).1) := by
  have ht := turn_spec hinv hrem
  have htorn := turn_torn hinv
  have hc2 := turn_c2 (c := c) l
  rw [chunk_step_eq]
  simp only
  generalize l.turn c = t at ht htorn hc2 ⊢
  rw [if_neg hcancel]
  have hrun := hinv.run.quiet ht.quiet ht.tally
  have hpend : t.pend.k.live = true → Pending c t.cur.r t.pend.k := fun hl =>
    ht.pend (ht.pend_same.live ▸ hl)
  have hgrows := (deliver_pending (w := ⟨t.cur.r, t.pend.k⟩) hL hrun hpend).grows
  have hsec := deliver_sectors (w := ⟨t.cur.r, t.pend.k⟩) hL hrun hpend
  generalize deliver c sink ⟨t.cur.r, t.pend.k⟩ = x at hgrows hsec ⊢
  obtain ⟨d, rc⟩ := x
  simp only at hgrows hsec ⊢
  have hbefore : Reached c (ts ++ [t]) (ts.length - 1) t.cur.r.log :=
    h.reached.snoc ht.quiet.grows ht.quiet.pubs.1
  have hreached : Reached c (ts ++ [t]) ts.length d.r.log := by
    rcases hts : ts[ts.length - 1]? with _ | u
    · have hlen : ts.length = 0 := by
        have := List.getElem?_eq_none_iff.1 hts
        omega
      have hnil : ts = [] := List.length_eq_zero_iff.1 hlen
      have hdead : t.pend.k.live = false := ht.pend_same.live.trans (h.first hnil)
      rw [hdead] at hsec
      rw [hlen] at hbefore ⊢
      refine ⟨?_, fun j hj => absurd hj (Nat.not_lt_zero j)⟩
      rw [hsec, hbefore.sectors]
      rfl
    · have hwait := h.waiting u hts
      have hlt := (List.getElem?_eq_some_iff.1 hts).1
      have hlive : t.pend.k.live = true := ht.pend_same.live.trans (by rw [hwait.eq])
      have : Reached c (ts ++ [t]) (ts.length - 1 + 1) d.r.log :=
        hbefore.succ hgrows ?_ (hwait.published hts ht htorn hc2 hretries hgrows)
      · rwa [Nat.sub_add_cancel (by omega)] at this
      · rw [hsec, if_pos hlive]
        unfold published_pubs
        rw [published_last (by omega)]
        rfl
  have hlast : (ts ++ [t]).length - 1 = ts.length := by simp
  by_cases hrc : rc = 0
  · rw [if_neg (not_not.2 hrc)]
    refine ⟨hreached, fun _ => ⟨by rw [hlast]; exact hreached, by simp, ?_, fun u hu => ?_⟩⟩
    · rw [hlast, List.getElem?_concat_length]
      simpa using hc2
    · rw [hlast, List.getElem?_concat_length] at hu
      obtain rfl := Option.some.inj hu
      obtain ⟨hw, hmark⟩ := ht.watched hretries
      refine ⟨rfl, (hw.mono hgrows).live, fun hc => hmark ?_⟩
      rw [hlast] at hc
      rw [Bool.or_eq_true, Bool.or_eq_true, htorn, hc2, h.next]
      rcases condemned_now hc with hx | hx | hx
      · exact .inl (.inl hx)
      · exact .inl (.inr hx)
      · exact .inr hx
  · rw [if_pos hrc]
    exact ⟨hreached, fun h => absurd h (show ¬ACCUDISC_ERR_CANCELLED = ACCUDISC_OK by decide)⟩

/-! ## The run -/

/-- **The loop keeps the history**: it ends with the turns it took, or it leaves with some of their chunks
published. -/
theorem turns_widen_inv (hL : c.sector_len < 2 ^ 32) (hretries : 0 < c.retries) (fuel : Nat)
    (hinv : LoopInv c sink l) (h : WidenInv c ts l) :
    ((chunk_loop c sink fuel l).2 = ACCUDISC_OK →
      WidenInv c (ts ++ turns c sink fuel l) (chunk_loop c sink fuel l).1) ∧
    ((chunk_loop c sink fuel l).2 ≠ ACCUDISC_OK →
      ∃ m ≤ (ts ++ turns c sink fuel l).length,
        Reached c (ts ++ turns c sink fuel l) m (chunk_loop c sink fuel l).1.r.log) := by
  induction fuel generalizing ts l with
  | zero =>
    refine ⟨fun _ => ?_, fun hrc => absurd rfl hrc⟩
    unfold turns
    rw [List.append_nil]
    exact h
  | succ fuel ih =>
    unfold turns chunk_loop
    by_cases hrem : l.remaining = 0
    · rw [if_pos hrem, if_pos (Or.inl hrem), List.append_nil]
      exact ⟨fun _ => h, fun hrc => absurd rfl hrc⟩
    rw [if_neg hrem]
    by_cases hcancel : c.req.cancel ≠ 0 ∧ c.env.cancel l.r.cmds
    · -- The call is cancelled before the chunk is read.
      have hstep : chunk_step c sink l =
          ({ l with cur := chunk_begin l.cur l.lba (l.turn c).n }, ACCUDISC_ERR_CANCELLED) := by
        rw [chunk_step_eq]
        exact if_pos hcancel
      rw [if_pos (.inr hcancel), List.append_nil, hstep]
      simp only
      rw [if_pos (show ACCUDISC_ERR_CANCELLED ≠ ACCUDISC_OK by decide)]
      exact ⟨fun hrc => absurd hrc (show ¬ACCUDISC_ERR_CANCELLED = ACCUDISC_OK by decide),
        fun _ => ⟨_, Nat.sub_le .., h.reached⟩⟩
    · rw [if_neg (not_or.2 ⟨hrem, hcancel⟩)]
      obtain ⟨hreached, hnext⟩ := h.turn hL hretries hinv (Nat.pos_of_ne_zero hrem) hcancel
      obtain ⟨-, hstep⟩ := chunk_step_inv hL hinv (Nat.pos_of_ne_zero hrem)
      generalize l.turn c = t at hreached hnext ⊢
      generalize chunk_step c sink l = x at hreached hnext hstep ⊢
      obtain ⟨l', rc⟩ := x
      simp only at hreached hnext hstep ⊢
      by_cases hrc : rc = ACCUDISC_OK
      · rw [if_neg (not_not.2 hrc), if_neg (not_not.2 hrc)]
        have := ih (hstep hrc).1 (hnext hrc)
        rwa [List.append_assoc] at this
      · rw [if_pos hrc, if_pos hrc]
        exact ⟨fun h => absurd h hrc, fun _ => ⟨ts.length, by simp, hreached⟩⟩

theorem loop_start_widen_inv : WidenInv c [] c.loop_start := by
  have hnone : ∀ t : Turn, ([] : List Turn)[0]? ≠ some t := by simp
  have hlog : pubs c.loop_start.r.log = [] := by simp [Cfg.loop_start, Cfg.start, pubs]
  refine ⟨⟨hlog, fun j hj => absurd hj (Nat.not_lt_zero j)⟩, fun _ => rfl,
    ⟨fun h => ?_, fun h => ?_⟩, fun t ht => absurd ht (hnone t)⟩
  · exact absurd h (show ¬false = true from Bool.false_ne_true)
  · obtain ⟨t, ht, -⟩ := h
    exact absurd ht (hnone t)

/-- The last chunk, delivered after the loop. -/
theorem WidenInv.last {d : Rd} (h : WidenInv c ts l) (hgrows : l.r.log <+: d.log)
    (hsec : pubs d.log = pubs l.r.log ++
      if l.pend.live then (List.range l.pend.n).map (l.pend.pub c.sector_len) else []) :
    Reached c ts ts.length d.log := by
  rcases hts : ts[ts.length - 1]? with _ | u
  · have hlen : ts.length = 0 := by
      have := List.getElem?_eq_none_iff.1 hts
      omega
    have hr := h.reached.sectors
    rw [hlen] at hr ⊢
    refine ⟨?_, fun j hj => absurd hj (Nat.not_lt_zero j)⟩
    rw [hsec, h.first (List.length_eq_zero_iff.1 hlen), hr]
    rfl
  · have hwait := h.waiting u hts
    have hlt := (List.getElem?_eq_some_iff.1 hts).1
    have hpub : published_chunk ts (ts.length - 1) = some u.cur.k := by
      unfold published_chunk
      rw [List.getElem?_eq_none (by omega), hts]
      rfl
    have : Reached c ts (ts.length - 1 + 1) d.log := h.reached.succ hgrows ?_ fun hc => ?_
    · rwa [Nat.sub_add_cancel (by omega)] at this
    · rw [hsec, hwait.eq]
      unfold published_pubs
      rw [hpub]
      rfl
    · have hex := hwait.watched.examined (hwait.condemned hc)
      have hlba := hwait.watched.lba
      have hn := hwait.watched.n
      rw [hwait.eq] at hex hlba hn
      exact ⟨u, u.cur.k, hts, hpub, hlba, hn, fun s hs => (hex s hs).mono hgrows⟩

/-- The chunks of a call. -/
theorem read_chunks_reached (sink : Nat) (hL : c.sector_len < 2 ^ 32) (hretries : 0 < c.retries) :
    ∃ m ≤ (turns c sink c.req.count.toNat c.loop_start).length,
      Reached c (turns c sink c.req.count.toNat c.loop_start) m (read_chunks c sink).1.log := by
  obtain ⟨hok, hleft⟩ := turns_widen_inv hL hretries c.req.count.toNat
    (loop_start_inv : LoopInv c sink c.loop_start) loop_start_widen_inv
  obtain ⟨-, hinv⟩ := chunk_loop_inv hL (loop_start_inv : LoopInv c sink c.loop_start)
    (show c.loop_start.remaining ≤ c.req.count.toNat from Nat.le_refl _)
  rw [List.nil_append] at hok hleft
  unfold read_chunks
  generalize turns c sink c.req.count.toNat c.loop_start = ts at hok hleft ⊢
  generalize chunk_loop c sink c.req.count.toNat c.loop_start = x at hok hleft hinv ⊢
  obtain ⟨l, rc⟩ := x
  simp only at hok hleft hinv ⊢
  by_cases hrc : rc = ACCUDISC_OK
  · rw [if_neg (not_not.2 hrc)]
    obtain ⟨hinv, -⟩ := hinv hrc
    have hgrows := (deliver_pending (w := ⟨l.r, l.pend⟩) hL hinv.run hinv.pend).grows
    have hsec := deliver_sectors (w := ⟨l.r, l.pend⟩) hL hinv.run hinv.pend
    have hreached := (hok hrc).last hgrows hsec
    refine ⟨ts.length, Nat.le_refl _, ?_⟩
    split
    · exact hreached
    · simp only
      rw [(ladder_restore_idle (c := c) (r := (deliver c sink ⟨l.r, l.pend⟩).1.r)).same_log]
      exact hreached
  · rw [if_pos hrc]
    exact hleft hrc

theorem read_setup_retries (env : ReadEnv) (q : ReadReq) : 0 < (read_setup env q).retries := by
  unfold read_setup
  simp only
  split
  · next h => exact Nat.pos_of_ne_zero fun h0 => h (UInt8.toNat.inj h0)
  · decide

/-- The turns of a call. -/
def call_turns (env : ReadEnv) (q : ReadReq) (sink : Nat) : List Turn :=
  turns (read_setup env q) sink q.count.toNat (read_setup env q).loop_start

section
variable {env : ReadEnv} {dev : Nat} {req q : ReadReq} {stats_size : Option Nat} {rc : Int} {out : ReadOut}
  (hq : read_req_import req = .ok q)
  (h : accudisc_read_cdda env dev (some req) sink stats_size = (rc, some out))
include hq h

/-- The log of a call that gets to the engine. -/
theorem read_cdda_log : out.r.log = (read_buffered (read_setup env q) sink).r.log := by
  unfold accudisc_read_cdda at h
  simp only [hq] at h
  split at h
  · cases h
  split at h
  · cases h
  simp only [Prod.mk.injEq, Option.some.injEq] at h
  rw [← h.2]

/-- **Widening**: what a call publishes is the chunks of its turns, in order, and a chunk at a seam that
tore, or with a C2 flag, or beside one with a C2 flag, is published with every sector examined: one that was
neither hard nor suspect was held against a second transfer, and it is good only if the two agreed. -/
theorem accudisc_read_cdda_widens :
    ∃ m ≤ (call_turns env q sink).length,
      pubs out.r.log = (List.range m).flatMap (published_pubs (read_setup env q) (call_turns env q sink)) ∧
      ∀ j < m, Condemned (read_setup env q) (call_turns env q sink) j →
        ∃ t k, (call_turns env q sink)[j]? = some t ∧ published_chunk (call_turns env q sink) j = some k ∧
          k.lba = t.checked.k.lba ∧ k.n = t.checked.k.n ∧
          ∀ s < k.n, ∀ x y, x = t.checked.k.sector (read_setup env q).sector_len s →
            y = k.sector (read_setup env q).sector_len s →
            (x.hard = false → x.susp = false → Seconded (read_setup env q).sector_len out.r.log
              (read_setup env q).first_pass (u32 (k.lba + s)) x.data) ∧
            (map_state y.status = ACCUDISC_MAP_OK ∨ map_state y.status = ACCUDISC_MAP_C2 →
              y = x ∧ Confirmed (read_setup env q).sector_len out.r.log (read_setup env q).first_pass
                (u32 (k.lba + s)) y.data) ∧
            (x.hard = true ∨ x.susp = true → y = x) := by
  obtain ⟨m, hm, hreached⟩ : ∃ m ≤ (call_turns env q sink).length,
      Reached (read_setup env q) (call_turns env q sink) m out.r.log := by
    have hL : (read_setup env q).sector_len < 2 ^ 32 :=
      Nat.lt_of_le_of_lt (sector_len_le q.c2.toNat q.sub.toNat) (by decide)
    have hchunks := read_chunks_reached sink hL (read_setup_retries env q)
    have hstart : ∃ m ≤ (call_turns env q sink).length,
        Reached (read_setup env q) (call_turns env q sink) m (read_setup env q).start.log :=
      ⟨0, Nat.zero_le _, rfl, fun j hj => absurd hj (Nat.not_lt_zero j)⟩
    rw [read_cdda_log hq h]
    unfold read_buffered
    split
    · exact hstart
    split
    · split
      · exact hstart
      · exact hchunks
    · exact hchunks
  refine ⟨m, hm, hreached.sectors, fun j hj hc => ?_⟩
  obtain ⟨t, k, ht, hk, hlba, hn, hex⟩ := hreached.examined j hj hc
  refine ⟨t, k, ht, hk, hlba, hn, ?_⟩
  rintro s hs x y rfl rfl
  refine ⟨(hex s hs).seconded, fun hgood => ?_, (hex s hs).kept⟩
  obtain ⟨hh, hsus, hr⟩ := (Sector.state_good _).1 hgood
  obtain ⟨heq, hconf⟩ := (hex s hs).clean hh hsus hr
  exact ⟨heq, heq ▸ hconf⟩

end

/-- A request for the sector at LBA 0 with its C2 bits, widened where one is set. -/
def flagged_sector (sub : UInt8) : ReadReq := { one_sector sub 0 with c2 := 1, c2_witness := 1 }

/-- A drive that reads one transfer and then nothing more. -/
def reading_once (d : Mem) : ReadEnv :=
  { answering fun _ => d with drive := fun i => ⟨if i = 0 then ACCUDISC_OK else -1, d, ⟨false, 0, 0⟩⟩ }

/-- A loop of one turn. -/
theorem turns_one (hrem : l.remaining ≠ 0) (hcancel : c.req.cancel = 0) :
    turns c sink 1 l = [l.turn c] := by
  unfold turns
  rw [if_neg (by simp [hrem, hcancel])]
  simp only
  split <;> rfl

/-- A call for that sector comes to something. -/
theorem flagged_sector_run (env : ReadEnv) {sub : UInt8} (hsub : sub = 0 ∨ sub = 1)
    (hrc : (accudisc_read_cdda env 1 (some (flagged_sector sub)) 1 none).1 = ACCUDISC_OK) :
    ∃ out, accudisc_read_cdda env 1 (some (flagged_sector sub)) 1 none = (ACCUDISC_OK, some out) := by
  have himp : read_req_import (flagged_sector sub) = .ok (flagged_sector sub) := by
    rcases hsub with rfl | rfl <;> rfl
  have hval : read_validate 1 (flagged_sector sub) = .ok () := by
    rcases hsub with rfl | rfl <;> rfl
  unfold accudisc_read_cdda at hrc ⊢
  simp only [himp, hval] at hrc ⊢
  exact ⟨_, Prod.ext hrc rfl⟩

/-- The flagged sector of a drive that repeats itself. -/
theorem accudisc_read_cdda_widens_one : ∃ out x,
    accudisc_read_cdda (answering fun _ _ => 0xFF) 1 (some (flagged_sector 0)) 1 none =
        (ACCUDISC_OK, some out) ∧
      Seconded 2646 out.r.log .widen 0 x := by
  obtain ⟨out, hrun⟩ := flagged_sector_run (answering fun _ _ => 0xFF) (.inl rfl) (by decide +kernel)
  have hlen := ((@read_cdda_run _ _ _ (flagged_sector 0) _ _ _ _ rfl hrun).2.2 rfl).1
  obtain ⟨m, -, hsec, hex⟩ := @accudisc_read_cdda_widens _ _ _ _ (flagged_sector 0) _ _ _ rfl hrun
  have hm : 0 < m := Nat.pos_of_ne_zero fun h0 => by
    rw [hsec, h0] at hlen
    exact absurd hlen (show ¬0 = 1 by decide)
  obtain ⟨c, hc⟩ : ∃ c, c = read_setup (answering fun _ _ => 0xFF) (flagged_sector 0) := ⟨_, rfl⟩
  have hturns : call_turns (answering fun _ _ => 0xFF) (flagged_sector 0) 1 = [c.loop_start.turn c] := by
    subst hc
    exact turns_one (show ¬1 = 0 by decide) rfl
  have hc2 : (c.loop_start.turn c).C2 c := by
    subst hc
    exact (turn_c2 _).1 (by decide +kernel)
  have hfirst : (c.loop_start.turn c).checked.k.n = 1 ∧ (c.loop_start.turn c).checked.k.lba = 0 ∧
      (c.loop_start.turn c).checked.k.hard 0 = false ∧ (c.loop_start.turn c).checked.k.susp 0 = false := by
    subst hc
    decide +kernel
  rw [← hc, hturns] at hex
  obtain ⟨t, k, ht, -, hlba, hn, hsectors⟩ := hex 0 hm (.inl ⟨_, rfl, .inr hc2⟩)
  obtain rfl := Option.some.inj ht
  have hsec₀ := (hsectors 0 (by rw [hn, hfirst.1]; decide) _ _ rfl rfl).1 hfirst.2.2.1 hfirst.2.2.2
  rw [hlba, hfirst.2.1] at hsec₀
  have hpass : c.first_pass = .widen := by
    subst hc
    rfl
  have hL : c.sector_len = 2646 := by
    subst hc
    rfl
  rw [hpass, hL] at hsec₀
  exact ⟨out, _, hrun, hsec₀⟩

/-- A drive whose first answer strays, with C2 flags, and that finds the sector afterwards. -/
def strayed (i : Nat) : Mem := fun a =>
  if a < 2352 then 0
  else if a < 2646 then if i = 0 then 0xFF else 0
  else if i = 0 then frame_zero (a - 2646) else frame_two (a - 2646)

/-- A good transfer of a witnessed pass. -/
def ReadEvent.witnesses : ReadEvent → Bool
  | transfer ⟨.witness _, _, _, _, rc, _⟩ => rc == ACCUDISC_OK
  | _ => false

/-- The chunk's own transfer of sector 0, with a C2 flag. -/
def ReadEvent.flags (c : Cfg) : ReadEvent → Bool
  | transfer ⟨.stream, 0, 1, _, rc, data⟩ => rc == ACCUDISC_OK && record_bits c data 0 != 0
  | _ => false

/-- A condemned sector that was neither hard nor suspect and met no second transfer, which could not be
read; and a chunk whose transfer had a C2 flag, which the position check replaced: no pass came. -/
theorem widening_unread :
    (∃ out t, accudisc_read_cdda (reading_once fun _ => 0xFF) 1 (some (flagged_sector 0)) 1 none =
        (ACCUDISC_OK, some out) ∧
      call_turns (reading_once fun _ => 0xFF) (flagged_sector 0) 1 = [t] ∧
      Condemned (read_setup (reading_once fun _ => 0xFF) (flagged_sector 0)) [t] 0 ∧ t.checked.k.n = 1 ∧
        t.checked.k.hard 0 = false ∧ t.checked.k.susp 0 = false ∧ (pubs out.r.log).length = 1 ∧
        ∀ e ∈ out.r.log, e.witnesses = false) ∧
    ∃ out, accudisc_read_cdda (answering strayed) 1 (some (flagged_sector 1)) 1 none =
        (ACCUDISC_OK, some out) ∧
      (∃ e ∈ out.r.log, e.flags (read_setup (answering strayed) (flagged_sector 1)) = true) ∧
        (pubs out.r.log).length = 1 ∧ ∀ e ∈ out.r.log, e.witnesses = false := by
  constructor
  · obtain ⟨out, hrun⟩ := flagged_sector_run (reading_once fun _ => 0xFF) (.inl rfl) (by decide +kernel)
    have hlen := ((@read_cdda_run _ _ _ (flagged_sector 0) _ _ _ _ rfl hrun).2.2 rfl).1
    have hall : ((accudisc_read_cdda (reading_once fun _ => 0xFF) 1 (some (flagged_sector 0)) 1 none).2.map
        fun out => out.r.log.all fun e => !e.witnesses) = some true := by decide +kernel
    rw [hrun, Option.map_some, Option.some.injEq, List.all_eq_true] at hall
    have hfirst : ((read_setup (reading_once fun _ => 0xFF) (flagged_sector 0)).loop_start.turn
          (read_setup (reading_once fun _ => 0xFF) (flagged_sector 0))).checked.k.n = 1 ∧
        ((read_setup (reading_once fun _ => 0xFF) (flagged_sector 0)).loop_start.turn
          (read_setup (reading_once fun _ => 0xFF) (flagged_sector 0))).checked.k.hard 0 = false ∧
        ((read_setup (reading_once fun _ => 0xFF) (flagged_sector 0)).loop_start.turn
          (read_setup (reading_once fun _ => 0xFF) (flagged_sector 0))).checked.k.susp 0 = false := by
      decide +kernel
    have hc2 : ((read_setup (reading_once fun _ => 0xFF) (flagged_sector 0)).loop_start.turn
        (read_setup (reading_once fun _ => 0xFF) (flagged_sector 0))).C2
        (read_setup (reading_once fun _ => 0xFF) (flagged_sector 0)) := (turn_c2 _).1 (by decide +kernel)
    refine ⟨out, _, hrun, turns_one (show ¬1 = 0 by decide) rfl, .inl ⟨_, rfl, .inr hc2⟩, hfirst.1,
      hfirst.2.1, hfirst.2.2, hlen, fun e he => by simpa using hall e he⟩
  · obtain ⟨out, hrun⟩ := flagged_sector_run (answering strayed) (.inr rfl) (by decide +kernel)
    have hlen := ((@read_cdda_run _ _ _ (flagged_sector 1) _ _ _ _ rfl hrun).2.2 rfl).1
    have hall : ((accudisc_read_cdda (answering strayed) 1 (some (flagged_sector 1)) 1 none).2.map
        fun out => out.r.log.all (fun e => !e.witnesses) && out.r.log.any (ReadEvent.flags
          (read_setup (answering strayed) (flagged_sector 1)))) = some true := by decide +kernel
    rw [hrun, Option.map_some, Option.some.injEq, Bool.and_eq_true, List.all_eq_true,
      List.any_eq_true] at hall
    exact ⟨out, hrun, hall.2, hlen, fun e he => by simpa using hall.1 e he⟩

end Accudisc
