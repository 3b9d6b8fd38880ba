import Accudisc.Read.Proof.Examined
import Accudisc.Read.Proof.Publish

/-!
# The loop

The invariant of the read loop (`LoopInv`), kept by one chunk (`chunk_step_inv`) and so by the loop
(`chunk_loop_inv`), and what it says of the whole call (`read_chunks_run`).
-/

namespace Accudisc

variable {c : Cfg} {r : Rd} {k : ChunkState} {sink : Nat}

/-! ## Publishing a chunk -/

/-- Sector `s` of a chunk as it is published. -/
def ChunkState.pub (L : Nat) (k : ChunkState) (s : Nat) : Pub :=
  ⟨u32 (k.lba + s), (k.sector L s).status, (k.sector L s).data⟩

/-- What publishing a chunk adds. -/
structure PublishedChunk (c : Cfg) (sink : Nat) (r : Rd) (k : ChunkState) (r' : Rd) : Prop where
  grows : r.log <+: r'.log
  sectors : pubs r'.log = pubs r.log ++ (List.range k.n).map (k.pub c.sector_len)
  sunk : delivered r'.log = delivered r.log ++ if sink = 0 then [] else
    (List.range k.n).map fun s => ((k.pub c.sector_len s).lba, (k.pub c.sector_len s).data)
  hard_errors : r'.st.hard_errors = r.st.hard_errors
  books : Books c r'

theorem u32_add (a b : Nat) : u32 (u32 a + b) = u32 (a + b) := by
  unfold u32
  omega

theorem publish_sectors_spec (hcount : k.All c.sector_len fun _ => Counted c) (hbooks : Books c r)
    (hlba : k.lba = u32 (c.req.lba.toNat + (pubs r.log).length))
    (hlt : (pubs r.log).length + k.n ≤ 2 ^ 32) :
    PublishedChunk c 0 r k ((List.range k.n).foldl (publish_sector c k) r) ∧
      ((List.range k.n).foldl (publish_sector c k) r).sinks = r.sinks := by
  have h := Loop.foldl_range_inv (f := publish_sector c k) (s := r) (n := k.n) (fun i r' =>
    r.log <+: r'.log ∧ pubs r'.log = pubs r.log ++ (List.range i).map (k.pub c.sector_len) ∧
      delivered r'.log = delivered r.log ∧ r'.sinks = r.sinks ∧
      r'.st.hard_errors = r.st.hard_errors ∧ Books c r')
    ⟨List.prefix_refl _, by simp, rfl, rfl, rfl, hbooks⟩ ?_
  · obtain ⟨h₁, h₂, h₃, h₄, h₅, h₆⟩ := h
    exact ⟨⟨h₁, h₂, by simp [h₃], h₅, h₆⟩, h₄⟩
  · rintro i hi r' ⟨h₁, h₂, h₃, h₄, h₅, h₆⟩
    have hlen : (pubs r'.log).length = (pubs r.log).length + i := by simp [h₂]
    have hsec := publish_sector_spec (c := c) (r := r') (k := k) (s := i) (hcount i hi)
      (by rw [hlba, u32_add, hlen, Nat.add_assoc]) (by omega)
    refine ⟨h₁.trans hsec.grows, ?_, hsec.kept.trans h₃, hsec.sinks.trans h₄,
      hsec.hard_errors.trans h₅, hsec.books h₆⟩
    rw [hsec.sectors, h₂, List.range_succ, List.map_append, ← List.append_assoc]
    rfl

/-- **Publishing a chunk.** -/
theorem publish_spec (sink : Nat) (hL : c.sector_len < 2 ^ 32)
    (hcount : k.All c.sector_len fun _ => Counted c)
    (hbooks : Books c r) (hlba : k.lba = u32 (c.req.lba.toNat + (pubs r.log).length))
    (hlt : (pubs r.log).length + k.n < 2 ^ 32) : PublishedChunk c sink r k (publish c sink r k).1 := by
  obtain ⟨h, hsinks⟩ := publish_sectors_spec hcount hbooks hlba (Nat.le_of_lt hlt)
  unfold publish
  simp only
  generalize (List.range k.n).foldl (publish_sector c k) r = r' at h hsinks
  split
  · rename_i h0
    subst h0
    exact h
  · rename_i h0
    have hout : delivered [.sink (chunk_out c k) k.buf] =
        (List.range k.n).map fun s => ((k.pub c.sector_len s).lba, (k.pub c.sector_len s).data) := by
      have hk : k.lba < 2 ^ 32 := hlba ▸ u32_lt _
      simp only [delivered, List.flatMap_cons, List.flatMap_nil, List.append_nil, chunk_out,
        UInt32.toNat_ofNat']
      rw [Nat.mod_eq_of_lt (show k.n < 2 ^ 32 by omega), Nat.mod_eq_of_lt hL, Nat.mod_eq_of_lt hk]
      rfl
    have hown : pubs [ReadEvent.sink (chunk_out c k) k.buf] = [] ∧
        stores [ReadEvent.sink (chunk_out c k) k.buf] = [] := ⟨rfl, rfl⟩
    have hp : pubs (r'.log ++ [.sink (chunk_out c k) k.buf]) = pubs r'.log := by
      rw [pubs_append, hown.1, List.append_nil]
    refine ⟨h.grows.trans ⟨_, rfl⟩, ?_, ?_, h.hard_errors, ?_⟩
    · exact hp.trans h.sectors
    · rw [if_neg h0, ← hout]
      refine (delivered_append ..).trans ?_
      rw [h.sunk, if_pos rfl, List.append_nil]
    · obtain ⟨h₁, h₂, h₃, h₄, h₅⟩ := h.books
      refine ⟨fun i p hi => h₁ i p (hp ▸ hi), ?_, fun hm i p hi => h₃ hm i p (hp ▸ hi),
        fun hm hs i p hi => h₄ hm hs i p (hp ▸ hi), ?_⟩
      · refine (stores_append ..).trans ?_
        rw [hown.2, List.append_nil, h₂]
        change _ = if _ then _ else (pubs (r'.log ++ [ReadEvent.sink (chunk_out c k) k.buf])).zipIdx.map _
        rw [hp]
      · exact hp.symm ▸ h₅

/-! ## What holds of the sectors published -/

/-- What is shown of a published sector. -/
def Proven (c : Cfg) (log : List ReadEvent) (p : Pub) : Prop :=
  ∃ x : Sector, p.status = x.status ∧ p.data = x.data ∧ Held c log p.lba x ∧ Counted c x ∧
    Verified c log c.passes p.lba x

theorem Proven.mono {log log' : List ReadEvent} {p : Pub} (h : Proven c log p) (hl : log <+: log') :
    Proven c log' p := by
  obtain ⟨x, hs, hd, hh, hc, hv⟩ := h
  exact ⟨x, hs, hd, hh.mono hl, hc, hv.mono hl⟩

/-- What holds of the engine after any number of chunks. -/
structure Run (c : Cfg) (sink : Nat) (r : Rd) : Prop where
  books : Books c r
  sunk : delivered r.log = if sink = 0 then [] else (pubs r.log).map fun p => (p.lba, p.data)
  proven : ∀ p ∈ pubs r.log, Proven c r.log p
  le : (pubs r.log).length ≤ c.req.count.toNat

theorem Run.quiet {r' : Rd} (h : Run c sink r) (hq : Quiet r r') (ht : r'.st.tally = r.st.tally) :
    Run c sink r' := by
  obtain ⟨hp, hd⟩ := hq.pubs
  refine ⟨h.books.quiet hq ht, ?_, fun p hm => ?_, hp ▸ h.le⟩
  · rw [hp, hd]
    exact h.sunk
  · exact (h.proven p (hp ▸ hm)).mono hq.grows

theorem Silent.tally {r r' : Rd} (h : Silent r r') : r'.st.tally = r.st.tally := by
  unfold Stats.tally
  rw [h.account]

/-- The hard sectors of a chunk. -/
def ChunkState.hard_count (k : ChunkState) : Nat := (List.range k.n).countP k.hard

/-- A chunk held back, where it comes in the request. -/
structure Pending (c : Cfg) (r : Rd) (k : ChunkState) : Prop where
  ready : Ready c r.log k
  witnessed : 1 < c.passes → k.witnessed = true
  lba : k.lba = u32 (c.req.lba.toNat + (pubs r.log).length)
  le : (pubs r.log).length + k.n ≤ c.req.count.toNat

theorem Pending.advance {w w' : Work} (h : Pending c w.r w.k) (ha : Advance c w w')
    (hr : Ready c w'.r.log w'.k) (hw : 1 < c.passes → w'.k.witnessed = true) : Pending c w'.r w'.k := by
  have hp := ha.silent.pubs.1
  exact ⟨hr, hw, by rw [ha.same.lba, hp]; exact h.lba, by rw [ha.same.n, hp]; exact h.le⟩

/-- A pending chunk while another is read. -/
theorem Pending.quiet {r' : Rd} (h : Pending c r k) (hq : Quiet r r') : Pending c r' k :=
  ⟨h.ready.mono hq.grows, h.witnessed, by rw [hq.pubs.1]; exact h.lba, by rw [hq.pubs.1]; exact h.le⟩

theorem countP_hard_pubs (k : ChunkState) : ((List.range k.n).map (k.pub c.sector_len)).countP Pub.hard =
    k.hard_count := by
  rw [List.countP_map]
  refine countP_range_congr fun i _ => ?_
  rw [Function.comp_apply, Bool.eq_iff_iff]
  unfold Pub.hard
  rw [beq_iff_eq]
  exact (k.sector c.sector_len i).state_hard

/-- **Delivering a chunk**: it is published, and the run goes on. -/
theorem deliver_spec (hL : c.sector_len < 2 ^ 32) (hrun : Run c sink r) (hpend : Pending c r k) :
    Run c sink (publish c sink r k).1 ∧
      (pubs (publish c sink r k).1.log).length = (pubs r.log).length + k.n ∧
      ((publish c sink r k).1.st.hard_errors = r.st.hard_errors) ∧
      (pubs (publish c sink r k).1.log).countP Pub.hard = (pubs r.log).countP Pub.hard + k.hard_count ∧
      r.log <+: (publish c sink r k).1.log := by
  have hcount := c.req.count.toNat_lt
  have h := publish_spec (c := c) (r := r) (k := k) sink hL hpend.ready.counted hrun.books hpend.lba
    (Nat.lt_of_le_of_lt hpend.le hcount)
  have hlen : (pubs (publish c sink r k).1.log).length = (pubs r.log).length + k.n := by
    simp [h.sectors]
  refine ⟨⟨h.books, ?_, fun p hp => ?_, hlen ▸ hpend.le⟩, hlen, h.hard_errors, ?_, h.grows⟩
  · rw [h.sunk, hrun.sunk, h.sectors]
    split
    · rfl
    · rw [List.map_append, List.map_map]
      rfl
  · rw [h.sectors] at hp
    rcases List.mem_append.1 hp with hp | hp
    · exact (hrun.proven p hp).mono h.grows
    · obtain ⟨s, hs, rfl⟩ := List.mem_map.1 hp
      have hr := hpend.ready.mono h.grows
      have hs := List.mem_range.1 hs
      exact ⟨_, rfl, rfl, hr.held s hs, hr.counted s hs, hr.verified s hs⟩
  · rw [h.sectors, List.countP_append, countP_hard_pubs]

/-! ## The invariant -/

/-- The sectors of a chunk held back. -/
def pending (f : ChunkState → Nat) (k : ChunkState) : Nat := if k.live then f k else 0

/-- **The loop's invariant**: what is published and what is held back are, together, the sectors before
the loop's LBA. -/
structure LoopInv (c : Cfg) (sink : Nat) (l : Loop) : Prop where
  run : Run c sink l.r
  total : (pubs l.r.log).length + pending ChunkState.n l.pend + l.remaining = c.req.count.toNat
  lba : l.lba = u32 (c.req.lba.toNat + ((pubs l.r.log).length + pending ChunkState.n l.pend))
  hard : l.r.st.hard_errors =
    (pubs l.r.log).countP Pub.hard + pending ChunkState.hard_count l.pend
  pend : l.pend.live = true → Pending c l.r l.pend
  seam : Seam.Ok c l.r.log l.lba ⟨l.prev_ext, l.prev_ext_hard, l.prev_ext_n⟩
  prev_ext : c.overlap ≠ 0 → l.prev_ext ≠ none

/-- One turn of the loop: the chunk it reads, as each stage leaves it, and the two chunks as they are
widened. -/
structure Turn where
  n : Nat
  ext : Nat
  seam : Seam
  placed : Work
  compared : Work
  checked : Work
  settled : Work
  seam_bad : Bool
  c2_trig : Bool
  pend : Work
  cur : Work

/-- The turn that the loop takes, when it is not cancelled. -/
def Loop.turn (c : Cfg) (l : Loop) : Turn :=
  let n := if l.remaining < c.chunk then l.remaining else c.chunk
  let ext :=
    if c.overlap ≠ 0 ∧ l.remaining > n then
      if l.remaining - n < c.overlap then l.remaining - n else c.overlap
    else 0
  let seam : Seam := ⟨l.prev_ext, l.prev_ext_hard, l.prev_ext_n⟩
  let begun : Work := ⟨l.r, chunk_begin l.cur l.lba n⟩
  let placed := qpos_check c (chunk_read c begun ext)
  let (settled, seam_bad, hit) := chunk_settle c seam begun ext
  let c2_trig := decide (c.req.c2_witness ≠ 0) && hit
  let pend := widen c ⟨settled.r, l.pend⟩ ((seam_bad || c2_trig) && l.pend.live)
  { n, ext, seam, placed, settled, seam_bad, c2_trig, pend
    compared := (seam_check c seam placed).1
    checked := chunk_checks c seam begun ext
    cur := widen c ⟨pend.r, settled.k⟩ (seam_bad || c2_trig || l.witness_next) }

/-- One chunk is one turn, and the delivery of the chunk held back. -/
theorem chunk_step_eq (l : Loop) : chunk_step c sink l =
    let t := l.turn c
    if c.req.cancel ≠ 0 ∧ c.env.cancel l.r.cmds then
      ({ l with cur := chunk_begin l.cur l.lba t.n }, ACCUDISC_ERR_CANCELLED)
    else
      let (p, rc) := deliver c sink ⟨t.cur.r, t.pend.k⟩
      if rc ≠ 0 then ({ l with r := p.r, cur := t.cur.k, pend := p.k }, ACCUDISC_ERR_CANCELLED)
      else
        ({ r := p.r
           cur := p.k
           pend := { t.cur.k with live := true }
           prev_ext := l.prev_ext.map fun m =>
             if t.ext ≠ 0 then memcpy m 0 t.cur.k.buf (t.n * c.sector_len) (t.ext * c.sector_len) else m
           prev_ext_hard := fun s =>
             if s < t.ext then t.cur.k.hard (t.n + s) else l.prev_ext_hard s
           prev_ext_n := t.ext
           lba := u32 (l.lba + t.n)
           remaining := l.remaining - t.n
           witness_next := t.c2_trig }, ACCUDISC_OK) := rfl

/-- The widening of the chunk held back. -/
theorem widen_pending {w : Work} (want : Bool) (h : w.k.live = true → Pending c w.r w.k) :
    Advance c w (widen c w (want && w.k.live)) ∧
      (w.k.live = true → Pending c (widen c w (want && w.k.live)).r (widen c w (want && w.k.live)).k) := by
  cases hl : w.k.live with
  | false =>
    rw [Bool.and_false]
    exact ⟨.refl w, nofun⟩
  | true =>
    rw [Bool.and_true]
    have hp := h hl
    obtain ⟨ha, hr, hw⟩ := widen_spec want hp.ready hp.witnessed
    exact ⟨ha, fun _ => hp.advance ha hr hw⟩

/-- The extension of a chunk is the seam of the next. -/
theorem seam_next {log : List ReadEvent} {prev_ext : Option Mem} {prev_hard : Nat → Bool} {ext : Nat}
    (h : ExtOk c log k ext) (hprev : ext ≠ 0 → prev_ext ≠ none) :
    Seam.Ok c log (u32 (k.lba + k.n)) ⟨prev_ext.map fun m =>
      if ext ≠ 0 then memcpy m 0 k.buf (k.n * c.sector_len) (ext * c.sector_len) else m,
      fun s => if s < ext then k.hard (k.n + s) else prev_hard s, ext⟩ := by
  intro s hs hh
  simp only at hs hh
  rw [if_pos hs] at hh
  have h0 : ext ≠ 0 := Nat.ne_of_gt (Nat.lt_of_le_of_lt (Nat.zero_le s) hs)
  obtain ⟨m, hm⟩ := Option.ne_none_iff_exists'.1 (hprev h0)
  refine ⟨_, by rw [hm]; rfl, ?_⟩
  have hrec := record_memcpy (L := c.sector_len) m k.buf 0 k.n ext s
  rw [Nat.zero_mul, if_pos ⟨Nat.zero_le s, by simpa using hs⟩, Nat.sub_zero] at hrec
  simp only [if_pos h0]
  rw [hrec, u32_add, Nat.add_assoc]
  exact h s hs hh

theorem ExtOk.mono {log log' : List ReadEvent} {ext : Nat} (h : ExtOk c log k ext) (hl : log <+: log') :
    ExtOk c log' k ext := fun s hs hh => (h s hs hh).mono hl

theorem Advance.hard_count {w w' : Work} (ha : Advance c w w') : w'.k.hard_count = w.k.hard_count := by
  unfold ChunkState.hard_count
  rw [ha.same.n, ha.same.hard]

/-- What delivering the chunk held back comes to. -/
structure Delivered (c : Cfg) (sink : Nat) (w : Work) (x : Work × Int) : Prop where
  grows : w.r.log <+: x.1.r.log
  run : Run c sink x.1.r
  length : (pubs x.1.r.log).length = (pubs w.r.log).length + pending ChunkState.n w.k
  hard_errors : x.1.r.st.hard_errors = w.r.st.hard_errors
  hard : (pubs x.1.r.log).countP Pub.hard = (pubs w.r.log).countP Pub.hard +
    pending ChunkState.hard_count w.k

theorem deliver_pending {w : Work} (hL : c.sector_len < 2 ^ 32) (hrun : Run c sink w.r)
    (hp : w.k.live = true → Pending c w.r w.k) : Delivered c sink w (deliver c sink w) := by
  unfold deliver
  split
  · rename_i hl
    have hl : w.k.live = false := by simpa using hl
    exact ⟨List.prefix_refl _, hrun, by simp [pending, hl], rfl, by simp [pending, hl]⟩
  · rename_i hl
    have hl : w.k.live = true := by simpa using hl
    obtain ⟨h₁, h₂, h₃, h₄, h₅⟩ := deliver_spec hL hrun (hp hl)
    exact ⟨h₅, h₁, by rw [h₂, pending, if_pos hl], h₃, by rw [h₄, pending, if_pos hl]⟩

theorem Ready.live {log : List ReadEvent} (h : Ready c log k) : Ready c log { k with live := true } :=
  ⟨h.held, h.counted, h.verified, h.prim⟩

/-- What a turn comes to, up to the delivery of the chunk held back. -/
structure TurnSpec (c : Cfg) (l : Loop) (t : Turn) : Prop where
  n_pos : 0 < t.n
  n_le : t.n ≤ l.remaining
  overlap : t.ext ≠ 0 → c.overlap ≠ 0
  quiet : Quiet l.r t.cur.r
  tally : t.cur.r.st.tally = l.r.st.tally
  hard_errors : t.cur.r.st.hard_errors = l.r.st.hard_errors + t.cur.k.hard_count
  pend_same : SameChunk l.pend t.pend.k
  pend : l.pend.live = true → Pending c t.cur.r t.pend.k
  lba : t.cur.k.lba = l.lba
  n : t.cur.k.n = t.n
  ready : Ready c t.cur.r.log t.cur.k
  witnessed : 1 < c.passes → t.cur.k.witnessed = true
  ext : ExtOk c t.cur.r.log t.cur.k t.ext
  watched : 0 < c.retries → Watched c t.cur.r.log t.checked.k t.cur.k ∧
    ((t.seam_bad || t.c2_trig || l.witness_next) = true → t.cur.k.witnessed = true)
  pend_watched : 0 < c.retries → l.pend.live = true → ∀ k₀, Watched c l.r.log k₀ l.pend →
    Watched c t.cur.r.log k₀ t.pend.k ∧
      ((t.seam_bad || t.c2_trig) = true ∨ l.pend.witnessed = true → t.pend.k.witnessed = true)

theorem turn_spec {l : Loop} (h : LoopInv c sink l) (hrem : 0 < l.remaining) : TurnSpec c l (l.turn c) := by
  unfold Loop.turn
  simp only
  generalize hn : (if l.remaining < c.chunk then l.remaining else c.chunk) = n
  generalize hext : (if c.overlap ≠ 0 ∧ l.remaining > n then
    if l.remaining - n < c.overlap then l.remaining - n else c.overlap else 0) = ext
  have hn0 : 0 < n ∧ n ≤ l.remaining := by
    have := c.chunk_pos
    rw [← hn]
    split <;> omega
  have hext0 : ext ≠ 0 → c.overlap ≠ 0 := fun h0 hov => h0 (by rw [← hext, if_neg fun h => h.1 hov])
  have hchecked := chunk_checks_spec (c := c) (w := ⟨l.r, chunk_begin l.cur l.lba n⟩)
    ⟨l.prev_ext, l.prev_ext_hard, l.prev_ext_n⟩ ext (fun _ _ => rfl) (fun _ _ => rfl) h.seam
  have hwatch := fun hr => verify_passes_watched (c := c) hr
    (chunk_checks_witnessed (c := c) ⟨l.prev_ext, l.prev_ext_hard, l.prev_ext_n⟩
      ⟨l.r, chunk_begin l.cur l.lba n⟩ ext) hchecked.held hchecked.counted hchecked.prim
  obtain ⟨hq, hlba, hnn, hacc, hready, hwit, hex⟩ := chunk_settle_spec (c := c)
    (w := ⟨l.r, chunk_begin l.cur l.lba n⟩) ⟨l.prev_ext, l.prev_ext_hard, l.prev_ext_n⟩ ext
    (fun _ _ => rfl) (fun _ _ => rfl) h.seam
  rw [← chunk_settle_work] at hwatch
  generalize chunk_settle c ⟨l.prev_ext, l.prev_ext_hard, l.prev_ext_n⟩
    ⟨l.r, chunk_begin l.cur l.lba n⟩ ext =
    x at hq hlba hnn hacc hready hwit hex hwatch ⊢
  obtain ⟨w₀, seam_bad, hit⟩ := x
  simp only at hq hlba hnn hacc hready hwit hex hwatch ⊢
  have hlba : w₀.k.lba = l.lba := hlba
  have hnn : w₀.k.n = n := hnn
  have htally : w₀.r.st.tally = l.r.st.tally := by
    unfold Stats.tally
    rw [hacc]
  have hherr : w₀.r.st.hard_errors = l.r.st.hard_errors + w₀.k.hard_count := by
    have := congrArg Stats.hard_errors hacc
    simp only [Stats.account] at this
    rw [this, ChunkState.hard_count, hnn]
    rfl
  generalize (decide (c.req.c2_witness ≠ 0) && hit) = c2_trig
  -- The chunk held back, widened.
  obtain ⟨hap, hpend⟩ := widen_pending (c := c) (w := ⟨w₀.r, l.pend⟩) (seam_bad || c2_trig)
    fun hl => (h.pend hl).quiet hq
  have hpwatch := fun hr hl k₀ (hk : Watched c l.r.log k₀ l.pend) =>
    widen_watched (w := ⟨w₀.r, l.pend⟩) hr ((seam_bad || c2_trig) && l.pend.live)
      (hk.mono hq.grows) (((h.pend hl).quiet hq).ready)
  generalize widen c ⟨w₀.r, l.pend⟩ ((seam_bad || c2_trig) && l.pend.live) = p at hap hpend hpwatch ⊢
  -- This one, widened.
  obtain ⟨haw, hready', hwit'⟩ := widen_spec (c := c) (w := ⟨p.r, w₀.k⟩)
    (seam_bad || c2_trig || l.witness_next) (hready.mono hap.silent.grows) hwit
  have hcwatch := fun hr => widen_watched (w := ⟨p.r, w₀.k⟩) hr (seam_bad || c2_trig || l.witness_next)
    ((hwatch hr).mono hap.silent.grows) (hready.mono hap.silent.grows)
  generalize widen c ⟨p.r, w₀.k⟩ (seam_bad || c2_trig || l.witness_next) = w at haw hready' hwit' hcwatch ⊢
  have hqw : Quiet l.r w.r := (hq.trans hap.silent.toQuiet).trans haw.silent.toQuiet
  have hsil : w.r.st.hard_errors = w₀.r.st.hard_errors := by
    have := congrArg Stats.hard_errors (haw.silent.account.trans hap.silent.account)
    exact this
  have hcount : w.k.hard_count = w₀.k.hard_count := haw.hard_count
  refine ⟨hn0.1, hn0.2, hext0, hqw, (haw.silent.tally.trans hap.silent.tally).trans htally, ?_, hap.same,
    fun hl => (hpend hl).quiet haw.silent.toQuiet, haw.same.lba.trans hlba, haw.same.n.trans hnn,
    hready', hwit', (hex.mono hap.silent.grows).advance (w := ⟨p.r, w₀.k⟩) haw, fun hr =>
      ?_, fun hr hl k₀ hk => ?_⟩
  · rw [hsil, hcount]
    exact hherr
  · exact (hcwatch hr).imp_right fun hw hwant => hw (.inl hwant)
  · obtain ⟨hk', hw⟩ := hpwatch hr hl k₀ hk
    exact ⟨hk'.mono haw.silent.grows, fun hor => hw (hor.imp_left fun hb => by rw [hb, hl]; rfl)⟩

/-- **One chunk keeps the invariant**, and takes the loop on. -/
theorem chunk_step_inv (hL : c.sector_len < 2 ^ 32) {l : Loop} (h : LoopInv c sink l)
    (hrem : 0 < l.remaining) :
    Run c sink (chunk_step c sink l).1.r ∧ ((chunk_step c sink l).2 = ACCUDISC_OK →
      LoopInv c sink (chunk_step c sink l).1 ∧ (chunk_step c sink l).1.remaining < l.remaining) := by
  have ht := turn_spec h hrem
  rw [chunk_step_eq]
  simp only
  generalize l.turn c = t at ht ⊢
  split
  · exact ⟨h.run, fun hrc => absurd hrc (show ¬ACCUDISC_ERR_CANCELLED = ACCUDISC_OK by decide)⟩
  have hpn : pending ChunkState.n t.pend.k = pending ChunkState.n l.pend := by
    unfold pending
    rw [ht.pend_same.live, ht.pend_same.n]
  have hph : pending ChunkState.hard_count t.pend.k = pending ChunkState.hard_count l.pend := by
    unfold pending ChunkState.hard_count
    rw [ht.pend_same.live, ht.pend_same.n, ht.pend_same.hard]
  have hdel := deliver_pending (c := c) (w := ⟨t.cur.r, t.pend.k⟩) hL (h.run.quiet ht.quiet ht.tally)
    fun hl => ht.pend (ht.pend_same.live ▸ hl)
  generalize deliver c sink ⟨t.cur.r, t.pend.k⟩ = x at hdel ⊢
  obtain ⟨d, rc⟩ := x
  simp only at hdel ⊢
  obtain ⟨hgrows, hrun, hlen, hherr, hhard⟩ := hdel
  simp only at hgrows hrun hlen hherr hhard
  rw [ht.quiet.pubs.1, hpn] at hlen
  rw [ht.quiet.pubs.1, hph] at hhard
  split
  · exact ⟨hrun, fun hrc => absurd hrc (show ¬ACCUDISC_ERR_CANCELLED = ACCUDISC_OK by decide)⟩
  have htotal := h.total
  have hn := ht.n
  have hle := ht.n_le
  have hpos := ht.n_pos
  refine ⟨hrun, fun _ => ⟨⟨hrun, ?_, ?_, ?_, fun _ => ?_, ?_, fun hov => ?_⟩, ?_⟩⟩
  · change (pubs d.r.log).length + t.cur.k.n + (l.remaining - t.n) = _
    omega
  · change u32 (l.lba + t.n) = u32 (c.req.lba.toNat + ((pubs d.r.log).length + t.cur.k.n))
    rw [h.lba, u32_add, hlen, hn, Nat.add_assoc]
  · have hh := h.hard
    have hbooks := ht.hard_errors
    change d.r.st.hard_errors = (pubs d.r.log).countP Pub.hard + t.cur.k.hard_count
    omega
  · refine ⟨(ht.ready.mono hgrows).live, ht.witnessed, ?_, ?_⟩
    · change t.cur.k.lba = u32 (c.req.lba.toNat + (pubs d.r.log).length)
      rw [ht.lba, h.lba, hlen]
    · change (pubs d.r.log).length + t.cur.k.n ≤ _
      omega
  · have := @seam_next c t.cur.k d.r.log l.prev_ext l.prev_ext_hard t.ext (ht.ext.mono hgrows)
      fun h0 => h.prev_ext (ht.overlap h0)
    rw [ht.lba, hn] at this
    exact this
  · have := h.prev_ext hov
    simpa using this
  · change l.remaining - t.n < l.remaining
    omega

/-- **The loop keeps the invariant**, and ends with nothing left. -/
theorem chunk_loop_inv (hL : c.sector_len < 2 ^ 32) {fuel : Nat} {l : Loop} (h : LoopInv c sink l)
    (hfuel : l.remaining ≤ fuel) :
    Run c sink (chunk_loop c sink fuel l).1.r ∧ ((chunk_loop c sink fuel l).2 = ACCUDISC_OK →
      LoopInv c sink (chunk_loop c sink fuel l).1 ∧ (chunk_loop c sink fuel l).1.remaining = 0) := by
  induction fuel generalizing l with
  | zero => exact ⟨h.run, fun _ => ⟨h, Nat.eq_zero_of_le_zero hfuel⟩⟩
  | succ fuel ih =>
    unfold chunk_loop
    split
    · rename_i h0
      exact ⟨h.run, fun _ => ⟨h, h0⟩⟩
    · rename_i h0
      obtain ⟨hrun, hok⟩ := chunk_step_inv hL h (Nat.pos_of_ne_zero h0)
      generalize chunk_step c sink l = x at hrun hok
      obtain ⟨l', rc⟩ := x
      simp only at hrun hok ⊢
      split
      · rename_i hrc
        exact ⟨hrun, fun h => absurd h hrc⟩
      · rename_i hrc
        obtain ⟨hinv, hlt⟩ := hok (not_not.1 hrc)
        exact ih hinv (by omega)

/-- The books of a call that has not begun. -/
theorem start_run : Run c sink c.start := by
  have hst : c.start.st = c.speed_stats := rfl
  have hacc : Account c [] c.start.st := by
    rw [hst]
    unfold Cfg.speed_stats
    split <;> exact ⟨rfl, rfl, rfl, rfl, rfl, rfl, rfl, rfl, by simp, by simp⟩
  refine ⟨⟨nofun, ?_, fun _ => nofun, fun _ _ => nofun, hacc⟩, ?_, nofun, Nat.zero_le _⟩
  · split <;> rfl
  · split <;> rfl

theorem loop_start_inv : LoopInv c sink c.loop_start := by
  refine ⟨start_run, ?_, ?_, ?_, nofun, fun s hs => absurd hs (Nat.not_lt_zero s), fun hov => ?_⟩
  · simp [Cfg.loop_start, Cfg.start, Cfg.slot, pending, pubs]
  · simp only [Cfg.loop_start, Cfg.start, Cfg.slot, pending, pubs, List.filterMap_nil, List.length_nil,
      Bool.false_eq_true, if_false, Nat.add_zero]
    exact (u32_of_lt c.req.lba.toNat_lt).symm
  · simp only [Cfg.loop_start, Cfg.start, Cfg.slot, Cfg.speed_stats, pending]
    split <;> rfl
  · simp [Cfg.loop_start, hov]

/-- **The whole read**: whatever it returns, a run; on success, all of the request. -/
theorem read_chunks_run (sink : Nat) (hL : c.sector_len < 2 ^ 32) :
    Run c sink (read_chunks c sink).1 ∧ ((read_chunks c sink).2 = ACCUDISC_OK →
      (pubs (read_chunks c sink).1.log).length = c.req.count.toNat ∧
      (read_chunks c sink).1.st.hard_errors = (pubs (read_chunks c sink).1.log).countP Pub.hard) := by
  obtain ⟨hrun, hok⟩ := chunk_loop_inv hL (loop_start_inv : LoopInv c sink c.loop_start)
    (Nat.le_refl c.loop_start.remaining)
  unfold read_chunks
  change Run c sink (chunk_loop c sink c.req.count.toNat c.loop_start).1.r at hrun
  change (chunk_loop c sink c.req.count.toNat c.loop_start).2 = ACCUDISC_OK →
    LoopInv c sink (chunk_loop c sink c.req.count.toNat c.loop_start).1 ∧
      (chunk_loop c sink c.req.count.toNat c.loop_start).1.remaining = 0 at hok
  generalize chunk_loop c sink c.req.count.toNat c.loop_start = x at hrun hok ⊢
  obtain ⟨l, rc⟩ := x
  simp only at hrun hok ⊢
  split
  · rename_i hrc
    exact ⟨hrun, fun h => absurd h hrc⟩
  rename_i hrc
  obtain ⟨hinv, hrem⟩ := hok (not_not.1 hrc)
  have hdel := deliver_pending (c := c) (w := ⟨l.r, l.pend⟩) hL hinv.run hinv.pend
  generalize deliver c sink ⟨l.r, l.pend⟩ = y at hdel ⊢
  obtain ⟨p, rc'⟩ := y
  simp only at hdel ⊢
  split
  · exact ⟨hdel.run, fun h => absurd h (show ¬ACCUDISC_ERR_CANCELLED = ACCUDISC_OK by decide)⟩
  · have hidle := ladder_restore_idle (c := c) (r := p.r)
    have hp := hidle.toQuiet.pubs.1
    have hh : (ladder_restore c p.r).st.hard_errors = p.r.st.hard_errors := by
      have := congrArg Stats.hard_errors hidle.account
      exact this
    have hlen := hdel.length
    have hhard := hdel.hard
    have hherr := hdel.hard_errors
    have htotal := hinv.total
    have hinvh := hinv.hard
    simp only at hlen hhard hherr
    refine ⟨hdel.run.quiet hidle.toQuiet hidle.toSilent.tally, fun _ => ⟨?_, ?_⟩⟩
    · simp only [hp]
      omega
    · simp only [hp, hh]
      omega

end Accudisc
