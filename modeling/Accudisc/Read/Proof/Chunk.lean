import Accudisc.Read.Proof.Settle

/-!
# A chunk, sector by sector

Each stage of a chunk goes over its sectors and changes one at a time (`StepAt`, `sweep`). What a stage
can make of a sector is stated once (`qpos_check_spec`, `seam_check_spec`, `c2_rescue_chunk_spec`,
`witness_pass_spec`); what every stage keeps of a sector follows (`Sound`, `Placed`, `Counted`,
`Verified`).
-/

namespace Accudisc

/-- What the engine holds of one sector. -/
structure Sector where
  data : Mem
  hard : Bool
  recov : Bool
  susp : Bool
  att : Nat
  bits : Nat
  diffb : Nat

def ChunkState.sector (L : Nat) (k : ChunkState) (s : Nat) : Sector :=
  ⟨record L k.buf s, k.hard s, k.recov s, k.susp s, k.att s, k.bits s, k.diffb s⟩

/-- What no stage changes of a chunk. -/
structure SameChunk (k k' : ChunkState) : Prop where
  live : k'.live = k.live
  lba : k'.lba = k.lba
  n : k'.n = k.n
  prim : k'.prim = k.prim
  hard : k'.hard = k.hard

theorem SameChunk.refl (k : ChunkState) : SameChunk k k := ⟨rfl, rfl, rfl, rfl, rfl⟩

theorem SameChunk.trans {k k' k'' : ChunkState} (h : SameChunk k k') (h' : SameChunk k' k'') :
    SameChunk k k'' :=
  ⟨h'.live.trans h.live, h'.lba.trans h.lba, h'.n.trans h.n,
    h'.prim.trans h.prim, h'.hard.trans h.hard⟩

/-- The step from `w` to `w'` is about sector `s`, and does `R` to it. -/
structure StepAt (c : Cfg) (s : Nat) (R : List ReadEvent → Sector → Sector → Prop) (w w' : Work) :
    Prop where
  silent : Silent w.r w'.r
  same : SameChunk w.k w'.k
  other : ∀ t, t ≠ s → w'.k.sector c.sector_len t = w.k.sector c.sector_len t
  at_sector : R w'.r.log (w.k.sector c.sector_len s) (w'.k.sector c.sector_len s)

/-- A stage has gone over the first `n` sectors, and done `R` to each. -/
structure Swept (c : Cfg) (n : Nat) (R : List ReadEvent → Nat → Sector → Sector → Prop) (w w' : Work) :
    Prop where
  silent : Silent w.r w'.r
  same : SameChunk w.k w'.k
  beyond : ∀ s, n ≤ s → w'.k.sector c.sector_len s = w.k.sector c.sector_len s
  each : ∀ s < n, R w'.r.log s (w.k.sector c.sector_len s) (w'.k.sector c.sector_len s)

variable {c : Cfg}

/-- A step of the work on a chunk: it publishes nothing, and the sectors past the chunk stay. -/
structure Advance (c : Cfg) (w w' : Work) : Prop where
  silent : Silent w.r w'.r
  same : SameChunk w.k w'.k
  beyond : ∀ s, w.k.n ≤ s → w'.k.sector c.sector_len s = w.k.sector c.sector_len s

theorem Advance.refl (w : Work) : Advance c w w := ⟨.refl w.r, .refl w.k, fun _ _ => rfl⟩

theorem Advance.trans {w w' w'' : Work} (h : Advance c w w') (h' : Advance c w' w'') : Advance c w w'' :=
  ⟨h.silent.trans h'.silent, h.same.trans h'.same,
    fun s hs => (h'.beyond s (h.same.n ▸ hs)).trans (h.beyond s hs)⟩

theorem Swept.advance {R : List ReadEvent → Nat → Sector → Sector → Prop} {w w' : Work}
    (h : Swept c w.k.n R w w') : Advance c w w' := ⟨h.silent, h.same, h.beyond⟩

/-- A relation that holds as the log grows. -/
def Grows (R : List ReadEvent → Nat → Sector → Sector → Prop) : Prop :=
  ∀ {log log' s x y}, R log s x y → log <+: log' → R log' s x y

/-- One more sector. -/
theorem Swept.step {R : List ReadEvent → Nat → Sector → Sector → Prop} {n : Nat} {w w' w'' : Work}
    (h : Swept c n R w w') (hR : Grows R) (hst : StepAt c n (R · n) w' w'') : Swept c (n + 1) R w w'' := by
  refine ⟨h.silent.trans hst.silent, h.same.trans hst.same, fun s hs => ?_, fun s hs => ?_⟩
  · exact (hst.other s (by omega)).trans (h.beyond s (by omega))
  · rcases Nat.lt_succ_iff_lt_or_eq.1 hs with hs | rfl
    · rw [hst.other s (by omega)]
      exact hR (h.each s hs) hst.silent.grows
    · have := hst.at_sector
      rwa [h.beyond s (Nat.le_refl s)] at this

/-- **Sweep rule**: what each step does to its sector, the loop does to every one. -/
theorem sweep {R : List ReadEvent → Nat → Sector → Sector → Prop} {f : Work → Nat → Work} {n : Nat}
    {w : Work} (hR : Grows R) (hf : ∀ w' s, s < n → Silent w.r w'.r → SameChunk w.k w'.k →
      w'.k.sector c.sector_len s = w.k.sector c.sector_len s → StepAt c s (R · s) w' (f w' s)) :
    Swept c n R w ((List.range n).foldl f w) :=
  Loop.foldl_range_inv (fun i w' => Swept c i R w w') ⟨.refl w.r, .refl w.k, fun _ _ => rfl, nofun⟩
    fun i hi w' h => h.step hR (hf w' i hi h.silent h.same (h.beyond i (Nat.le_refl i)))

/-! ## Settling a sector of a chunk -/

/-- A settlement of `x` on the evidence `Ev`: a copy replaces it, or it is suspect. -/
inductive SettledTo (Ev : Mem → Prop) (x : Sector) : Sector → Prop where
  | replaced {data : Mem} {att : Nat} : Ev data → SettledTo Ev x { x with data, recov := true, att }
  | suspect : SettledTo Ev x { x with susp := true }

theorem SettledTo.mono {Ev Ev' : Mem → Prop} {x y : Sector} (h : SettledTo Ev x y)
    (hEv : ∀ z, Ev z → Ev' z) : SettledTo Ev' x y := by
  cases h with
  | replaced h => exact .replaced (hEv _ h)
  | suspect => exact .suspect

/-- The verdict of a settlement. -/
theorem settle_spec {w : Work} {s : Nat} {Ev : List ReadEvent → Mem → Prop} {x : Settled}
    (h : Settles c w.r w.k.buf s Ev x) :
    StepAt c s (fun log => SettledTo (Ev log)) w (settle w s x) := by
  refine ⟨h.silent, ⟨rfl, rfl, rfl, rfl, rfl⟩, fun t ht => ?_, ?_⟩
  · unfold settle ChunkState.sector
    simp only
    rw [h.other t ht]
    split <;> simp [Function.update_of_ne ht]
  · unfold settle ChunkState.sector
    simp only
    by_cases hok : x.ok = true
    · simp only [if_pos hok, Function.update_self]
      exact .replaced (h.accepted hok)
    · simp only [if_neg hok, Function.update_self]
      rw [h.kept (by simpa using hok)]
      exact .suspect

/-- A step that first notes the difference of sector `s`. -/
theorem StepAt.diffb {w w' : Work} {s d : Nat} {r : Rd} (hr : Silent w.r r)
    {R : List ReadEvent → Sector → Sector → Prop}
    (h : StepAt c s R ⟨r, { w.k with diffb := Function.update w.k.diffb s d }⟩ w') :
    StepAt c s (fun log x y => R log { x with diffb := d } y) w w' := by
  have hsame : SameChunk w.k { w.k with diffb := Function.update w.k.diffb s d } :=
    ⟨rfl, rfl, rfl, rfl, rfl⟩
  refine ⟨hr.trans h.silent, hsame.trans h.same, fun t ht => ?_, ?_⟩
  · refine (h.other t ht).trans ?_
    simp [ChunkState.sector, Function.update_of_ne ht]
  · have := h.at_sector
    simpa [ChunkState.sector] using this

/-- Nothing happens to sector `s`. -/
theorem StepAt.skip {w : Work} {s : Nat} {R : List ReadEvent → Sector → Sector → Prop}
    (h : R w.r.log (w.k.sector c.sector_len s) (w.k.sector c.sector_len s)) : StepAt c s R w w :=
  ⟨.refl w.r, .refl w.k, fun _ _ => rfl, h⟩

theorem StepAt.weaken {w w' : Work} {s : Nat} {R R' : List ReadEvent → Sector → Sector → Prop}
    (h : StepAt c s R w w')
    (hR : ∀ y, R w'.r.log (w.k.sector c.sector_len s) y → R' w'.r.log (w.k.sector c.sector_len s) y) :
    StepAt c s R' w w' := ⟨h.silent, h.same, h.other, hR _ h.at_sector⟩

/-! ## What a sector keeps -/

section
variable (c)

/-- A sector is a good transfer's copy of itself, or hard and zero-filled. -/
structure Sound (log : List ReadEvent) (lba : Nat) (x : Sector) : Prop where
  copy : x.hard = false → Copy c.sector_len log Stage.Reads lba x.data
  filled : x.hard = true → x.data = synthetic c

/-- No answer to a reread names another LBA with what a rescue asks of a copy: the audio of an earlier
copy; a corroborated neighbour, twice with the same audio; or a corroborated neighbour and fewer C2 bits. -/
structure Fine (answers : List ReadEvent) : Prop where
  repeated : ∀ p lba x, Repeated c.sector_len answers p lba x → misplaced (record_q c x 0) lba = false
  anchored : ∀ p lba x, Anchored c.sector_len answers p lba x → misplaced (record_q c x 0) lba = false
  cleaner : ∀ lba x, Cleaner c answers lba x → misplaced (record_q c x 0) lba = false

/-- A sector that names another LBA is suspect, where the answers are fine. -/
def Placed (log : List ReadEvent) (lba : Nat) (x : Sector) : Prop :=
  c.sub_len = ACCUDISC_BYTES_SUB_RAW → Fine c (wire log) → x.hard = false →
    misplaced (record_q c x.data 0) lba = true → x.susp = true

/-- A sector's bits are its record's. -/
def Counted (x : Sector) : Prop := x.hard = false → x.bits = record_bits c x.data 0

/-- What verify passes 2 to `p` show of a sector that is not suspect: each confirmed it, or the last of
them did, or accepted its replacement. -/
structure Verified (log : List ReadEvent) (p lba : Nat) (x : Sector) : Prop where
  clean : x.hard = false → x.susp = false → x.recov = false →
    ∀ q, 2 ≤ q → q ≤ p → Confirmed c.sector_len log (.verify q) lba x.data
  recov : x.hard = false → x.susp = false → x.recov = true → 2 ≤ p →
    Confirmed c.sector_len log (.verify p) lba x.data ∨ SettledBy c.sector_len (.verify p) lba log x.data

end

variable {log log' : List ReadEvent} {lba s : Nat} {x y : Sector}

theorem Sound.mono (h : Sound c log lba x) (hl : log <+: log') : Sound c log' lba x :=
  ⟨fun hh => (h.copy hh).mono hl, h.filled⟩

theorem Fine.anti (h : Fine c log') (hl : log <+: log') : Fine c log :=
  ⟨fun p lba x hx => h.repeated p lba x (hx.mono hl), fun p lba x hx => h.anchored p lba x (hx.mono hl),
    fun lba x hx => h.cleaner lba x (hx.mono hl)⟩

theorem Placed.mono (h : Placed c log lba x) (hl : log <+: log') : Placed c log' lba x :=
  fun hsub hf => h hsub (hf.anti (wire_mono hl))

theorem SettledBy.mono {L : Nat} {p : Pass} {z : Mem} (h : SettledBy L p lba log z) (hl : log <+: log') :
    SettledBy L p lba log' z := h.imp (·.mono hl) (·.mono hl)

theorem Verified.mono {p : Nat} (h : Verified c log p lba x) (hl : log <+: log') :
    Verified c log' p lba x :=
  ⟨fun hh hs hr q h2 hq => (h.clean hh hs hr q h2 hq).mono hl,
    fun hh hs hr h2 => (h.recov hh hs hr h2).imp (·.mono hl) (·.mono hl)⟩

theorem AcceptedBy.reads {L : Nat} {stage : Stage} {z : Mem} (h : AcceptedBy L log stage lba z)
    (hs : stage ≠ .flush) : Copy L log Stage.Reads lba z :=
  h.2.1.weaken fun _ he => he ▸ hs

theorem SettledBy.stage {L : Nat} {p : Pass} {z : Mem} (h : SettledBy L p lba log z) :
    ∃ stage, stage ≠ .flush ∧ AcceptedBy L log stage lba z := by
  rcases h with h | h
  · exact ⟨.consensus p, by simp, h⟩
  · exact ⟨.anchor p, by simp, h⟩

/-- What a settlement accepts is where it says, where the answers are fine. -/
theorem SettledBy.placed {p : Pass} {z : Mem} (h : SettledBy c.sector_len p lba log z)
    (hfine : Fine c (wire log)) : misplaced (record_q c z 0) lba = false := by
  rcases h with h | h
  · exact hfine.repeated p lba z (h.2.2.1 p rfl).repeated.wire
  · exact hfine.anchored p lba z (h.2.2.2 p rfl).wire

/-- What any stage can make of a sector: its record stays, or an accepted copy replaces it. -/
structure Moves (c : Cfg) (log : List ReadEvent) (lba : Nat) (x y : Sector) : Prop where
  hard : y.hard = x.hard
  susp : x.susp = true → y.susp = true
  data : y.data = x.data ∨ x.hard = false ∧ ∃ stage, stage ≠ .flush ∧
    (Fine c (wire log) → misplaced (record_q c y.data 0) lba = false) ∧
    AcceptedBy c.sector_len log stage lba y.data

theorem Moves.refl : Moves c log lba x x := ⟨rfl, id, .inl rfl⟩

theorem SettledTo.moves {p : Pass} {d : Nat} (hx : x.hard = false)
    (h : SettledTo (SettledBy c.sector_len p lba log) { x with diffb := d } y) :
    Moves c log lba x y := by
  cases h with
  | suspect => exact ⟨rfl, fun _ => rfl, .inl rfl⟩
  | replaced hev =>
    obtain ⟨stage, hf, ha⟩ := hev.stage
    exact ⟨rfl, id, .inr ⟨hx, stage, hf, hev.placed, ha⟩⟩

/-- What every stage keeps. -/
structure Held (c : Cfg) (log : List ReadEvent) (lba : Nat) (x : Sector) : Prop where
  sound : Sound c log lba x
  placed : Placed c log lba x

theorem Held.mono (h : Held c log lba x) (hl : log <+: log') : Held c log' lba x :=
  ⟨h.sound.mono hl, h.placed.mono hl⟩

theorem Held.move (h : Held c log lba x) (hl : log <+: log') (hm : Moves c log' lba x y) :
    Held c log' lba y := by
  obtain ⟨hhard, hsusp, hdata⟩ := hm
  have h' := h.mono hl
  rcases hdata with hdata | ⟨hx, stage, hf, hq, ha⟩
  · refine ⟨⟨fun hh => ?_, fun hh => ?_⟩, fun hsub hfine hh hm => ?_⟩
    · rw [hdata]
      exact h'.sound.copy (hhard ▸ hh)
    · rw [hdata]
      exact h'.sound.filled (hhard ▸ hh)
    · rw [hdata] at hm
      exact hsusp (h'.placed hsub hfine (hhard ▸ hh) hm)
  · refine ⟨⟨fun _ => ha.reads hf, fun hh => ?_⟩, fun _ hfine _ hm => ?_⟩
    · rw [hhard, hx] at hh
      cases hh
    · rw [hq hfine] at hm
      cases hm

/-- What holds of every sector of a chunk. -/
def ChunkState.All (L : Nat) (P : Nat → Sector → Prop) (k : ChunkState) : Prop :=
  ∀ s < k.n, P (u32 (k.lba + s)) (k.sector L s)

/-- A stage keeps what its moves keep. -/
theorem Swept.held {n : Nat} {R : List ReadEvent → Nat → Sector → Sector → Prop} {w w' : Work}
    (h : Swept c n R w w')
    (hR : ∀ s < n, ∀ x y, s < w.k.n → R w'.r.log s x y → Moves c w'.r.log (u32 (w.k.lba + s)) x y)
    (hw : w.k.All c.sector_len (Held c w.r.log)) :
    w'.k.All c.sector_len (Held c w'.r.log) := by
  intro s hs
  rw [h.same.n] at hs
  rw [h.same.lba]
  by_cases hn : s < n
  · exact (hw s hs).move h.silent.grows (hR s hn _ _ hs (h.each s hn))
  · rw [h.beyond s (Nat.le_of_not_lt hn)]
    exact (hw s hs).mono h.silent.grows

end Accudisc
