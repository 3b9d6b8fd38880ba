import Accudisc.Read.Proof.ChunkStep

/-!
# Publishing

What publishing a chunk adds to the maps, the counters and the log (`publish_sector_spec`,
`publish_spec`). `Books` is what the engine's books say of the sectors published so far.
-/

namespace Accudisc

variable {c : Cfg} {r : Rd} {k : ChunkState} {s : Nat}

/-! ## The state of a sector -/

/-- The status of a sector: hard, suspect, recovered, C2, ok. -/
def Sector.status (x : Sector) : BitVec 8 :=
  if x.hard then ACCUDISC_MAP_HARD
  else if x.susp then adsc_map_suspect_byte x.diffb
  else if x.recov then adsc_map_recovered_byte x.att
  else if x.bits ≠ 0 then adsc_map_c2_byte x.bits
  else ACCUDISC_MAP_OK

/-- Its state, without the severity. -/
theorem Sector.state (x : Sector) : map_state x.status =
    if x.hard then ACCUDISC_MAP_HARD
    else if x.susp then ACCUDISC_MAP_SUSPECT
    else if x.recov then ACCUDISC_MAP_RECOVERED
    else if x.bits ≠ 0 then ACCUDISC_MAP_C2
    else ACCUDISC_MAP_OK := by
  unfold Sector.status
  split
  · decide
  split
  · exact map_state_severity _ _ (by decide)
  split
  · exact map_state_severity _ _ (by decide)
  split
  · exact map_state_severity _ _ (by decide)
  · decide

theorem Sector.state_hard (x : Sector) : map_state x.status = ACCUDISC_MAP_HARD ↔ x.hard = true := by
  rw [x.state]
  cases x.hard <;> cases x.susp <;> cases x.recov <;> by_cases h : x.bits ≠ 0 <;> simp [h] <;> decide

theorem Sector.state_suspect (x : Sector) :
    map_state x.status = ACCUDISC_MAP_SUSPECT ↔ x.hard = false ∧ x.susp = true := by
  rw [x.state]
  cases x.hard <;> cases x.susp <;> cases x.recov <;> by_cases h : x.bits ≠ 0 <;> simp [h] <;> decide

theorem Sector.state_recovered (x : Sector) : map_state x.status = ACCUDISC_MAP_RECOVERED ↔
    x.hard = false ∧ x.susp = false ∧ x.recov = true := by
  rw [x.state]
  cases x.hard <;> cases x.susp <;> cases x.recov <;> by_cases h : x.bits ≠ 0 <;> simp [h] <;> decide

theorem Sector.state_good (x : Sector) :
    (map_state x.status = ACCUDISC_MAP_OK ∨ map_state x.status = ACCUDISC_MAP_C2) ↔
      x.hard = false ∧ x.susp = false ∧ x.recov = false := by
  rw [x.state]
  cases x.hard <;> cases x.susp <;> cases x.recov <;> by_cases h : x.bits ≠ 0 <;> simp [h] <;> decide

/-! ## The books -/

namespace Pub

variable (c : Cfg) (p : Pub)

def hard : Bool := map_state p.status == ACCUDISC_MAP_HARD

/-- The C2 bits of a delivered sector; a hard one's are synthetic. -/
def bits : Nat := if p.hard then 0 else record_bits c p.data 0

def subq_ok : Bool := !p.hard && (record_q c p.data 0).crc_ok

/-- What `subq_map` says of it. -/
def subq : BitVec 8 :=
  if p.hard then ACCUDISC_SUBQ_NO_AUDIO else adsc_subq_byte (record_q c p.data 0) p.lba

end Pub

/-- The counters of the published sectors. -/
structure Account (c : Cfg) (pubs : List Pub) (st : Stats) : Prop where
  sectors_read : st.sectors_read = pubs.countP fun p => !p.hard
  sectors_suspect : st.sectors_suspect = pubs.countP fun p => map_state p.status == ACCUDISC_MAP_SUSPECT
  sectors_recovered :
    st.sectors_recovered = pubs.countP fun p => map_state p.status == ACCUDISC_MAP_RECOVERED
  c2_bits : st.c2_bits = (pubs.map (Pub.bits c)).sum
  sectors_flagged : st.sectors_flagged = pubs.countP fun p => p.bits c != 0
  max_bits_sector : st.max_bits_sector = (pubs.map (Pub.bits c)).foldl max 0
  first_flagged_lba : st.first_flagged_lba =
    (((pubs.filter fun p => p.bits c != 0).head?).map fun p => (p.lba : Int)).getD (-1)
  last_flagged_lba : st.last_flagged_lba =
    (((pubs.filter fun p => p.bits c != 0).getLast?).map fun p => (p.lba : Int)).getD (-1)
  subq_total : st.subq_total =
    if c.sub_len = ACCUDISC_BYTES_SUB_RAW then pubs.countP fun p => !p.hard else 0
  subq_ok : st.subq_ok = if c.sub_len = ACCUDISC_BYTES_SUB_RAW then pubs.countP (Pub.subq_ok c) else 0

/-- The counters that publishing keeps. -/
def Stats.tally (st : Stats) : Stats :=
  { st.account with size := 0, hard_errors := 0, buffer_peak_chunks := 0, buffer_stalls := 0 }

theorem Account.of_tally {pubs : List Pub} {st st' : Stats} (h : Account c pubs st)
    (ht : st'.tally = st.tally) : Account c pubs st' := by
  simp only [Stats.tally, Stats.account, Stats.mk.injEq] at ht
  obtain ⟨-, h₁, h₂, h₃, -, h₄, h₅, h₆, -, -, -, -, h₇, h₈, -, h₉, h₁₀, -⟩ := ht
  exact ⟨h₁.trans h.1, h₈.trans h.2, h₇.trans h.3, h₃.trans h.4, h₂.trans h.5, h₄.trans h.6,
    h₅.trans h.7, h₆.trans h.8, h₉.trans h.9, h₁₀.trans h.10⟩

/-- A hard sector is not counted. -/
theorem Account.append_hard {pubs : List Pub} {st : Stats} {p : Pub} (h : Account c pubs st)
    (hp : p.hard = true) : Account c (pubs ++ [p]) st := by
  have hstate : map_state p.status = ACCUDISC_MAP_HARD := by simpa [Pub.hard] using hp
  have hb : p.bits c = 0 := if_pos hp
  have hq : p.subq_ok c = false := by simp [Pub.subq_ok, hp]
  refine ⟨?_, ?_, ?_, ?_, ?_, ?_, ?_, ?_, ?_, ?_⟩
  · simp [h.sectors_read, hp]
  · rw [h.sectors_suspect, List.countP_append]
    simp [hstate, ACCUDISC_MAP_HARD, ACCUDISC_MAP_SUSPECT]
  · rw [h.sectors_recovered, List.countP_append]
    simp [hstate, ACCUDISC_MAP_HARD, ACCUDISC_MAP_RECOVERED]
  · simp [h.c2_bits, hb]
  · simp [h.sectors_flagged, hb]
  · simp [h.max_bits_sector, hb]
  · simp [h.first_flagged_lba, hb]
  · simp [h.last_flagged_lba, hb]
  · simp [h.subq_total, hp]
  · simp [h.subq_ok, hq]

/-- What `count_flagged` makes of each counter. -/
theorem count_flagged_eq (st : Stats) (bits cur : Nat) : count_flagged st bits cur = { st with
    sectors_flagged := if bits = 0 then st.sectors_flagged else st.sectors_flagged + 1
    max_bits_sector := max st.max_bits_sector bits
    first_flagged_lba := if bits = 0 then st.first_flagged_lba
      else if st.first_flagged_lba < 0 then cur else st.first_flagged_lba
    last_flagged_lba := if bits = 0 then st.last_flagged_lba else cur } := by
  unfold count_flagged
  by_cases h : bits = 0
  · simp [h]
  · have hmax : (if bits > st.max_bits_sector then bits else st.max_bits_sector) =
        max st.max_bits_sector bits := by split <;> omega
    simp [h, hmax]

/-- What `count_verdict` makes of each counter. -/
theorem count_verdict_eq (st : Stats) (k : ChunkState) (s : Nat) : count_verdict st k s = { st with
    sectors_suspect := if k.susp s then st.sectors_suspect + 1 else st.sectors_suspect
    sectors_recovered := if !k.susp s && k.recov s then st.sectors_recovered + 1
      else st.sectors_recovered } := by
  unfold count_verdict
  cases k.susp s <;> cases k.recov s <;> rfl

/-- A sector that is not hard is counted. -/
theorem Account.append {ps : List Pub} {st : Stats} {x : Sector} {lba : Nat} (h : Account c ps st)
    (hx : x.hard = false) (hb : x.bits = record_bits c x.data 0) (hk : k.sector c.sector_len s = x) :
    Account c (ps ++ [⟨lba, x.status, x.data⟩]) (count_verdict (count_flagged { st with
      sectors_read := st.sectors_read + 1
      c2_bits := st.c2_bits + x.bits
      subq_total := if c.sub_len = ACCUDISC_BYTES_SUB_RAW then st.subq_total + 1 else st.subq_total
      subq_ok := if c.sub_len = ACCUDISC_BYTES_SUB_RAW ∧ (record_q c x.data 0).crc_ok = true then
        st.subq_ok + 1 else st.subq_ok } x.bits lba) k s) := by
  have hhard : Pub.hard ⟨lba, x.status, x.data⟩ = false := by
    simpa [Pub.hard, hx] using x.state_hard
  have hbits : Pub.bits c ⟨lba, x.status, x.data⟩ = x.bits := by simp [Pub.bits, hhard, hb]
  have hq : Pub.subq_ok c ⟨lba, x.status, x.data⟩ = (record_q c x.data 0).crc_ok := by
    simp [Pub.subq_ok, hhard]
  have hsus : (map_state x.status == ACCUDISC_MAP_SUSPECT) = x.susp := by
    rw [Bool.eq_iff_iff, beq_iff_eq, x.state_suspect]
    simp [hx]
  have hrec : (map_state x.status == ACCUDISC_MAP_RECOVERED) = (!x.susp && x.recov) := by
    rw [Bool.eq_iff_iff, beq_iff_eq, x.state_recovered]
    simp [hx]
  have hks : k.susp s = x.susp := congrArg Sector.susp hk
  have hkr : k.recov s = x.recov := congrArg Sector.recov hk
  obtain ⟨h₁, h₂, h₃, h₄, h₅, h₆, h₇, h₈, h₉, h₁₀⟩ := h
  rw [count_verdict_eq, count_flagged_eq, hks, hkr]
  refine ⟨?_, ?_, ?_, ?_, ?_, ?_, ?_, ?_, ?_, ?_⟩ <;> dsimp only
  · rw [List.countP_append, ← h₁]
    simp [hhard]
  · rw [List.countP_append, ← h₂, List.countP_singleton, hsus]
    cases x.susp <;> simp
  · rw [List.countP_append, ← h₃, List.countP_singleton, hrec]
    cases !x.susp && x.recov <;> simp
  · rw [List.map_append, List.sum_append, ← h₄]
    simp [hbits]
  · rw [List.countP_append, ← h₅, List.countP_singleton, hbits]
    by_cases h0 : x.bits = 0 <;> simp [h0]
  · rw [List.map_append, List.foldl_append, ← h₆, List.map_singleton, hbits]
    rfl
  · rw [List.filter_append, List.head?_append, h₇]
    have hneg : ∀ p : Pub, ¬(p.lba : Int) < 0 := fun p => by omega
    by_cases h0 : x.bits = 0
    · simp [h0, hbits]
    · cases hf : (List.filter (fun p => p.bits c != 0) ps).head? <;> simp [h0, hbits, hneg]
  · rw [List.filter_append, List.getLast?_append, h₈]
    by_cases h0 : x.bits = 0 <;> simp [h0, hbits]
  · rw [List.countP_append, List.countP_singleton, hhard, h₉]
    by_cases hs : c.sub_len = ACCUDISC_BYTES_SUB_RAW <;> simp [hs]
  · rw [List.countP_append, List.countP_singleton, hq, h₁₀]
    by_cases hs : c.sub_len = ACCUDISC_BYTES_SUB_RAW
    · cases (record_q c x.data 0).crc_ok <;> simp [hs]
    · simp [hs]

/-- What the engine's books say of the sectors published so far. -/
structure Books (c : Cfg) (r : Rd) : Prop where
  /-- They follow one another. -/
  order : ∀ i p, (pubs r.log)[i]? = some p → p.lba = u32 (c.req.lba.toNat + i)
  /-- Each entry of the map is stored once. -/
  stored : stores r.log =
    if c.req.status_map = 0 then [] else (pubs r.log).zipIdx.map fun x => (x.2, x.1.status)
  status_map : c.req.status_map ≠ 0 →
    ∀ i p, (pubs r.log)[i]? = some p → r.status_map i = p.status
  subq_map : c.req.subq_map ≠ 0 → c.sub_len = ACCUDISC_BYTES_SUB_RAW →
    ∀ i p, (pubs r.log)[i]? = some p → r.subq_map i = p.subq c
  account : Account c (pubs r.log) r.st

section
variable {log new : List ReadEvent}

@[simp] theorem pubs_append : pubs (log ++ new) = pubs log ++ pubs new := List.filterMap_append

@[simp] theorem stores_append : stores (log ++ new) = stores log ++ stores new := List.filterMap_append

@[simp] theorem delivered_append : delivered (log ++ new) = delivered log ++ delivered new :=
  List.flatMap_append

/-- The engine's own work publishes nothing. -/
theorem own_nothing (h : ∀ e ∈ new, e.own = true) : pubs new = [] ∧ stores new = [] ∧
    delivered new = [] := by
  refine ⟨List.filterMap_eq_nil_iff.2 fun e he => ?_, List.filterMap_eq_nil_iff.2 fun e he => ?_,
    List.flatMap_eq_nil_iff.2 fun e he => ?_⟩ <;>
    cases e <;> first | rfl | exact absurd (h _ he) nofun

end

theorem Quiet.pubs {r r' : Rd} (h : Quiet r r') : pubs r'.log = pubs r.log ∧
    delivered r'.log = delivered r.log := by
  obtain ⟨new, hl, ho⟩ := h.log
  obtain ⟨h₁, -, h₃⟩ := own_nothing ho
  rw [hl, pubs_append, delivered_append, h₁, h₃, List.append_nil, List.append_nil]
  exact ⟨rfl, rfl⟩

/-- The books stay as they are while nothing is published. -/
theorem Books.quiet {r r' : Rd} (h : Books c r) (hq : Quiet r r') (ht : r'.st.tally = r.st.tally) :
    Books c r' := by
  have hp := hq.pubs.1
  have hst : stores r'.log = stores r.log := by
    obtain ⟨new, hl, ho⟩ := hq.log
    rw [hl, stores_append, (own_nothing ho).2.1, List.append_nil]
  refine ⟨hp ▸ h.order, ?_, fun hm i p hi => ?_, fun hm hs i p hi => ?_, hp ▸ h.account.of_tally ht⟩
  · rw [hst, hp]
    exact h.stored
  · rw [hq.status_map]
    exact h.status_map hm i p (hp ▸ hi)
  · rw [hq.subq_map]
    exact h.subq_map hm hs i p (hp ▸ hi)

/-- An index into the request. -/
theorem request_index {lba i : Nat} (hi : i < 2 ^ 32) : sub32 (u32 (lba + i)) lba = i := by
  unfold sub32 u32
  omega

/-- What publishing one sector adds. -/
structure Published (c : Cfg) (r : Rd) (p : Pub) (r' : Rd) : Prop where
  grows : r.log <+: r'.log
  sectors : pubs r'.log = pubs r.log ++ [p]
  kept : delivered r'.log = delivered r.log
  sinks : r'.sinks = r.sinks
  hard_errors : r'.st.hard_errors = r.st.hard_errors
  books : Books c r → Books c r'

/-- An entry of the list with one more. -/
theorem getElem?_snoc {α : Type*} {l : List α} {a b : α} {i : Nat} (h : (l ++ [a])[i]? = some b) :
    l[i]? = some b ∨ i = l.length ∧ b = a := by
  rcases Nat.lt_trichotomy i l.length with hi | rfl | hi
  · exact .inl (List.getElem?_append_left hi ▸ h)
  · exact .inr ⟨rfl, by simpa using h.symm⟩
  · simp [List.getElem?_eq_none (show (l ++ [a]).length ≤ i by simp; omega)] at h

theorem Published.of {p : Pub} {r' : Rd} {new : List ReadEvent}
    (hlog : r'.log = r.log ++ .publish p.lba p.status p.data :: new)
    (hnew : pubs new = [] ∧ delivered new = [] ∧ stores new =
      if c.req.status_map = 0 then [] else [((pubs r.log).length, p.status)])
    (hlba : p.lba = u32 (c.req.lba.toNat + (pubs r.log).length))
    (hmap : c.req.status_map ≠ 0 →
      r'.status_map = Function.update r.status_map (pubs r.log).length p.status)
    (hsubq : c.req.subq_map ≠ 0 → c.sub_len = ACCUDISC_BYTES_SUB_RAW →
      r'.subq_map = Function.update r.subq_map (pubs r.log).length (p.subq c))
    (hsinks : r'.sinks = r.sinks) (hhard : r'.st.hard_errors = r.st.hard_errors)
    (hacc : Account c (pubs r.log) r.st → Account c (pubs r.log ++ [p]) r'.st) :
    Published c r p r' := by
  have hp : pubs r'.log = pubs r.log ++ [p] := by
    rw [hlog, pubs_append, show pubs (.publish p.lba p.status p.data :: new) = p :: pubs new
      from rfl, hnew.1]
  have hset : ∀ (m : Mem) (v : Pub → BitVec 8) i (q : Pub), (pubs r.log ++ [p])[i]? = some q →
      (∀ i (q : Pub), (pubs r.log)[i]? = some q → m i = v q) →
      Function.update m (pubs r.log).length (v p) i = v q := fun m v i q hq hm => by
    rcases getElem?_snoc hq with hq | ⟨rfl, rfl⟩
    · rw [Function.update_of_ne (Nat.ne_of_lt (List.getElem?_eq_some_iff.1 hq).1)]
      exact hm i q hq
    · rw [Function.update_self]
  refine ⟨⟨_, hlog.symm⟩, hp, ?_, hsinks, hhard, fun h => ⟨?_, ?_, ?_, ?_, ?_⟩⟩
  · rw [hlog, delivered_append, show delivered (.publish p.lba p.status p.data :: new) =
      delivered new from rfl,
      hnew.2.1, List.append_nil]
  · intro i q hq
    rw [hp] at hq
    rcases getElem?_snoc hq with hq | ⟨rfl, rfl⟩
    · exact h.order i q hq
    · exact hlba
  · rw [hlog, stores_append, show stores (.publish p.lba p.status p.data :: new) = stores new
      from rfl, ← hlog,
      hnew.2.2, h.stored, hp, List.zipIdx_append, List.map_append]
    split
    · rfl
    · simp
  · intro hm i q hq
    rw [hmap hm]
    exact hset _ Pub.status i q (hp ▸ hq) (h.status_map hm)
  · intro hm hs i q hq
    rw [hsubq hm hs]
    exact hset _ (Pub.subq c) i q (hp ▸ hq) (h.subq_map hm hs)
  · rw [hp]
    exact hacc h.account

section
variable {idx : Nat} {v : BitVec 8}

/-- A store to `status_map` changes it and the log. -/
theorem store_status_eq : store_status c r idx v = { r with
    status_map := if c.req.status_map = 0 then r.status_map else Function.update r.status_map idx v
    log := r.log ++ if c.req.status_map = 0 then [] else [.status idx v] } := by
  unfold store_status
  split
  · rw [List.append_nil]
  · rfl

/-- A store to `subq_map` changes it and the log. -/
theorem store_subq_eq : store_subq c r idx v = { r with
    subq_map := if c.req.subq_map = 0 then r.subq_map else Function.update r.subq_map idx v
    log := r.log ++ if c.req.subq_map = 0 then [] else [.subq idx v] } := by
  unfold store_subq
  split
  · rw [List.append_nil]
  · rfl

end

/-- The accounts of a delivered sector leave the hard errors. -/
theorem count_hard_errors (st : Stats) (bits cur : Nat) :
    (count_verdict (count_flagged st bits cur) k s).hard_errors = st.hard_errors := by
  rw [count_verdict_eq, count_flagged_eq]

/-- **Publishing one sector.** -/
theorem publish_sector_spec (hcount : Counted c (k.sector c.sector_len s))
    (hlba : u32 (k.lba + s) = u32 (c.req.lba.toNat + (pubs r.log).length))
    (hlt : (pubs r.log).length < 2 ^ 32) :
    Published c r ⟨u32 (k.lba + s), (k.sector c.sector_len s).status, (k.sector c.sector_len s).data⟩
      (publish_sector c k r s) := by
  have hidx : sub32 (u32 (k.lba + s)) c.req.lba.toNat = (pubs r.log).length := by
    rw [hlba]
    exact request_index hlt
  have hstatus : sector_status k s = (k.sector c.sector_len s).status := rfl
  have hdata : record c.sector_len k.buf s = (k.sector c.sector_len s).data := rfl
  have hbits : k.bits s = (k.sector c.sector_len s).bits := rfl
  unfold publish_sector
  simp only [hidx, hstatus, hdata, hbits]
  generalize hx : k.sector c.sector_len s = x at hcount
  split
  · rename_i hh
    have hh : x.hard = true := by rw [← hx]; exact hh
    have hp : Pub.hard ⟨u32 (k.lba + s), x.status, x.data⟩ = true := by
      simpa [Pub.hard] using x.state_hard.2 hh
    rw [store_status_eq, store_subq_eq]
    refine .of (List.append_assoc ..|>.trans (List.append_assoc ..)) ?_ hlba ?_ ?_ rfl rfl
      fun h => h.append_hard hp
    · by_cases hm : c.req.status_map = 0 <;> by_cases hq : c.req.subq_map = 0 <;>
        simp [hm, hq, pubs, delivered, stores]
    · exact fun hm => if_neg hm
    · intro hq _
      simp only [if_neg hq, Pub.subq, hp, if_true]
      rfl
  · rename_i hh
    have hh : x.hard = false := by
      rw [← hx]
      exact Bool.eq_false_iff.2 hh
    have hp : Pub.hard ⟨u32 (k.lba + s), x.status, x.data⟩ = false := by
      simpa [Pub.hard, hh] using x.state_hard
    have hacc := fun h => @Account.append c k s (pubs r.log) r.st x (u32 (k.lba + s)) h hh (hcount hh) hx
    by_cases hsub : c.sub_len = ACCUDISC_BYTES_SUB_RAW
    · have hq : record_q c k.buf (s * c.sector_len) = record_q c x.data 0 := by
        rw [record_q_record hsub, ← hx]
        rfl
      simp only [if_pos hsub, hq]
      unfold publish_subq
      rw [store_subq_eq, store_status_eq]
      refine .of (List.append_assoc ..|>.trans (List.append_assoc ..)) ?_ hlba ?_ ?_ rfl ?_ fun h => ?_
      · by_cases hm : c.req.status_map = 0 <;> by_cases hq : c.req.subq_map = 0 <;>
          simp [hm, hq, pubs, delivered, stores]
      · exact fun hm => if_neg hm
      · intro hq _
        simp only [if_neg hq, Pub.subq, hp]
        rfl
      · exact count_hard_errors ..
      · have := hacc h
        simp only [hsub, true_and, if_true] at this
        exact this
    · simp only [if_neg hsub]
      rw [store_status_eq]
      refine .of (List.append_assoc ..) ?_ hlba ?_ (fun _ h => absurd h hsub) rfl ?_ fun h => ?_
      · by_cases hm : c.req.status_map = 0 <;> simp [hm, pubs, delivered, stores]
      · exact fun hm => if_neg hm
      · exact count_hard_errors ..
      · have := hacc h
        simp only [hsub, false_and, if_false] at this
        exact this

end Accudisc
