import Accudisc.Drivers.Plextor
import Mathlib.Data.List.Basic

/-!
# The settings report is read-only and honest

`PxInv v ks` holds of a state that has emitted the keys `ks`: only GET forms were sent, none after a
transport failure, and an entry is marked answered only if the command behind its key (`PX_BACKING`)
succeeded. A command (`PxInv.exec`) and an entry (`PxInv.put`) keep it, so each part of the report keeps
it and adds its own keys.
-/

namespace Accudisc

/-! ## What the report promises -/

/-- The read-only forms. -/
def GetForm (cdb : Buf (BitVec 8) 12) : Prop :=
  (Buf.get cdb 0 = OP_PLEXTOR_MODE ∧ Buf.get cdb 1 = 0) ∨
    (Buf.get cdb 0 = OP_PLEXTOR_MODE2 ∧ Buf.get cdb 1 = 0) ∨
    (Buf.get cdb 0 = OP_PLEXTOR_AS_RD ∧ Buf.get cdb 1 = 0) ∨
      (Buf.get cdb 0 = OP_PLEXTOR_EEPROM ∧ Buf.get cdb 1 = 1)

instance (cdb : Buf (BitVec 8) 12) : Decidable (GetForm cdb) := by unfold GetForm; infer_instance

/-- The drive answered, with data or with a CHECK CONDITION. -/
def DriveAnswered (rc : Int) : Prop := rc = ACCUDISC_OK ∨ rc = ACCUDISC_ERR_SENSE

def powerec_cdb : Buf (BitVec 8) 12 :=
  cdb_of [(0, OP_PLEXTOR_MODE2), (2, PX_MODE2_CODE_POWEREC), (8, 0), (9, 8)]

/-- The keys of the report in order, each with the command that backs it. -/
def PX_BACKING : List (String × Buf (BitVec 8) 12) :=
  [("tla", eeprom_cdb 0), ("life.discs_loaded", eeprom_cdb 1), ("life.cd_read", eeprom_cdb 1),
    ("life.cd_write", eeprom_cdb 1), ("life.dvd_read", eeprom_cdb 1), ("life.dvd_write", eeprom_cdb 1),
    ("hide_cdr", mode_get_cdb 0x01 0), ("single_session", mode_get_cdb 0x01 0),
    ("speedread", mode_get_cdb 0xBB 0), ("powerec", powerec_cdb), ("powerec.recommended", powerec_cdb),
    ("gigarec", mode_get_cdb 0x04 0), ("gigarec.disc", mode_get_cdb 0x04 0),
    ("varirec.cd", mode_get_cdb 0x02 0x02), ("silent", mode_get_cdb 0x08 0x04),
    ("securec", mode_get_cdb 0xD5 0), ("varirec.dvd", mode_get_cdb 0x02 0x12),
    ("bitset.dvd+r", mode_get_cdb 0x22 0x0A), ("bitset.dvd+r_dl", mode_get_cdb 0x22 0x0E),
    ("autostrategy", as_rd_cdb), ("testwrite.dvd+", mode_get_cdb 0x21 0)]

/-- The command `cdb` was sent and succeeded. -/
def Backs (v : PxVs) (cdb : Buf (BitVec 8) 12) : Prop := ∃ c ∈ v.sent, c.1.cdb = cdb ∧ c.2 = ACCUDISC_OK

/-- An entry that says it was answered was, and describes no absent disc. -/
def Honest (v : PxVs) (e : VendorSetting) : Prop :=
  e.flags &&& ACCUDISC_VSET_OK ≠ 0 →
    e.flags &&& ACCUDISC_VSET_NO_DISC = 0 ∧ ∃ cdb, (e.key, cdb) ∈ PX_BACKING ∧ Backs v cdb

/-- A state that has emitted the keys `ks`. -/
structure PxInv (cap : Nat) (v : PxVs) (ks : List String) : Prop where
  cap_eq : v.cap = cap
  count : v.n = ks.length
  keys : ∀ i, (v.out i).map (·.key) = if i < v.cap then ks[i]? else none
  gets : ∀ c ∈ v.sent, GetForm c.1.cdb
  /-- Only the last command can have failed in transport, and then the latch is set. -/
  last : ∀ c ∈ v.sent.dropLast, DriveAnswered c.2
  latch : v.dead = false → ∀ c ∈ v.sent, DriveAnswered c.2
  honest : ∀ i e, v.out i = some e → Honest v e

theorem pxInv_init (cap : Nat) : PxInv cap { cap := cap } [] :=
  ⟨rfl, rfl, fun i => by simp, by simp, by simp, by simp, by simp⟩

/-! ## Entries -/

section
variable {cap : Nat} {v : PxVs} {ks : List String} {key label value : String}
  {flags : BitVec 32} {num : Int}

@[simp] theorem vs_put_sent : (vs_put v key label flags num value).sent = v.sent := by
  unfold vs_put
  split <;> rfl

@[simp] theorem vs_put_dead : (vs_put v key label flags num value).dead = v.dead := by
  unfold vs_put
  split <;> rfl

@[simp] theorem vs_put_cap : (vs_put v key label flags num value).cap = v.cap := by
  unfold vs_put
  split <;> rfl

@[simp] theorem vs_put_n : (vs_put v key label flags num value).n = v.n + 1 := by
  unfold vs_put
  split <;> rfl

theorem vs_put_out (i : Nat) :
    (vs_put v key label flags num value).out i =
      if i = v.n ∧ v.n < v.cap then some ⟨cstr 32 key, cstr 32 label, cstr 64 value, num, flags⟩
        else v.out i := by
  unfold vs_put
  by_cases hn : v.n < v.cap
  · simp only [if_pos hn, Function.update_apply]
    by_cases hi : i = v.n <;> simp [hi, hn]
  · rw [if_neg hn, if_neg (fun h => hn h.2)]

/-- A key that fits the entry's array. -/
def KeyFits (key : String) : Prop := cstr 32 key = key

instance (key : String) : Decidable (KeyFits key) := inferInstanceAs (Decidable (_ = _))

/-- **An entry** keeps the invariant if it is honest. -/
theorem PxInv.put (h : PxInv cap v ks) (hk : KeyFits key)
    (hf : flags &&& ACCUDISC_VSET_OK ≠ 0 →
      flags &&& ACCUDISC_VSET_NO_DISC = 0 ∧ ∃ cdb, (key, cdb) ∈ PX_BACKING ∧ Backs v cdb) :
    PxInv cap (vs_put v key label flags num value) (ks ++ [key]) where
  cap_eq := by rw [vs_put_cap, h.cap_eq]
  count := by rw [vs_put_n, h.count, List.length_append]; rfl
  keys i := by
    rw [vs_put_out, vs_put_cap]
    by_cases hi : i = v.n ∧ v.n < v.cap
    · have hget : (ks ++ [key])[i]? = some key := by
        rw [hi.1, h.count, List.getElem?_concat_length]
      rw [if_pos hi, if_pos (by omega), hget]
      exact congrArg some hk
    · rw [if_neg hi, h.keys i]
      by_cases hc : i < v.cap
      · rw [if_pos hc, if_pos hc]
        rcases Nat.lt_trichotomy i ks.length with hlt | heq | hgt
        · rw [List.getElem?_append_left hlt]
        · have := h.count
          omega
        · rw [List.getElem?_eq_none (by omega), List.getElem?_eq_none (by simp; omega)]
      · rw [if_neg hc, if_neg hc]
  gets := by rw [vs_put_sent]; exact h.gets
  last := by rw [vs_put_sent]; exact h.last
  latch := by rw [vs_put_sent, vs_put_dead]; exact h.latch
  honest i e he := by
    have hb : ∀ cdb, Backs (vs_put v key label flags num value) cdb ↔ Backs v cdb := fun cdb => by
      unfold Backs
      rw [vs_put_sent]
    unfold Honest
    simp only [hb]
    rw [vs_put_out] at he
    by_cases hi : i = v.n ∧ v.n < v.cap
    · rw [if_pos hi] at he
      cases he
      rw [show cstr 32 key = key from hk]
      exact hf
    · rw [if_neg hi] at he
      exact h.honest i e he

/-- An entry without the answered flag. -/
theorem PxInv.put_unanswered (h : PxInv cap v ks) (hk : KeyFits key) (hf : flags &&& ACCUDISC_VSET_OK = 0) :
    PxInv cap (vs_put v key label flags num value) (ks ++ [key]) := h.put hk fun hne => absurd hf hne

theorem PxInv.fail (h : PxInv cap v ks) (hk : KeyFits key) (rc : Int) :
    PxInv cap (vs_fail v key label rc) (ks ++ [key]) := by
  unfold vs_fail
  split
  · exact h.put_unanswered hk (by decide)
  split
  · exact h.put_unanswered hk (by decide)
  · exact h.put_unanswered hk (by decide)

theorem PxInv.nodisc (h : PxInv cap v ks) (hk : KeyFits key) :
    PxInv cap (vs_nodisc v key label) (ks ++ [key]) :=
  h.put_unanswered hk (by decide)

section
variable {cdb : Buf (BitVec 8) 12}

/-- An entry with a number, after the command that backs it succeeded. -/
theorem PxInv.put_num (h : PxInv cap v ks) (hk : KeyFits key) (hm : (key, cdb) ∈ PX_BACKING)
    (hb : Backs v cdb) :
    PxInv cap (vs_put v key label (ACCUDISC_VSET_OK ||| ACCUDISC_VSET_HAS_NUM) num value) (ks ++ [key]) :=
  h.put hk fun _ => ⟨by decide, cdb, hm, hb⟩

theorem PxInv.put_text (h : PxInv cap v ks) (hk : KeyFits key) (hm : (key, cdb) ∈ PX_BACKING)
    (hb : Backs v cdb) :
    PxInv cap (vs_put v key label ACCUDISC_VSET_OK num value) (ks ++ [key]) :=
  h.put hk fun _ => ⟨by decide, cdb, hm, hb⟩

theorem PxInv.code (h : PxInv cap v ks) (hk : KeyFits key) (hm : (key, cdb) ∈ PX_BACKING) (hb : Backs v cdb)
    (label : String) (t : List PxCode) (b : BitVec 8) :
      PxInv cap (vs_code v key label t b) (ks ++ [key]) := by
  unfold vs_code
  split
  · exact h.put_num hk hm hb
  · exact h.put_num hk hm hb

theorem PxInv.switch (h : PxInv cap v ks) (hk : KeyFits key) (hm : (key, cdb) ∈ PX_BACKING) {rc : Int}
    (hb : rc = ACCUDISC_OK → Backs v cdb) (label : String) (on : Bool) :
    PxInv cap (vs_switch v key label rc on) (ks ++ [key]) := by
  unfold vs_switch
  split
  · exact h.fail hk rc
  · rename_i hrc
    exact h.put_num hk hm (hb (not_not.1 hrc))

theorem PxInv.varirec_entry (h : PxInv cap v ks) (hk : KeyFits key) (hm : (key, cdb) ∈ PX_BACKING)
    (hb : Backs v cdb) (strs : List String) (r : Mem) :
    PxInv cap (vs_varirec_entry v key label strs r) (ks ++ [key]) := by
  unfold vs_varirec_entry
  split
  · exact h.put_num hk hm hb
  · dsimp only
    split
    · exact h.put_num hk hm hb
    · exact h.put_text hk hm hb

end

/-- Entries do not change what has succeeded. -/
theorem Backs.put {cdb : Buf (BitVec 8) 12} (h : Backs v cdb) :
    Backs (vs_put v key label flags num value) cdb := by
  unfold Backs
  rw [vs_put_sent]
  exact h

theorem Backs.code {cdb : Buf (BitVec 8) 12} (h : Backs v cdb) (t : List PxCode) (b : BitVec 8) :
    Backs (vs_code v key label t b) cdb := by
  unfold vs_code
  split
  · exact h.put
  · exact h.put

theorem Backs.switch {cdb : Buf (BitVec 8) 12} (h : Backs v cdb) (rc : Int) (on : Bool) :
    Backs (vs_switch v key label rc on) cdb := by
  unfold vs_switch vs_fail
  split
  · split
    · exact h.put
    split
    · exact h.put
    · exact h.put
  · exact h.put

end

/-! ## Commands -/

/-- What a command leaves: the invariant, and its success on record. -/
structure VsAsked (cap : Nat) (ks : List String) (cdb : Buf (BitVec 8) 12) (a : PxAnswer) : Prop where
  inv : PxInv cap a.v ks
  backs : a.rc = ACCUDISC_OK → Backs a.v cdb

section
variable (host : PxHost) {cap : Nat} {v : PxVs} {ks : List String} {cmd : HostCmd}

/-- A command leaves the invariant but for the latch, which is for the caller to set. -/
theorem PxInv.host_exec (h : PxInv cap v ks) (hd : v.dead = false) (hg : GetForm cmd.cdb)
    (logs : List String) :
    let a := Accudisc.host_exec host v cmd
    (DriveAnswered a.rc → VsAsked cap ks cmd.cdb a) ∧
      (¬ DriveAnswered a.rc →
        VsAsked cap ks cmd.cdb { a with v := { a.v with dead := true, logs := logs } }) := by
  have hgood := h.latch hd
  have hgets : ∀ c ∈ v.sent ++ [(cmd, (host.exec v.sent.length).1)], GetForm c.1.cdb := by
    intro c hc
    rcases List.mem_append.1 hc with hc | hc
    · exact h.gets c hc
    · rw [List.mem_singleton.1 hc]; exact hg
  have hlast : ∀ c ∈ (v.sent ++ [(cmd, (host.exec v.sent.length).1)]).dropLast, DriveAnswered c.2 := by
    rw [List.dropLast_concat]
    exact hgood
  have hmono : ∀ cdb, Backs v cdb → ∀ v' : PxVs, v'.sent = v.sent ++ [(cmd, (host.exec v.sent.length).1)] →
      Backs v' cdb := by
    rintro cdb ⟨c, hc, hcdb⟩ v' hv'
    exact ⟨c, by rw [hv']; exact List.mem_append_left _ hc, hcdb⟩
  have hhonest : ∀ v' : PxVs, v'.sent = v.sent ++ [(cmd, (host.exec v.sent.length).1)] →
      ∀ i e, v.out i = some e → Honest v' e := by
    intro v' hv' i e he hok
    obtain ⟨hnd, cdb, hm, hb⟩ := h.honest i e he hok
    exact ⟨hnd, cdb, hm, hmono cdb hb v' hv'⟩
  have hbacks : ∀ v' : PxVs, v'.sent = v.sent ++ [(cmd, (host.exec v.sent.length).1)] →
      (host.exec v.sent.length).1 = ACCUDISC_OK → Backs v' cmd.cdb := by
    intro v' hv' hok
    exact ⟨_, by rw [hv']; exact List.mem_append_right _ (List.mem_singleton_self _), rfl, hok⟩
  refine ⟨fun hrc =>
    ⟨⟨h.cap_eq, h.count, h.keys, hgets, hlast, fun _ c hc => ?_, hhonest _ rfl⟩, hbacks _ rfl⟩,
    fun _ => ⟨⟨h.cap_eq, h.count, h.keys, hgets, hlast, fun hdead => ?_, hhonest _ rfl⟩, hbacks _ rfl⟩⟩
  · rcases List.mem_append.1 hc with hc | hc
    · exact hgood c hc
    · rw [List.mem_singleton.1 hc]; exact hrc
  · exact absurd (show true = false from hdead) (by decide)

/-- **A command** keeps the invariant: the latch stops it, or is set by its failure. -/
theorem PxInv.exec (h : PxInv cap v ks) (cmd : HostCmd) (hg : GetForm cmd.cdb) :
    VsAsked cap ks cmd.cdb (vs_exec host v cmd) := by
  unfold vs_exec
  by_cases hd : v.dead = true
  · rw [if_pos hd]
    exact ⟨h, fun hok => absurd (show PX_NOT_SENT = ACCUDISC_OK from hok) (by decide)⟩
  · rw [if_neg hd]
    obtain ⟨hgood, hbad⟩ := h.host_exec host (Bool.eq_false_iff.2 hd) hg
      ((Accudisc.host_exec host v cmd).v.logs ++
        ["plextor: settings query hit a transport failure; the remaining queries are not sent"])
    dsimp only
    split
    · rename_i hrc
      exact hbad fun hans => hans.elim hrc.1 hrc.2
    · rename_i hrc
      refine hgood ?_
      unfold DriveAnswered
      omega

theorem getForm_mode_get (page val : BitVec 8) : GetForm (mode_get_cdb page val) := by
  refine .inl ⟨?_, ?_⟩
  · simp [mode_get_cdb, cdb_of, Buf.get_set]
  · simp [mode_get_cdb, cdb_of, Buf.get_set, PX_MODE_GET]

theorem getForm_eeprom (idx : BitVec 8) : GetForm (eeprom_cdb idx) := by
  refine .inr (.inr (.inr ⟨?_, ?_⟩))
  · simp [eeprom_cdb, cdb_of, Buf.get_set]
  · simp [eeprom_cdb, cdb_of, Buf.get_set]

theorem PxInv.mode_get (h : PxInv cap v ks) (page val : BitVec 8) :
    VsAsked cap ks (mode_get_cdb page val) (vs_mode_get host v page val) :=
  h.exec host ⟨mode_get_cdb page val, .in_, PX_MODE_LEN, 10000⟩ (getForm_mode_get page val)

theorem PxInv.eeprom_block (h : PxInv cap v ks) (idx : BitVec 8) :
    VsAsked cap ks (eeprom_cdb idx) (vs_eeprom_block host v idx) :=
  h.exec host ⟨eeprom_cdb idx, .in_, PX_EEPROM_BLOCK, 10000⟩ (getForm_eeprom idx)

/-- The query that bypasses `vs_exec` keeps the invariant too. -/
theorem PxInv.powerec_get (h : PxInv cap v ks) : VsAsked cap ks powerec_cdb (px_powerec_get host v) := by
  unfold px_powerec_get
  by_cases hd : v.dead = true
  · simp only [hd, if_true]
    rw [if_neg (by simp)]
    exact ⟨h, fun hok => absurd (show PX_NOT_SENT = ACCUDISC_OK from hok) (by decide)⟩
  · have hd' : v.dead = false := Bool.eq_false_iff.2 hd
    have hform : GetForm (HostCmd.mk powerec_cdb .in_ PX_MODE2_LEN 10000).cdb := by decide
    obtain ⟨hgood, hbad⟩ := h.host_exec host hd' hform v.logs
    rw [if_neg hd]
    change VsAsked cap ks powerec_cdb (if !v.dead ∧ (host.exec v.sent.length).1 ≠ ACCUDISC_OK ∧
      (host.exec v.sent.length).1 ≠ ACCUDISC_ERR_SENSE then _ else _)
    split
    · rename_i hrc
      exact hbad fun hans => hans.elim hrc.2.1 hrc.2.2
    · rename_i hrc
      refine hgood ?_
      by_contra hans
      exact hrc ⟨by simp [hd'], fun h => hans (.inl h), fun h => hans (.inr h)⟩

end

/-! ## The parts of the report -/

/-- Membership in the table of keys. -/
theorem backing_mem {key : String} {cdb : Buf (BitVec 8) 12} (i : Nat)
    (h : PX_BACKING[i]? = some (key, cdb)) :
    (key, cdb) ∈ PX_BACKING := List.mem_of_getElem? h

section
variable (host : PxHost) {cap : Nat} {v : PxVs} {ks : List String}

theorem PxInv.report_tla (h : PxInv cap v ks) : PxInv cap (px_report_tla host v) (ks ++ ["tla"]) := by
  have hk : KeyFits "tla" := by decide
  obtain ⟨hinv, hb⟩ := h.eeprom_block host 0
  unfold px_report_tla
  dsimp only
  split
  · exact hinv.fail hk _
  · rename_i hrc
    exact hinv.put_text hk (backing_mem 0 rfl) (hb (not_not.1 hrc))

theorem PxInv.report_life (h : PxInv cap v ks) :
    PxInv cap (px_report_life host v)
      (ks ++ ["life.discs_loaded", "life.cd_read", "life.cd_write", "life.dvd_read",
        "life.dvd_write"]) := by
  have hk1 : KeyFits "life.discs_loaded" := by decide
  have hk2 : KeyFits "life.cd_read" := by decide
  have hk3 : KeyFits "life.cd_write" := by decide
  have hk4 : KeyFits "life.dvd_read" := by decide
  have hk5 : KeyFits "life.dvd_write" := by decide
  have hks : ks ++ ["life.discs_loaded", "life.cd_read", "life.cd_write", "life.dvd_read",
    "life.dvd_write"] =
      ks ++ ["life.discs_loaded"] ++ ["life.cd_read"] ++ ["life.cd_write"] ++ ["life.dvd_read"] ++
        ["life.dvd_write"] := by simp
  obtain ⟨hinv, hb⟩ := h.eeprom_block host 1
  rw [hks]
  unfold px_report_life
  dsimp only
  split
  · exact ((((hinv.fail hk1 _).fail hk2 _).fail hk3 _).fail hk4 _).fail hk5 _
  · rename_i hrc
    have hb := hb (not_not.1 hrc)
    refine PxInv.put_num ?_ hk5 (backing_mem 5 rfl) hb.put.put.put.put
    refine PxInv.put_num ?_ hk4 (backing_mem 4 rfl) hb.put.put.put
    refine PxInv.put_num ?_ hk3 (backing_mem 3 rfl) hb.put.put
    refine PxInv.put_num ?_ hk2 (backing_mem 2 rfl) hb.put
    exact hinv.put_num hk1 (backing_mem 1 rfl) hb

/-- Both ways of the EEPROM part emit the same keys. -/
theorem PxInv.report_eeprom (h : PxInv cap v ks) (id : Option CText) :
    PxInv cap (px_report_eeprom host id v)
      (ks ++ ["tla", "life.discs_loaded", "life.cd_read", "life.cd_write",
      "life.dvd_read", "life.dvd_write"]) := by
  unfold px_report_eeprom
  split
  · have hlife := (h.report_tla host).report_life host
    rwa [List.append_assoc] at hlife
  · have hall : ∀ (keys : List (String × String)) (v : PxVs) (ks : List String), PxInv cap v ks →
        (∀ k ∈ keys, KeyFits k.1) →
        PxInv cap (keys.foldl
          (fun v k => vs_put v k.1 k.2 0 0 "not asked (EEPROM layout unknown for this model)") v)
          (ks ++ keys.map (·.1)) := by
      intro keys
      induction keys with
      | nil => intro v ks hv _; simpa using hv
      | cons k keys ih =>
        intro v ks hv hfit
        have hput : PxInv cap
            (vs_put v k.1 k.2 0 0 "not asked (EEPROM layout unknown for this model)") (ks ++ [k.1]) :=
          hv.put_unanswered (hfit k List.mem_cons_self) (by decide)
        have := ih _ _ hput fun j hj => hfit j (List.mem_cons_of_mem k hj)
        simpa using this
    exact hall px_eeprom_keys v ks h (by decide)

theorem PxInv.report_switch (h : PxInv cap v ks) {page val : BitVec 8} {key : String} (hk : KeyFits key)
    (hm : (key, mode_get_cdb page val) ∈ PX_BACKING) (label : String) (on : Mem → Bool) :
    PxInv cap (px_report_switch host v page val key label on) (ks ++ [key]) := by
  obtain ⟨hinv, hb⟩ := h.mode_get host page val
  exact hinv.switch hk hm hb _ _

theorem PxInv.report_ss_hide (h : PxInv cap v ks) :
    PxInv cap (px_report_ss_hide host v) (ks ++ ["hide_cdr", "single_session"]) := by
  have hk1 : KeyFits "hide_cdr" := by decide
  have hk2 : KeyFits "single_session" := by decide
  obtain ⟨hinv, hb⟩ := h.mode_get host PX_PAGE_SS_HIDE 0
  have h1 := hinv.switch hk1 (backing_mem 6 rfl) hb "Hide-CDR"
    ((vs_mode_get host v PX_PAGE_SS_HIDE 0).r 2 &&& 0x02 ≠ 0)
  have h2 := h1.switch hk2 (backing_mem 7 rfl) (fun hrc => (hb hrc).switch _ _) "SingleSession"
    ((vs_mode_get host v PX_PAGE_SS_HIDE 0).r 2 &&& 0x01 ≠ 0)
  rw [List.append_assoc] at h2
  exact h2

theorem PxInv.report_powerec (h : PxInv cap v ks) (no_disc is_cd is_dvd : Bool) :
    PxInv cap (px_report_powerec host no_disc is_cd is_dvd v)
      (ks ++ ["powerec", "powerec.recommended"]) := by
  have hk1 : KeyFits "powerec" := by decide
  have hk2 : KeyFits "powerec.recommended" := by decide
  obtain ⟨hinv, hb⟩ := h.powerec_get host
  have h1 := hinv.switch hk1 (backing_mem 9 rfl) hb "PoweRec"
    ((px_powerec_get host v).r 2 &&& PX_POWEREC_BIT ≠ 0)
  rw [show ks ++ ["powerec", "powerec.recommended"] = ks ++ ["powerec"] ++ ["powerec.recommended"] by simp]
  unfold px_report_powerec
  dsimp only
  split
  · exact h1.fail hk2 _
  split
  · exact h1.nodisc hk2
  · rename_i hrc _
    exact h1.put_num hk2 (backing_mem 10 rfl) ((hb (not_not.1 hrc)).switch _ _)

theorem PxInv.report_gigarec (h : PxInv cap v ks) (no_disc : Bool) :
    PxInv cap (px_report_gigarec host no_disc v) (ks ++ ["gigarec", "gigarec.disc"]) := by
  have hk1 : KeyFits "gigarec" := by decide
  have hk2 : KeyFits "gigarec.disc" := by decide
  obtain ⟨hinv, hb⟩ := h.mode_get host PX_PAGE_GIGAREC 0
  rw [show ks ++ ["gigarec", "gigarec.disc"] = ks ++ ["gigarec"] ++ ["gigarec.disc"] by simp]
  unfold px_report_gigarec
  dsimp only
  split
  · exact (hinv.fail hk1 _).fail hk2 _
  · rename_i hrc
    have hb := hb (not_not.1 hrc)
    have h1 := hinv.code hk1 (backing_mem 11 rfl) hb "GigaRec" px_gigarec
      ((vs_mode_get host v PX_PAGE_GIGAREC 0).r 3)
    split
    · exact h1.nodisc hk2
    · exact h1.code hk2 (backing_mem 12 rfl) (hb.code _ _) _ _ _

theorem PxInv.varirec (h : PxInv cap v ks) {key : String} (hk : KeyFits key) (disc : BitVec 8)
    (hm : (key, mode_get_cdb PX_PAGE_VARIREC (0x02 ||| disc)) ∈ PX_BACKING) (label : String) :
    PxInv cap (vs_varirec host v key label disc) (ks ++ [key]) := by
  obtain ⟨hinv, hb⟩ := h.mode_get host PX_PAGE_VARIREC (0x02 ||| disc)
  unfold vs_varirec
  dsimp only
  split
  · exact hinv.fail hk _
  · rename_i hrc
    exact hinv.varirec_entry hk hm (hb (not_not.1 hrc)) _ _

theorem PxInv.report_silent (h : PxInv cap v ks) :
    PxInv cap (px_report_silent host v) (ks ++ ["silent"]) := by
  have hk : KeyFits "silent" := by decide
  obtain ⟨hinv, hb⟩ := h.mode_get host PX_PAGE_SILENT 0x04
  unfold px_report_silent
  dsimp only
  split
  · exact hinv.fail hk _
  · rename_i hrc
    have hb := hb (not_not.1 hrc)
    split
    · exact hinv.put_num hk (backing_mem 14 rfl) hb
    · exact hinv.put_num hk (backing_mem 14 rfl) hb

theorem PxInv.report_autostrategy (h : PxInv cap v ks) :
    PxInv cap (px_report_autostrategy host v) (ks ++ ["autostrategy"]) := by
  have hk : KeyFits "autostrategy" := by decide
  obtain ⟨hinv, hb⟩ := h.exec host ⟨as_rd_cdb, .in_, PX_MODE_LEN, 10000⟩ (show GetForm as_rd_cdb by decide)
  unfold px_report_autostrategy
  dsimp only
  split
  · exact hinv.fail hk _
  · rename_i hrc
    exact hinv.put_num hk (backing_mem 19 rfl) (hb (not_not.1 hrc))

end

/-- **The whole report** keeps the invariant and emits every key. -/
theorem pxInv_settings_get (host : PxHost) (id : Option CText) (disc : Option DiscProbe) (cap : Nat) :
    PxInv cap (px_settings_get host id disc cap) (PX_BACKING.map (·.1)) := by
  have h0 := (pxInv_init cap).report_eeprom host id
  have h1 := h0.report_ss_hide host
  have h2 := h1.report_switch host (show KeyFits "speedread" by decide) (backing_mem 8 rfl) "SpeedRead"
    fun r => r 2 ≠ 0
  have h3 := h2.report_powerec host (disc.any fun d => d.reason = ACCUDISC_DISC_WHY_NO_MEDIUM)
    (disc.any fun d => 0x08 ≤ d.profile ∧ d.profile ≤ 0x0A)
    (disc.any fun d => 0x10 ≤ d.profile ∧ d.profile < 0x40)
  have h4 := h3.report_gigarec host (disc.any fun d => d.reason = ACCUDISC_DISC_WHY_NO_MEDIUM)
  have h5 := h4.varirec host (show KeyFits "varirec.cd" by decide) PX_VARIREC_CD
    (backing_mem 13 rfl) "VariRec CD"
  have h6 := h5.report_silent host
  have h7 := h6.report_switch host (show KeyFits "securec" by decide) (backing_mem 15 rfl) "SecuRec"
    fun r => r 3 ≠ 0
  have h8 := h7.varirec host (show KeyFits "varirec.dvd" by decide) PX_VARIREC_DVD
    (backing_mem 16 rfl) "VariRec DVD"
  have h9 := h8.report_switch host (show KeyFits "bitset.dvd+r" by decide) (backing_mem 17 rfl)
    "DVD+R bitsetting" fun r => r 2 &&& 0x02 ≠ 0
  have h10 := h9.report_switch host (show KeyFits "bitset.dvd+r_dl" by decide) (backing_mem 18 rfl)
    "DVD+R DL bitsetting" fun r => r 2 &&& 0x01 ≠ 0
  have h11 := h10.report_autostrategy host
  exact h11.report_switch host (show KeyFits "testwrite.dvd+" by decide) (backing_mem 20 rfl)
    "DVD+R(W) testwrite" fun r => r 2 ≠ 0

/-- **The report is read-only and honest**, whatever the drive is and answers: it emits the same keys in
the same order and counts them all, writing those below `cap` only; it sends GET forms only, and nothing
after the first command that the drive did not answer; an entry that says it was answered is backed by a
command that succeeded. -/
theorem settings_report_honest (host : PxHost) (id : Option CText) (disc : Option DiscProbe) (cap : Nat) :
    let v := px_settings_get host id disc cap
    v.n = 21 ∧
    (∀ i, (v.out i).map (·.key) = if i < cap then (PX_BACKING.map (·.1))[i]? else none) ∧
    (∀ c ∈ v.sent, GetForm c.1.cdb) ∧
    (∀ before c after, v.sent = before ++ c :: after → ¬ DriveAnswered c.2 → after = []) ∧
    ∀ i e, v.out i = some e → e.flags &&& ACCUDISC_VSET_OK ≠ 0 →
      e.flags &&& ACCUDISC_VSET_NO_DISC = 0 ∧
        ∃ cdb, (e.key, cdb) ∈ PX_BACKING ∧ ∃ c ∈ v.sent, c.1.cdb = cdb ∧ c.2 = ACCUDISC_OK := by
  intro v
  have h := pxInv_settings_get host id disc cap
  refine ⟨h.count, fun i => ?_, h.gets, fun before c after hsent hc => ?_, h.honest⟩
  · have hi := h.keys i
    rwa [h.cap_eq] at hi
  · -- a command with another behind it is not the last
    by_contra hne
    refine hc (h.last c ?_)
    rw [hsent, List.dropLast_append_of_ne_nil (List.cons_ne_nil c after), List.dropLast_cons_of_ne_nil hne]
    exact List.mem_append_right _ List.mem_cons_self

end Accudisc
