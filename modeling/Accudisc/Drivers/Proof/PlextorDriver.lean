import Accudisc.Drive.Proof.Driver
import Accudisc.Drivers.PlextorDriver

/-!
# The Plextor driver keeps its contract (`plextor.c`)

On a drive whose SpeedRead and POWEREC pages tell the truth, the driver is the honest driver that the
manager's results ask for: what it sets it has read back, and its selftest changes nothing.
-/

namespace Accudisc

section
variable {σ : Type} {exec : HostCmd → σ → (Int × Mem) × σ} {uncap powerec : σ → Bool}

/-- A drive with the two settings. A set leaves a setting as it was or as it was asked for,
whatever its code. -/
structure PxObeys (exec : HostCmd → σ → (Int × Mem) × σ) (uncap powerec : σ → Bool) : Prop where
  get_uncap : ∀ x, uncap (exec (px_mode PX_MODE_GET PX_PAGE_SPEEDREAD 0) x).2 = uncap x
  get_told : ∀ x, (exec (px_mode PX_MODE_GET PX_PAGE_SPEEDREAD 0) x).1.1 = ACCUDISC_OK →
    ((exec (px_mode PX_MODE_GET PX_PAGE_SPEEDREAD 0) x).1.2 2 ≠ 0 ↔ uncap x = true)
  set_uncap : ∀ v x, uncap (exec (px_mode PX_MODE_SET PX_PAGE_SPEEDREAD v) x).2 = uncap x ∨
    (uncap (exec (px_mode PX_MODE_SET PX_PAGE_SPEEDREAD v) x).2 = true ↔ v ≠ 0)
  set_told : ∀ v x, (exec (px_mode PX_MODE_SET PX_PAGE_SPEEDREAD v) x).1.1 = ACCUDISC_OK →
    ((exec (px_mode PX_MODE_SET PX_PAGE_SPEEDREAD v) x).1.2 2 ≠ 0 ↔
      uncap (exec (px_mode PX_MODE_SET PX_PAGE_SPEEDREAD v) x).2 = true)
  get_powerec : ∀ x, powerec (exec (px_mode2_get PX_MODE2_CODE_POWEREC) x).2 = powerec x
  powerec_told : ∀ x, (exec (px_mode2_get PX_MODE2_CODE_POWEREC) x).1.1 = ACCUDISC_OK →
    ((exec (px_mode2_get PX_MODE2_CODE_POWEREC) x).1.2 2 &&& PX_POWEREC_BIT ≠ 0 ↔ powerec x = true)
  other_uncap : ∀ cmd x, Buf.get cmd.cdb 0 ≠ OP_PLEXTOR_MODE → uncap (exec cmd x).2 = uncap x
  other_powerec : ∀ cmd x, Buf.get cmd.cdb 0 ≠ OP_PLEXTOR_MODE2 → powerec (exec cmd x).2 = powerec x

theorem flag_value_one (p : Prop) [Decidable p] : (if p then (1 : Int) else 0) ≠ 0 ↔ p := by
  by_cases h : p <;> simp [h]

theorem flag_eq_iff (p : Prop) [Decidable p] (on : Int) :
    (if p then (1 : Int) else 0) = flag_value on ↔ (p ↔ on ≠ 0) := by
  unfold flag_value
  by_cases h : p <;> by_cases h' : on ≠ 0 <;> simp [h, h']

theorem ite_keeps {α : Type} {c : Prop} [Decidable c] {P : α → Prop} {a b : α} (ha : P a) (hb : P b) :
    P (if c then a else b) := by
  split
  · exact ha
  · exact hb

/-! ## The slots -/

theorem px_cx_op (sub : BitVec 8) (len : Nat) : Buf.get (px_cx_cmd sub len).cdb 0 = OP_PLEXTOR_CX := by
  unfold px_cx_cmd cdb_of
  by_cases h1 : sub = 0x15
  · subst h1
    simp [Buf.get_set]
  · by_cases h2 : sub = 0x16
    · subst h2
      simp [Buf.get_set]
    · rw [if_neg h1, if_neg h2]
      simp [Buf.get_set]

theorem px_mode2_set_op (code val : BitVec 8) :
    Buf.get (px_mode2_set code val).cdb 0 = OP_PLEXTOR_MODE2 := by
  simp [px_mode2_set, cdb_of, Buf.get_set]

theorem px_mode2_get_op (code : BitVec 8) : Buf.get (px_mode2_get code).cdb 0 = OP_PLEXTOR_MODE2 := by
  simp [px_mode2_get, cdb_of, Buf.get_set]

theorem px_mode_op (dir page val : BitVec 8) : Buf.get (px_mode dir page val).cdb 0 = OP_PLEXTOR_MODE := by
  simp [px_mode, cdb_of, Buf.get_set]

/-- The counters leave both settings alone. -/
theorem PxObeys.cx (h : PxObeys exec uncap powerec) (sub : BitVec 8) (len : Nat) (x : σ) :
    uncap (exec (px_cx_cmd sub len) x).2 = uncap x ∧ powerec (exec (px_cx_cmd sub len) x).2 = powerec x :=
  ⟨h.other_uncap _ x (by rw [px_cx_op]; decide), h.other_powerec _ x (by rw [px_cx_op]; decide)⟩

theorem px_read_state (x : σ) : (px_read exec x).2 = (exec (px_cx_cmd 0x16 CX_COUNTERS_LEN) x).2 := by
  unfold px_read
  dsimp only
  split <;> rfl

theorem px_governor_get_state (x : σ) :
    (px_governor_get exec x).2 = (exec (px_mode2_get PX_MODE2_CODE_POWEREC) x).2 := by
  unfold px_governor_get
  dsimp only
  split <;> rfl

theorem px_speed_uncap_get_state (x : σ) :
    (px_speed_uncap_get exec x).2 = (exec (px_mode PX_MODE_GET PX_PAGE_SPEEDREAD 0) x).2 := by
  unfold px_speed_uncap_get
  dsimp only
  split <;> rfl

theorem PxObeys.selftest_cx (h : PxObeys exec uncap powerec) (x : σ) :
    uncap (px_selftest_cx exec x).2 = uncap x ∧ powerec (px_selftest_cx exec x).2 = powerec x := by
  have hbegin := h.cx 0x15 0 x
  have hread := h.cx 0x16 CX_COUNTERS_LEN (px_begin exec x).2
  rw [← px_read_state] at hread
  have hend := h.cx 0x17 0 (px_read exec (px_begin exec x).2).2
  have hall : uncap (px_end exec (px_read exec (px_begin exec x).2).2).2 = uncap x ∧
      powerec (px_end exec (px_read exec (px_begin exec x).2).2).2 = powerec x :=
    ⟨hend.1.trans (hread.1.trans hbegin.1), hend.2.trans (hread.2.trans hbegin.2)⟩
  unfold px_selftest_cx
  dsimp only
  split
  · exact hbegin
  split
  · exact hall
  split
  · exact hall
  · exact hall

/-- The set of the selftest is to the value that was read. -/
theorem PxObeys.selftest (h : PxObeys exec uncap powerec) (x : σ) :
    uncap (px_selftest exec x).2 = uncap x ∧ powerec (px_selftest exec x).2 = powerec x := by
  have hmode : ∀ dir page v y, powerec (exec (px_mode dir page v) y).2 = powerec y := fun dir page v y =>
    h.other_powerec _ y (by rw [px_mode_op]; decide)
  have hget := h.get_uncap x
  unfold px_selftest
  dsimp only
  by_cases hsense : (exec (px_mode PX_MODE_GET PX_PAGE_SPEEDREAD 0) x).1.1 = ACCUDISC_ERR_SENSE
  · rw [if_pos hsense]
    have hcx := h.selftest_cx (exec (px_mode PX_MODE_GET PX_PAGE_SPEEDREAD 0) x).2
    exact ⟨hcx.1.trans hget, hcx.2.trans (hmode _ _ _ x)⟩
  rw [if_neg hsense]
  by_cases hok : (exec (px_mode PX_MODE_GET PX_PAGE_SPEEDREAD 0) x).1.1 = ACCUDISC_OK
  · rw [if_neg (not_not.2 hok)]
    have htold := h.get_told x hok
    have hset : ∀ y, uncap y = uncap x → uncap (exec (px_mode PX_MODE_SET PX_PAGE_SPEEDREAD
        (if (exec (px_mode PX_MODE_GET PX_PAGE_SPEEDREAD 0) x).1.2 2 ≠ 0 then 1
          else 0)) y).2 = uncap x := by
      intro y hy
      rcases h.set_uncap (if (exec (px_mode PX_MODE_GET PX_PAGE_SPEEDREAD 0) x).1.2 2 ≠ 0 then 1
        else 0) y with hs | hs
      · rw [hs, hy]
      · refine Bool.eq_iff_iff.2 (hs.trans (Iff.trans ?_ htold))
        split
        · rename_i hr
          simpa using hr
        · rename_i hr
          simpa using hr
    revert hset
    generalize (if (exec (px_mode PX_MODE_GET PX_PAGE_SPEEDREAD 0) x).1.2 2 ≠ 0 then
      (1 : BitVec 8) else 0) = cur
    intro hset
    refine ite_keeps (P := fun r : Int × σ => uncap r.2 = uncap x ∧ powerec r.2 = powerec x)
      ⟨hset _ hget, (hmode _ _ _ _).trans (hmode _ _ _ x)⟩ ?_
    have hlast :
      uncap (exec (px_mode PX_MODE_GET PX_PAGE_SPEEDREAD 0)
      (exec (px_mode PX_MODE_SET PX_PAGE_SPEEDREAD cur)
          (exec (px_mode PX_MODE_GET PX_PAGE_SPEEDREAD 0) x).2).2).2 = uncap x ∧
        powerec (exec (px_mode PX_MODE_GET PX_PAGE_SPEEDREAD 0)
          (exec (px_mode PX_MODE_SET PX_PAGE_SPEEDREAD cur)
          (exec (px_mode PX_MODE_GET PX_PAGE_SPEEDREAD 0) x).2).2).2 = powerec x :=
      ⟨(h.get_uncap _).trans (hset _ hget), (hmode _ _ _ _).trans ((hmode _ _ _ _).trans (hmode _ _ _ x))⟩
    exact ite_keeps (P := fun r : Int × σ => uncap r.2 = uncap x ∧ powerec r.2 = powerec x) hlast hlast
  · rw [if_pos hok]
    exact ⟨hget, hmode _ _ _ x⟩

theorem PxObeys.uncap_get_told (h : PxObeys exec uncap powerec) (x : σ)
    (hok : (px_speed_uncap_get exec x).1.1 = ACCUDISC_OK) :
    0 ≤ (px_speed_uncap_get exec x).1.2 ∧ ((px_speed_uncap_get exec x).1.2 ≠ 0 ↔ uncap x = true) := by
  unfold px_speed_uncap_get at hok ⊢
  dsimp only at hok ⊢
  by_cases hr : (exec (px_mode PX_MODE_GET PX_PAGE_SPEEDREAD 0) x).1.1 = ACCUDISC_OK
  · rw [if_neg (not_not.2 hr)]
    refine ⟨?_, (flag_value_one _).trans (h.get_told x hr)⟩
    show 0 ≤ if _ then (1 : Int) else 0
    split <;> decide
  · rw [if_pos hr] at hok
    exact absurd hok hr

theorem PxObeys.uncap_set_told (h : PxObeys exec uncap powerec) (on : Int) (x : σ)
    (hok : (px_speed_uncap_set exec on x).1 = ACCUDISC_OK) :
    uncap (px_speed_uncap_set exec on x).2 = true ↔ on ≠ 0 := by
  unfold px_speed_uncap_set at hok ⊢
  dsimp only at hok ⊢
  by_cases hr : (exec (px_mode PX_MODE_SET PX_PAGE_SPEEDREAD (if on ≠ 0 then 1 else 0)) x).1.1 = ACCUDISC_OK
  · rw [if_neg (not_not.2 hr)] at hok ⊢
    have htold := h.set_told _ x hr
    by_cases hecho :
      (if (exec (px_mode PX_MODE_SET PX_PAGE_SPEEDREAD (if on ≠ 0 then 1 else 0)) x).1.2 2 ≠
      0 then (1 : Int)
        else 0) = flag_value on
    · rw [if_neg (not_not.2 hecho)]
      exact htold.symm.trans ((flag_eq_iff _ on).1 hecho)
    · rw [if_pos hecho] at hok
      exact absurd (show ACCUDISC_ERR_UNSUPPORTED = ACCUDISC_OK from hok) (by decide)
  · rw [if_pos hr] at hok
    exact absurd hok hr

theorem PxObeys.governor_told (h : PxObeys exec uncap powerec) (x : σ)
    (hok : (px_governor_get exec x).1.1 = ACCUDISC_OK) :
    (px_governor_get exec x).1.2.1 ≠ 0 ↔ powerec x = true := by
  unfold px_governor_get at hok ⊢
  dsimp only at hok ⊢
  by_cases hr : (exec (px_mode2_get PX_MODE2_CODE_POWEREC) x).1.1 = ACCUDISC_OK
  · rw [if_neg (not_not.2 hr)]
    exact (flag_value_one _).trans (h.powerec_told x hr)
  · rw [if_pos hr] at hok
    exact absurd hok hr

theorem PxObeys.governor_set_told (h : PxObeys exec uncap powerec) (on : Int) (x : σ)
    (hok : (px_governor_set exec on x).1 = ACCUDISC_OK) :
    powerec (px_governor_set exec on x).2 = true ↔ on ≠ 0 := by
  unfold px_governor_set at hok ⊢
  dsimp only at hok ⊢
  revert hok
  generalize exec (px_mode2_set PX_MODE2_CODE_POWEREC (if on ≠ 0 then 1 else 0)) x = a
  intro hok
  by_cases hr : a.1.1 = ACCUDISC_OK
  · rw [if_neg (not_not.2 hr)] at hok ⊢
    by_cases hg : (px_governor_get exec a.2).1.1 = ACCUDISC_OK
    · rw [if_neg (not_not.2 hg)] at hok ⊢
      by_cases hflag : (px_governor_get exec a.2).1.2.1 = flag_value on
      · rw [if_neg (not_not.2 hflag)]
        have htold := h.governor_told a.2 hg
        rw [hflag] at htold
        show powerec (px_governor_get exec a.2).2 = true ↔ on ≠ 0
        rw [px_governor_get_state, h.get_powerec, ← htold]
        exact flag_value_one _
      · rw [if_pos hflag] at hok
        exact absurd (show ACCUDISC_ERR_UNSUPPORTED = ACCUDISC_OK from hok) (by decide)
    · rw [if_pos hg] at hok
      exact absurd hok hg
  · rw [if_pos hr] at hok
    exact absurd hok hr

/-- The driver over the two settings. -/
structure PlextorHonest (exec : HostCmd → σ → (Int × Mem) × σ) (uncap powerec : σ → Bool) : Prop where
  driver : DriverHonest uncap (plextor_driver exec)
  selftest : ∀ x, powerec (px_selftest exec x).2 = powerec x
  governor_told : ∀ x, (px_governor_get exec x).1.1 = ACCUDISC_OK →
    ((px_governor_get exec x).1.2.1 ≠ 0 ↔ powerec x = true)
  governor_set : ∀ on x, (px_governor_set exec on x).1 = ACCUDISC_OK →
    (powerec (px_governor_set exec on x).2 = true ↔ on ≠ 0)

/-- **The Plextor driver is honest** on a drive that is. -/
theorem plextor_driver_honest (exec : HostCmd → σ → (Int × Mem) × σ) (uncap powerec : σ → Bool)
    (h : PxObeys exec uncap powerec) : PlextorHonest exec uncap powerec where
  driver := by
    have hgov : ∀ x, uncap (px_governor_get exec x).2 = uncap x := fun x => by
      rw [px_governor_get_state]
      exact h.other_uncap _ x (by rw [px_mode2_get_op]; decide)
    refine ⟨?_, ?_, ?_, ?_, ?_, ?_, ?_, ?_, ?_⟩
    · rintro f ⟨⟩ x
      exact (h.selftest x).1
    · rintro f ⟨⟩ x
      exact (h.cx 0x15 0 x).1
    · rintro f ⟨⟩ x
      rw [px_read_state]
      exact (h.cx 0x16 _ x).1
    · rintro f ⟨⟩ x
      exact (h.cx 0x17 0 x).1
    · rintro f ⟨⟩ x
      exact hgov x
    · rintro f ⟨⟩ v x
      have hset := h.other_uncap (px_mode2_set PX_MODE2_CODE_POWEREC (if v ≠ 0 then 1 else 0)) x
        (by rw [px_mode2_set_op]; decide)
      unfold px_governor_set
      dsimp only
      revert hset
      generalize exec (px_mode2_set PX_MODE2_CODE_POWEREC (if v ≠ 0 then 1 else 0)) x = a
      intro hset
      have hread : uncap (px_governor_get exec a.2).2 = uncap x := (hgov a.2).trans hset
      refine ite_keeps (P := fun r : Int × σ => uncap r.2 = uncap x) hset ?_
      refine ite_keeps (P := fun r : Int × σ => uncap r.2 = uncap x) hread ?_
      exact ite_keeps (P := fun r : Int × σ => uncap r.2 = uncap x) hread hread
    · rintro f ⟨⟩ x
      rw [px_speed_uncap_get_state]
      exact h.get_uncap x
    · rintro f ⟨⟩ x hok
      exact h.uncap_get_told x hok
    · rintro f ⟨⟩ v x hok
      exact h.uncap_set_told v x hok
  selftest := fun x => (h.selftest x).2
  governor_told := fun x hok => h.governor_told x hok
  governor_set := fun on x hok => h.governor_set_told on x hok

/-- A drive that is its two settings. -/
def px_bits (cmd : HostCmd) (x : Bool × Bool) : (Int × Mem) × (Bool × Bool) :=
  if Buf.get cmd.cdb 0 = OP_PLEXTOR_MODE then
    let uncap := if Buf.get cmd.cdb 1 = PX_MODE_SET then Buf.get cmd.cdb 3 ≠ 0 else x.1
    ((ACCUDISC_OK, fun k => if k = 2 ∧ uncap = true then 1 else 0), (uncap, x.2))
  else if Buf.get cmd.cdb 0 = OP_PLEXTOR_MODE2 then
    let powerec := if Buf.get cmd.cdb 1 ≠ 0 then Buf.get cmd.cdb 1 &&& 1 ≠ 0 else x.2
    ((ACCUDISC_OK, fun k => if k = 2 ∧ powerec = true then 1 else 0), (x.1, powerec))
  else ((ACCUDISC_OK, fun _ => 0), x)

theorem px_mode_dir (dir page val : BitVec 8) :
    Buf.get (px_mode dir page val).cdb 1 = dir ∧ Buf.get (px_mode dir page val).cdb 3 = val := by
  simp [px_mode, cdb_of, Buf.get_set]

theorem px_bits_obeys : PxObeys px_bits (·.1) (·.2) where
  get_uncap := by
    intro x
    simp [px_bits, px_mode_op, px_mode_dir, PX_MODE_GET, PX_MODE_SET]
  get_told := by
    rintro ⟨u, p⟩ _
    cases u <;> simp [px_bits, px_mode_op, px_mode_dir, PX_MODE_GET, PX_MODE_SET]
  set_uncap := by
    intro v x
    right
    simp [px_bits, px_mode_op, px_mode_dir]
  set_told := by
    intro v x _
    by_cases hv : v = 0 <;> simp [px_bits, px_mode_op, px_mode_dir, hv]
  get_powerec := by
    intro x
    have hop : Buf.get (px_mode2_get PX_MODE2_CODE_POWEREC).cdb 1 = 0 := by decide
    simp [px_bits, px_mode2_get_op, hop, OP_PLEXTOR_MODE2, OP_PLEXTOR_MODE]
  powerec_told := by
    rintro ⟨u, p⟩ _
    have hop : Buf.get (px_mode2_get PX_MODE2_CODE_POWEREC).cdb 1 = 0 := by decide
    cases p <;> simp [px_bits, px_mode2_get_op, hop, OP_PLEXTOR_MODE2, OP_PLEXTOR_MODE, PX_POWEREC_BIT]
  other_uncap := by
    intro cmd x hop
    unfold px_bits
    rw [if_neg hop]
    split <;> rfl
  other_powerec := by
    intro cmd x hop
    unfold px_bits
    rw [if_neg hop]
    split <;> rfl

theorem plextor_driver_honest_bits : PlextorHonest px_bits (·.1) (·.2) :=
  plextor_driver_honest px_bits _ _ px_bits_obeys

end

end Accudisc
