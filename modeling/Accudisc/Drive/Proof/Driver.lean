import Accudisc.Drive.Driver
import Mathlib.Data.List.Induction

/-!
# Vendor drivers over whole programs (`driver.c`, `uncap.c`)

`DriverOwned`: the shared objects open are the driver attached, and nothing else, whatever order the calls
come in; that driver was verified. `UncapStep`: what one call can do to the uncap setting, from which the
memory of it is honest and a push and its pop put back what was there.
-/

namespace Accudisc

section
variable {σ ι γ : Type} {w : DriverWorld σ ι γ} {s t : DrvDev σ ι γ} {drv : Driver σ ι γ}
  {h : Nat} {out : γ}

/-! ## What is loaded -/

/-- A driver that an attach may keep, with the drive in the state `x` when it was called: usable, matching
what the drive then said it was, and past its selftest on the drive as the INQUIRY left it. -/
structure DriverVerified (w : DriverWorld σ ι γ) (x : σ) (drv : Driver σ ι γ) : Prop where
  usable : driver_usable drv = true
  identified : (w.identify x).1.1 = ACCUDISC_OK
  matched : driver_matches drv (w.identify x).1.2 = true
  passed : ∃ f, drv.selftest = some f ∧ (f (w.identify x).2).1 = ACCUDISC_OK

/-- The open objects are the handle's own, `hs` of them not given away yet, none was closed twice, and the
driver attached is one of `V`. -/
structure DriverOwned (V : Driver σ ι γ → Prop) (hs : List Nat) (s : DrvDev σ ι γ) : Prop where
  held : s.loaded = hs ++ s.drv_handle.toList
  attached : s.drv_handle.isSome = s.drv.isSome
  stray : s.stray = false
  verified : ∀ d, s.drv = some d → V d

/-- Nothing is attached. -/
structure DriverFree (hs : List Nat) (s : DrvDev σ ι γ) :
    Prop extends DriverOwned (fun _ => False) hs s where
  none' : s.drv = none

theorem DriverOwned.mono {V V' : Driver σ ι γ → Prop} {hs : List Nat} (ho : DriverOwned V hs s)
    (hV : ∀ d, s.drv = some d → V d → V' d) : DriverOwned V' hs s :=
  { ho with verified := fun d hd => hV d hd (ho.verified d hd) }

theorem DriverFree.owned {V : Driver σ ι γ → Prop} {hs : List Nat} (hf : DriverFree hs s) :
    DriverOwned V hs s :=
  hf.toDriverOwned.mono fun _ _ h => h.elim

theorem DriverFree.handle {hs : List Nat} (hf : DriverFree hs s) : s.drv_handle = none := by
  have := hf.attached
  rw [hf.none'] at this
  exact Option.isNone_iff_eq_none.1 (by simpa using this)

theorem DriverFree.loaded {hs : List Nat} (hf : DriverFree hs s) : s.loaded = hs := by
  have := hf.held
  rwa [hf.handle, Option.toList_none, List.append_nil] at this

theorem DriverFree.of_loaded {hs : List Nat} (hd : s.drv = none) (hh : s.drv_handle = none)
    (hl : s.loaded = hs)
    (hs' : s.stray = false) : DriverFree hs s where
  held := by rw [hl, hh, Option.toList_none, List.append_nil]
  attached := by rw [hd, hh]; rfl
  stray := hs'
  verified := by
    intro d hd'
    rw [hd] at hd'
    cases hd'
  none' := hd

theorem DriverFree.dlopen (hf : DriverFree [] s) : DriverFree [s.opened] (dlopen s).2 :=
  .of_loaded hf.none' hf.handle (congrArg (s.opened :: ·) hf.loaded) hf.stray

theorem DriverFree.dlclose (hf : DriverFree [h] s) : DriverFree [] (dlclose h s) := by
  refine .of_loaded hf.none' hf.handle ?_ ?_
  · show s.loaded.erase h = []
    rw [hf.loaded, List.erase_cons_head]
  · show (s.stray || !s.loaded.contains h) = false
    rw [hf.loaded, hf.stray]
    simp

theorem DriverFree.load_driver (hf : DriverFree [] s) (path : List Char) :
    match load_driver w path s with
    | (none, t) => DriverFree [] t ∧ t.drive = s.drive
    | (some (drv, h), t) => DriverFree [h] t ∧ t.drive = s.drive ∧ driver_usable drv = true := by
  unfold Accudisc.load_driver
  cases w.files path with
  | MISSING => exact ⟨hf, rfl⟩
  | NO_ENTRY => exact ⟨hf.dlopen.dlclose, rfl⟩
  | ENTRY drv =>
    by_cases hu : driver_usable drv = true
    · simp only [if_pos hu]
      exact ⟨hf.dlopen, rfl, hu⟩
    · simp only [if_neg hu]
      exact ⟨hf.dlopen.dlclose, rfl⟩

/-- A call of the drive's opens and closes nothing. -/
theorem DriverOwned.call_slot {α : Type} {V : Driver σ ι γ → Prop} {hs : List Nat} (ho : DriverOwned V hs s)
    (slot : Option (σ → α × σ)) (e : α) : DriverOwned V hs (call_slot slot e s).2 := by
  cases slot with
  | none => exact ho
  | some f => exact ⟨ho.held, ho.attached, ho.stray, ho.verified⟩

theorem DriverFree.call_slot {α : Type} {hs : List Nat} (hf : DriverFree hs s)
    (slot : Option (σ → α × σ)) (e : α) :
    DriverFree hs (call_slot slot e s).2 := by
  refine { hf.toDriverOwned.call_slot slot e with none' := ?_ }
  cases slot with
  | none => exact hf.none'
  | some f => exact hf.none'

/-- The drive at the attach answered the INQUIRY, and `s` is the handle afterwards. -/
structure Identified (w : DriverWorld σ ι γ) (x : σ) (id : ι) (s : DrvDev σ ι γ) : Prop where
  ok : (w.identify x).1.1 = ACCUDISC_OK
  id_eq : (w.identify x).1.2 = id
  drive : s.drive = (w.identify x).2

theorem Identified.same {x : σ} {id : ι} (hi : Identified w x id s) (hd : t.drive = s.drive) :
    Identified w x id t :=
  { hi with drive := hd.trans hi.drive }

theorem DriverFree.attach_verified {x : σ} {id : ι} (hf : DriverFree [h] s) (hi : Identified w x id s)
    (hu : driver_usable drv = true) (hm : driver_matches drv id = true) :
    DriverOwned (DriverVerified w x) [] (attach_verified drv h s).2 := by
  have hcall := hf.call_slot drv.selftest ACCUDISC_ERR_UNSUPPORTED
  unfold Accudisc.attach_verified
  dsimp only
  by_cases hr : (Accudisc.call_slot drv.selftest ACCUDISC_ERR_UNSUPPORTED s).1 ≠ ACCUDISC_OK
  · rw [if_pos hr]
    exact hcall.dlclose.owned
  · rw [if_neg hr]
    refine ⟨hcall.loaded, rfl, hcall.stray, ?_⟩
    rintro d hd
    obtain rfl : drv = d := Option.some.inj hd
    refine ⟨hu, hi.ok, hi.id_eq ▸ hm, ?_⟩
    rw [← hi.drive]
    cases hself : drv.selftest with
    | none =>
      rw [hself] at hr
      exact absurd (by decide : ACCUDISC_ERR_UNSUPPORTED ≠ ACCUDISC_OK) hr
    | some f =>
      rw [hself] at hr
      exact ⟨f, rfl, not_not.1 hr⟩

theorem DriverFree.attach_listed {d : List Char} {x : σ} {id : ι} (es : List (List Char))
    (hf : DriverFree [] s)
    (hi : Identified w x id s) : DriverOwned (DriverVerified w x) [] (attach_listed w d id es s).2 := by
  induction es generalizing s with
  | nil => exact hf.owned
  | cons e es ih =>
    rw [Accudisc.attach_listed]
    split
    · exact ih hf hi
    split
    · exact ih hf hi
    have hload := hf.load_driver (w := w) (driver_path [d, ['/'], e])
    revert hload
    rcases Accudisc.load_driver w (driver_path [d, ['/'], e]) s with ⟨_ | ⟨drv, h⟩, t⟩
    · rintro ⟨hload, hd⟩
      exact ih hload (hi.same hd)
    · rintro ⟨hload, hd, hu⟩
      by_cases hm : driver_matches drv id = true
      · simp only [if_pos hm]
        exact hload.attach_verified (hi.same hd) hu hm
      · simp only [if_neg hm]
        exact ih hload.dlclose (hi.same hd)

theorem DriverOwned.detach {V : Driver σ ι γ → Prop} (ho : DriverOwned V [] s) :
    DriverFree [] (accudisc_driver_detach s) := by
  unfold accudisc_driver_detach
  cases hd : s.drv with
  | none =>
    have hnone : ∀ d, s.drv = some d → V d → False := fun d hd' _ => by
      rw [hd] at hd'
      cases hd'
    exact { ho.mono hnone with none' := hd }
  | some d =>
    have hheld := ho.held
    cases hh : s.drv_handle with
    | none =>
      have := ho.attached
      rw [hd, hh] at this
      cases this
    | some h =>
      rw [hh] at hheld
      have hclose : s.loaded.erase h = [] := by rw [hheld]; simp
      have hmem : (s.stray || !s.loaded.contains h) = false := by rw [hheld, ho.stray]; simp
      exact .of_loaded rfl rfl hclose hmem

/-- A set that no driver takes changes nothing; one that a driver takes is in the list of them. -/
theorem accudisc_speed_uncap_set_cases (on : Int) (s : DrvDev σ ι γ) :
    accudisc_speed_uncap_set on s = (ACCUDISC_ERR_UNSUPPORTED, s) ∨
      ∃ d f, s.drv = some d ∧ d.speed_uncap_set = some f ∧
        accudisc_speed_uncap_set on s = ((f (flag_value on) s.drive).1,
          { s with
            drive := (f (flag_value on) s.drive).2
            uncap_sets := (flag_value on, (f (flag_value on) s.drive).1) :: s.uncap_sets
            uncap_set := if (f (flag_value on) s.drive).1 = ACCUDISC_OK then (if on ≠ 0 then 1 else -1)
              else s.uncap_set }) := by
  unfold accudisc_speed_uncap_set
  cases hd : s.drv with
  | none => exact .inl rfl
  | some d =>
    cases hf : d.speed_uncap_set with
    | none =>
      left
      simp only [Option.bind_some, hf]
    | some f =>
      right
      refine ⟨d, f, rfl, hf, ?_⟩
      simp only [Option.bind_some, hf]
      by_cases hr : (f (flag_value on) s.drive).1 = ACCUDISC_OK
      · simp only [if_pos hr]
      · simp only [if_neg hr]

theorem DriverOwned.uncap_set {V : Driver σ ι γ → Prop} (ho : DriverOwned V [] s) (on : Int) :
    DriverOwned V [] (accudisc_speed_uncap_set on s).2 := by
  rcases accudisc_speed_uncap_set_cases on s with he | ⟨d, f, hd, hf, he⟩
  · rw [he]
    exact ho
  · rw [he]
    exact ⟨ho.held, ho.attached, ho.stray, ho.verified⟩

/-- A call other than an attach keeps what is loaded, and attaches nothing. -/
theorem DriverOwned.call {V : Driver σ ι γ → Prop} (ho : DriverOwned V [] s) {c : DriverCall}
    (hc : ∀ name dir, c ≠ .ATTACH name dir) : DriverOwned V [] (driver_call w out s c) := by
  cases c with
  | ATTACH name dir => exact absurd rfl (hc name dir)
  | DETACH => exact ho.detach.owned
  | COUNTER_BEGIN => exact ho.call_slot _ _
  | COUNTER_READ => exact ho.call_slot _ _
  | COUNTER_END => exact ho.call_slot _ _
  | GOVERNOR_GET => exact ho.call_slot _ _
  | GOVERNOR_SET on => exact ho.call_slot _ _
  | UNCAP_GET => exact ho.call_slot _ _
  | UNCAP_SET on => exact ho.uncap_set on
  | UNCAP_PUSH on =>
    have hget : DriverOwned V [] (accudisc_speed_uncap_get 0 s).2 := ho.call_slot _ _
    simp only [driver_call, accudisc_speed_uncap_push]
    split
    · exact hget
    · exact hget.uncap_set on
  | UNCAP_POP prior =>
    simp only [driver_call, accudisc_speed_uncap_pop]
    split
    · exact ho
    · exact ho.uncap_set _
  | UNCAP_PROBE =>
    have hask : DriverOwned V [] (adsc_uncap_authoritative s).2 := by
      unfold adsc_uncap_authoritative
      split
      · exact ho
      · exact ho.call_slot _ _
    exact ⟨hask.held, hask.attached, hask.stray, hask.verified⟩

/-- A handle that was just opened. -/
def driver_opened (x : σ) : DrvDev σ ι γ := { drive := x }

/-- The driver was verified at the last attach of the program, in the state the drive had then. -/
def AttachedAt (w : DriverWorld σ ι γ) (out : γ) (x : σ) (calls : List DriverCall) (d : Driver σ ι γ) :
    Prop :=
  ∃ before name dir after, calls = before ++ .ATTACH name dir :: after ∧
    (∀ c ∈ after, ∀ name dir, c ≠ .ATTACH name dir) ∧
    DriverVerified w (driver_calls w out before (driver_opened x)).drive d

theorem AttachedAt.call {x : σ} {calls : List DriverCall}
    (ha : AttachedAt w out x calls drv) {c : DriverCall}
    (hc : ∀ name dir, c ≠ .ATTACH name dir) : AttachedAt w out x (calls ++ [c]) drv := by
  obtain ⟨before, name, dir, after, rfl, hafter, hv⟩ := ha
  refine ⟨before, name, dir, after ++ [c], by rw [List.append_assoc, List.cons_append], ?_, hv⟩
  intro c' hc'
  rcases List.mem_append.1 hc' with h | h
  · exact hafter c' h
  · rw [List.mem_singleton.1 h]
    exact hc

theorem driver_calls_inv {I : DrvDev σ ι γ → Prop} (calls : List DriverCall) (h0 : I s)
    (hstep : ∀ t c, I t → I (driver_call w out t c)) : I (driver_calls w out calls s) := by
  induction calls generalizing s with
  | nil => exact h0
  | cons c calls ih => exact ih (hstep s c h0)

/-- A driver that tells the truth about the uncap: `uncap` is the setting in the drive. -/
structure DriverHonest (uncap : σ → Bool) (d : Driver σ ι γ) : Prop where
  selftest : ∀ f, d.selftest = some f → ∀ x, uncap (f x).2 = uncap x
  counter_scan_begin : ∀ f, d.counter_scan_begin = some f → ∀ x, uncap (f x).2 = uncap x
  counter_scan_read : ∀ f, d.counter_scan_read = some f → ∀ x, uncap (f x).2 = uncap x
  counter_scan_end : ∀ f, d.counter_scan_end = some f → ∀ x, uncap (f x).2 = uncap x
  governor_get : ∀ f, d.write_governor_get = some f → ∀ x, uncap (f x).2 = uncap x
  governor_set : ∀ f, d.write_governor_set = some f → ∀ v x, uncap (f v x).2 = uncap x
  uncap_get : ∀ f, d.speed_uncap_get = some f → ∀ x, uncap (f x).2 = uncap x
  told : ∀ f, d.speed_uncap_get = some f → ∀ x, (f x).1.1 = ACCUDISC_OK → 0 ≤ (f x).1.2 ∧
    ((f x).1.2 ≠ 0 ↔ uncap x = true)
  uncap_set : ∀ f, d.speed_uncap_set = some f → ∀ v x, (f v x).1 = ACCUDISC_OK →
    (uncap (f v x).2 = true ↔ v ≠ 0)

/-- Every driver on disk is honest, and the library's INQUIRY and MODE SENSE change no setting. -/
structure WorldHonest (uncap : σ → Bool) (w : DriverWorld σ ι γ) : Prop where
  files : ∀ path d, w.files path = .ENTRY d → DriverHonest uncap d
  identify : ∀ x, uncap (w.identify x).2 = uncap x
  get_speed : ∀ x, uncap (w.get_speed x).2 = uncap x

variable {uncap : σ → Bool}

/-- The driver attached is honest. -/
def HonestDrv (uncap : σ → Bool) (s : DrvDev σ ι γ) : Prop := ∀ d, s.drv = some d → DriverHonest uncap d

/-- The call left the uncap alone. -/
structure UncapQuiet (uncap : σ → Bool) (s t : DrvDev σ ι γ) : Prop where
  drive : uncap t.drive = uncap s.drive
  memo : t.uncap_set = s.uncap_set
  sets : t.uncap_sets = s.uncap_sets

/-- A driver was asked for the setting `v`. -/
structure UncapAsked (uncap : σ → Bool) (v rc : Int) (s t : DrvDev σ ι γ) : Prop where
  sets : t.uncap_sets = (v, rc) :: s.uncap_sets
  took : rc = ACCUDISC_OK → (uncap t.drive = true ↔ v ≠ 0) ∧ t.uncap_set = if v ≠ 0 then 1 else -1
  refused : rc ≠ ACCUDISC_OK → t.uncap_set = s.uncap_set

/-- What one call can do to the uncap. -/
def UncapStep (uncap : σ → Bool) (s t : DrvDev σ ι γ) : Prop :=
  UncapQuiet uncap s t ∨ ∃ v rc, UncapAsked uncap v rc s t

theorem UncapQuiet.refl : UncapQuiet uncap s s := ⟨rfl, rfl, rfl⟩

theorem UncapQuiet.trans {r : DrvDev σ ι γ} (h : UncapQuiet uncap s t) (h' : UncapQuiet uncap t r) :
    UncapQuiet uncap s r :=
  ⟨h'.drive.trans h.drive, h'.memo.trans h.memo, h'.sets.trans h.sets⟩

theorem UncapQuiet.asked {r : DrvDev σ ι γ} {v rc : Int} (h : UncapQuiet uncap s t)
    (h' : UncapAsked uncap v rc t r) :
    UncapAsked uncap v rc s r where
  sets := by rw [h'.sets, h.sets]
  took := h'.took
  refused := fun hr => (h'.refused hr).trans h.memo

/-- A slot that leaves the uncap alone. -/
theorem call_slot_quiet {α : Type} {slot : Option (σ → α × σ)} {e : α}
    (hq : ∀ f, slot = some f → ∀ x, uncap (f x).2 = uncap x) :
      UncapQuiet uncap s (call_slot slot e s).2 := by
  cases slot with
  | none => exact .refl
  | some f => exact ⟨hq f rfl s.drive, rfl, rfl⟩

theorem delegated_quiet {α : Type} {slot : Driver σ ι γ → Option (σ → α × σ)} {e : α}
    (hs : HonestDrv uncap s)
    (hq : ∀ d, DriverHonest uncap d → ∀ f, slot d = some f → ∀ x, uncap (f x).2 = uncap x) :
    UncapQuiet uncap s (delegated slot e s).2 := by
  refine call_slot_quiet fun f hf x => ?_
  obtain ⟨d, hd, hf⟩ := Option.bind_eq_some_iff.1 hf
  exact hq d (hs d hd) f hf x

theorem delegated_drv {α : Type} {slot : Driver σ ι γ → Option (σ → α × σ)} {e : α} :
    (delegated slot e s).2.drv = s.drv := by
  unfold delegated call_slot
  cases s.drv.bind slot with
  | none => rfl
  | some f => rfl

theorem uncap_get_quiet (hs : HonestDrv uncap s) : UncapQuiet uncap s (accudisc_speed_uncap_get 0 s).2 :=
  delegated_quiet hs fun _ hd => hd.uncap_get

theorem uncap_get_told (hs : HonestDrv uncap s) (hok : (accudisc_speed_uncap_get 0 s).1.1 = ACCUDISC_OK) :
    0 ≤ (accudisc_speed_uncap_get 0 s).1.2 ∧
      ((accudisc_speed_uncap_get 0 s).1.2 ≠ 0 ↔ uncap s.drive = true) := by
  unfold accudisc_speed_uncap_get delegated at *
  cases hb : s.drv.bind (·.speed_uncap_get) with
  | none =>
    rw [hb] at hok
    exact absurd hok (by decide : ACCUDISC_ERR_UNSUPPORTED ≠ ACCUDISC_OK)
  | some f =>
    rw [hb] at hok
    obtain ⟨d, hd, hf⟩ := Option.bind_eq_some_iff.1 hb
    exact (hs d hd).told f hf s.drive hok

/-- A set is asked of the driver, or changes nothing. -/
theorem uncap_set_step (hs : HonestDrv uncap s) (on : Int) :
    (accudisc_speed_uncap_set on s = (ACCUDISC_ERR_UNSUPPORTED, s)) ∨
      UncapAsked uncap (flag_value on) (accudisc_speed_uncap_set on s).1 s
        (accudisc_speed_uncap_set on s).2 := by
  rcases accudisc_speed_uncap_set_cases on s with he | ⟨d, f, hd, hf, he⟩
  · exact .inl he
  · right
    rw [he]
    refine ⟨rfl, fun hr => ⟨(hs d hd).uncap_set f hf _ _ hr, ?_⟩, fun hr => if_neg hr⟩
    simp only [if_pos hr]
    by_cases hon : on ≠ 0
    · simp [flag_value, hon]
    · simp [flag_value, not_not.1 hon]

theorem uncap_set_drv (on : Int) : (accudisc_speed_uncap_set on s).2.drv = s.drv := by
  rcases accudisc_speed_uncap_set_cases on s with he | ⟨d, f, hd, hf, he⟩
  · rw [he]
  · rw [he]

theorem UncapStep.of_set (hs : HonestDrv uncap s) (on : Int) :
    UncapStep uncap s (accudisc_speed_uncap_set on s).2 := by
  rcases uncap_set_step hs on with he | ha
  · rw [he]
    exact .inl .refl
  · exact .inr ⟨_, _, ha⟩

/-! Attaching and detaching leave it alone. -/

theorem dlclose_quiet (h : Nat) (s : DrvDev σ ι γ) : UncapQuiet uncap s (dlclose h s) := ⟨rfl, rfl, rfl⟩

theorem load_driver_quiet (hw : WorldHonest uncap w) (path : List Char) (s : DrvDev σ ι γ) :
    UncapQuiet uncap s (load_driver w path s).2 ∧ (load_driver w path s).2.drv = s.drv ∧
      ∀ drv h, (load_driver w path s).1 = some (drv, h) → DriverHonest uncap drv := by
  unfold load_driver
  cases hf : w.files path with
  | MISSING => exact ⟨.refl, rfl, by simp⟩
  | NO_ENTRY => exact ⟨⟨rfl, rfl, rfl⟩, rfl, by simp⟩
  | ENTRY d =>
    by_cases hu : driver_usable d = true
    · simp only [if_pos hu]
      refine ⟨⟨rfl, rfl, rfl⟩, rfl, fun drv h he => ?_⟩
      cases he
      exact hw.files path _ hf
    · simp only [if_neg hu]
      exact ⟨⟨rfl, rfl, rfl⟩, rfl, by simp⟩

/-- The uncap is as it was, and the driver attached afterwards is honest. -/
structure HonestQuiet (uncap : σ → Bool) (s t : DrvDev σ ι γ) : Prop where
  quiet : UncapQuiet uncap s t
  honest : HonestDrv uncap t

theorem HonestQuiet.after {r : DrvDev σ ι γ} (hq : UncapQuiet uncap s t) (h : HonestQuiet uncap t r) :
    HonestQuiet uncap s r :=
  ⟨hq.trans h.quiet, h.honest⟩

theorem HonestQuiet.same (hs : HonestDrv uncap s) (hq : UncapQuiet uncap s t) (hd : t.drv = s.drv) :
    HonestQuiet uncap s t :=
  ⟨hq, fun d h => hs d (by rwa [hd] at h)⟩

theorem attach_verified_quiet (hs : HonestDrv uncap s) (hd : DriverHonest uncap drv) (h : Nat) :
    HonestQuiet uncap s (attach_verified drv h s).2 := by
  have hcall : UncapQuiet uncap s (call_slot drv.selftest ACCUDISC_ERR_UNSUPPORTED s).2 :=
    call_slot_quiet hd.selftest
  have hdrv : (call_slot drv.selftest ACCUDISC_ERR_UNSUPPORTED s).2.drv = s.drv := by
    unfold call_slot
    cases drv.selftest with
    | none => rfl
    | some f => rfl
  unfold attach_verified
  dsimp only
  split
  · exact .same hs (hcall.trans (dlclose_quiet h _)) hdrv
  · refine ⟨⟨hcall.drive, hcall.memo, hcall.sets⟩, ?_⟩
    rintro d hd'
    obtain rfl : drv = d := Option.some.inj hd'
    exact hd

theorem attach_listed_quiet (hw : WorldHonest uncap w) {d : List Char} {id : ι} (es : List (List Char))
    (hs : HonestDrv uncap s) : HonestQuiet uncap s (attach_listed w d id es s).2 := by
  induction es generalizing s with
  | nil => exact .same hs .refl rfl
  | cons e es ih =>
    rw [attach_listed]
    split
    · exact ih hs
    split
    · exact ih hs
    have hload := load_driver_quiet hw (driver_path [d, ['/'], e]) s
    revert hload
    rcases load_driver w (driver_path [d, ['/'], e]) s with ⟨_ | ⟨drv, h⟩, t⟩
    · rintro ⟨hq, hdrv, -⟩
      exact .after hq (ih (HonestQuiet.same hs hq hdrv).honest)
    · rintro ⟨hq, hdrv, hd⟩
      have ht : HonestDrv uncap t := (HonestQuiet.same hs hq hdrv).honest
      by_cases hm : driver_matches drv id = true
      · simp only [if_pos hm]
        exact .after hq (attach_verified_quiet ht (hd drv h rfl) h)
      · simp only [if_neg hm]
        exact .after (hq.trans (dlclose_quiet h t)) (ih (s := dlclose h t) ht)

theorem detach_quiet (s : DrvDev σ ι γ) :
    UncapQuiet uncap s (accudisc_driver_detach s) ∧ (accudisc_driver_detach s).drv = none := by
  unfold accudisc_driver_detach
  cases hd : s.drv with
  | none => exact ⟨.refl, hd⟩
  | some d =>
    dsimp only
    cases s.drv_handle with
    | none => exact ⟨⟨rfl, rfl, rfl⟩, rfl⟩
    | some h => exact ⟨⟨rfl, rfl, rfl⟩, rfl⟩

theorem attach_quiet (hw : WorldHonest uncap w) (name dir : Option (List Char)) (s : DrvDev σ ι γ) :
    HonestQuiet uncap s (accudisc_driver_attach w name dir s).2 := by
  obtain ⟨hdet, hnone⟩ := @detach_quiet σ ι γ uncap s
  unfold accudisc_driver_attach
  dsimp only
  have hid : UncapQuiet uncap s
      { accudisc_driver_detach s with drive := (w.identify (accudisc_driver_detach s).drive).2 } :=
    ⟨(hw.identify _).trans hdet.drive, hdet.memo, hdet.sets⟩
  have hfree :
    HonestDrv uncap
    { accudisc_driver_detach s with drive := (w.identify (accudisc_driver_detach s).drive).2 } := by
    intro d hd
    rw [show _ = none from hnone] at hd
    cases hd
  revert hid hfree
  generalize { accudisc_driver_detach s with drive := (w.identify (accudisc_driver_detach s).drive).2 } = r
  generalize (w.identify (accudisc_driver_detach s).drive).1 = a
  intro hid hfree
  split
  · exact ⟨hid, hfree⟩
  cases name with
  | none =>
    dsimp only
    cases w.opendir (driver_dir w dir) with
    | none => exact ⟨hid, hfree⟩
    | some es => exact .after hid (attach_listed_quiet hw es hfree)
  | some n =>
    dsimp only
    have hload := load_driver_quiet hw (driver_path [driver_dir w dir, ['/'], DRV_PREFIX, n, DRV_SUFFIX]) r
    revert hload
    rcases load_driver w (driver_path [driver_dir w dir, ['/'], DRV_PREFIX, n, DRV_SUFFIX]) r
      with ⟨_ | ⟨drv, h⟩, t⟩
    · rintro ⟨hq, hdrv, -⟩
      exact .after hid (.same hfree hq hdrv)
    · rintro ⟨hq, hdrv, hd⟩
      have ht : HonestDrv uncap t := (HonestQuiet.same hfree hq hdrv).honest
      by_cases hm : driver_matches drv a.2 = true
      · simp only [if_pos hm]
        exact .after (hid.trans hq) (attach_verified_quiet ht (hd drv h rfl) h)
      · simp only [if_neg hm]
        exact .after hid (.same hfree (hq.trans (dlclose_quiet h t)) hdrv)

/-! One call, and a program of them. -/

theorem push_step (hs : HonestDrv uncap s) (on : Int) :
    UncapStep uncap s (accudisc_speed_uncap_push on s).2 := by
  have hget := uncap_get_quiet hs
  have hs' : HonestDrv uncap (accudisc_speed_uncap_get 0 s).2 :=
    (HonestQuiet.same hs hget delegated_drv).honest
  unfold accudisc_speed_uncap_push
  dsimp only
  split
  · exact .inl hget
  · rcases UncapStep.of_set hs' on with hq | ⟨v, rc, ha⟩
    · exact .inl (hget.trans hq)
    · exact .inr ⟨v, rc, hget.asked ha⟩

theorem push_prior (on : Int) : (accudisc_speed_uncap_push on s).1.2 =
    if (accudisc_speed_uncap_get 0 s).1.1 = ACCUDISC_OK then
      (accudisc_speed_uncap_get 0 s).1.2 else -1 := by
  unfold accudisc_speed_uncap_push
  by_cases hok : (accudisc_speed_uncap_get 0 s).1.1 = ACCUDISC_OK
  · simp only [if_pos hok, if_neg (not_not.2 hok)]
  · simp only [if_pos hok, if_neg hok]

theorem push_drv (on : Int) : (accudisc_speed_uncap_push on s).2.drv = s.drv := by
  unfold accudisc_speed_uncap_push
  dsimp only
  split
  · exact delegated_drv
  · exact (uncap_set_drv on).trans delegated_drv

theorem pop_step (hs : HonestDrv uncap s) (prior : Int) :
    UncapStep uncap s (accudisc_speed_uncap_pop prior s).2 := by
  unfold accudisc_speed_uncap_pop
  split
  · exact .inl .refl
  · exact .of_set hs _

theorem pop_drv (prior : Int) : (accudisc_speed_uncap_pop prior s).2.drv = s.drv := by
  unfold accudisc_speed_uncap_pop
  split
  · rfl
  · exact uncap_set_drv _

theorem authoritative_quiet (hs : HonestDrv uncap s) :
    UncapQuiet uncap s (adsc_uncap_authoritative s).2 := by
  unfold adsc_uncap_authoritative
  split
  · exact .refl
  · exact uncap_get_quiet hs

theorem probe_quiet (hw : WorldHonest uncap w) (hs : HonestDrv uncap s) :
    UncapQuiet uncap s (accudisc_speed_uncap_probe w s).2 :=
  have hask := authoritative_quiet hs
  ⟨(hw.get_speed _).trans hask.drive, hask.memo, hask.sets⟩

theorem authoritative_drv : (adsc_uncap_authoritative s).2.drv = s.drv := by
  unfold adsc_uncap_authoritative
  split
  · rfl
  · exact delegated_drv

/-- A call keeps the driver honest, and asks for a setting once at most. -/
theorem driver_call_step (hw : WorldHonest uncap w) (hs : HonestDrv uncap s) (c : DriverCall) :
    UncapStep uncap s (driver_call w out s c) ∧ HonestDrv uncap (driver_call w out s c) := by
  have hslot : ∀ {α : Type} {slot : Driver σ ι γ → Option (σ → α × σ)} {e : α},
      (∀ d, DriverHonest uncap d → ∀ f, slot d = some f → ∀ x, uncap (f x).2 = uncap x) →
      UncapStep uncap s (delegated slot e s).2 ∧ HonestDrv uncap (delegated slot e s).2 := by
    intro α slot e hq
    have hquiet : UncapQuiet uncap s (delegated slot e s).2 := delegated_quiet hs hq
    exact ⟨.inl hquiet, (HonestQuiet.same hs hquiet delegated_drv).honest⟩
  have hdrv : ∀ {t : DrvDev σ ι γ}, t.drv = s.drv → HonestDrv uncap t :=
    fun hd d h => hs d (by rwa [hd] at h)
  cases c with
  | ATTACH name dir =>
    have ha := attach_quiet hw name dir s
    exact ⟨.inl ha.quiet, ha.honest⟩
  | DETACH =>
    obtain ⟨hq, hnone⟩ := @detach_quiet σ ι γ uncap s
    refine ⟨.inl hq, fun d hd => ?_⟩
    rw [show (driver_call w out s .DETACH).drv = none from hnone] at hd
    cases hd
  | COUNTER_BEGIN => exact hslot fun d hd => hd.counter_scan_begin
  | COUNTER_READ => exact hslot fun d hd => hd.counter_scan_read
  | COUNTER_END => exact hslot fun d hd => hd.counter_scan_end
  | GOVERNOR_GET => exact hslot fun d hd => hd.governor_get
  | GOVERNOR_SET on =>
    refine hslot fun d hd f hf x => ?_
    obtain ⟨g, hg, rfl⟩ := Option.map_eq_some_iff.1 hf
    exact hd.governor_set g hg _ x
  | UNCAP_GET => exact hslot fun d hd => hd.uncap_get
  | UNCAP_SET on => exact ⟨.of_set hs on, hdrv (uncap_set_drv on)⟩
  | UNCAP_PUSH on => exact ⟨push_step hs on, hdrv (push_drv on)⟩
  | UNCAP_POP prior => exact ⟨pop_step hs prior, hdrv (pop_drv prior)⟩
  | UNCAP_PROBE => exact ⟨.inl (probe_quiet hw hs), hdrv authoritative_drv⟩

theorem driver_calls_honest (hw : WorldHonest uncap w) (calls : List DriverCall) (hs : HonestDrv uncap s) :
    HonestDrv uncap (driver_calls w out calls s) :=
  driver_calls_inv calls hs fun _ c ht => (driver_call_step hw ht c).2

/-- What the memory of the setting rests on: the last set that was accepted, and, where it was the last of
all, the drive. -/
structure UncapKnown (uncap : σ → Bool) (s : DrvDev σ ι γ) : Prop where
  honest : HonestDrv uncap s
  memo : s.uncap_set = match s.uncap_sets.find? (·.2 = ACCUDISC_OK) with
    | none => 0
    | some a => if a.1 ≠ 0 then 1 else -1
  drive : ∀ v, s.uncap_sets.head? = some (v, ACCUDISC_OK) → (uncap s.drive = true ↔ v ≠ 0)

theorem UncapKnown.call (hw : WorldHonest uncap w) (hk : UncapKnown uncap s) (c : DriverCall) :
    UncapKnown uncap (driver_call w out s c) := by
  obtain ⟨hstep, hhonest⟩ := @driver_call_step σ ι γ w s out uncap hw hk.honest c
  rcases hstep with hq | ⟨v, rc, ha⟩
  · refine ⟨hhonest, ?_, ?_⟩
    · rw [hq.memo, hq.sets]
      exact hk.memo
    · rw [hq.drive, hq.sets]
      exact hk.drive
  · by_cases hr : rc = ACCUDISC_OK
    · obtain ⟨hbit, hmemo⟩ := ha.took hr
      refine ⟨hhonest, ?_, fun v' hv => ?_⟩
      · rw [ha.sets, hmemo, List.find?_cons_of_pos (by simpa using hr)]
      · rw [ha.sets, List.head?_cons] at hv
        cases hv
        exact hbit
    · refine ⟨hhonest, ?_, fun v' hv => ?_⟩
      · rw [ha.sets, ha.refused hr, List.find?_cons_of_neg (by simpa using hr)]
        exact hk.memo
      · rw [ha.sets, List.head?_cons] at hv
        cases hv
        exact absurd rfl hr

theorem UncapKnown.opened (x : σ) : UncapKnown uncap (driver_opened x : DrvDev σ ι γ) where
  honest := by
    intro d hd
    cases hd
  memo := rfl
  drive := by
    intro v hv
    cases hv

/-- The probe's answer is the drive's setting. -/
structure UncapTold (uncap : σ → Bool) (w : DriverWorld σ ι γ) (s : DrvDev σ ι γ) : Prop where
  on : (accudisc_speed_uncap_probe w s).1.1 = .ON → uncap s.drive = true
  off : (accudisc_speed_uncap_probe w s).1.1 = .OFF → uncap s.drive = false

theorem UncapKnown.told (hk : UncapKnown uncap s)
    (hlast : ∀ v rc, s.uncap_sets.head? = some (v, rc) → rc = ACCUDISC_OK) : UncapTold uncap w s := by
  by_cases hset : s.uncap_set ≠ 0
  · have hprobe : (accudisc_speed_uncap_probe w s).1.1 = if 0 < s.uncap_set then .ON else .OFF := by
      simp only [accudisc_speed_uncap_probe, adsc_uncap_authoritative, if_pos hset]
    have hmemo := hk.memo
    cases hs : s.uncap_sets with
    | nil =>
      rw [hs] at hmemo
      exact absurd hmemo hset
    | cons a sets =>
      obtain ⟨v, rc⟩ := a
      obtain rfl := hlast v rc (by rw [hs]; rfl)
      rw [hs, List.find?_cons_of_pos (by simp)] at hmemo
      have hbit := hk.drive v (by rw [hs]; rfl)
      rw [hmemo] at hprobe
      by_cases hv : v ≠ 0
      · simp only [if_pos hv] at hprobe
        exact ⟨fun _ => hbit.2 hv, fun h => absurd (hprobe.symm.trans h) (by decide)⟩
      · simp only [if_neg hv] at hprobe
        refine ⟨fun h => absurd (hprobe.symm.trans h) (by decide), fun _ => ?_⟩
        exact Bool.eq_false_iff.2 fun h => hv (hbit.1 h)
  · have htold := uncap_get_told (s := s) hk.honest
    have hprobe : (accudisc_speed_uncap_probe w s).1.1 =
        if (accudisc_speed_uncap_get 0 s).1.1 = ACCUDISC_OK then
          (if (accudisc_speed_uncap_get 0 s).1.2 ≠ 0 then .ON else .OFF) else .UNKNOWN := by
      simp only [accudisc_speed_uncap_probe, adsc_uncap_authoritative, if_neg hset]
    by_cases hok : (accudisc_speed_uncap_get 0 s).1.1 = ACCUDISC_OK
    · rw [if_pos hok] at hprobe
      obtain ⟨-, hbit⟩ := htold hok
      by_cases hv : (accudisc_speed_uncap_get 0 s).1.2 ≠ 0
      · rw [if_pos hv] at hprobe
        exact ⟨fun _ => hbit.1 hv, fun h => absurd (hprobe.symm.trans h) (by decide)⟩
      · rw [if_neg hv] at hprobe
        refine ⟨fun h => absurd (hprobe.symm.trans h) (by decide), fun _ => ?_⟩
        exact Bool.eq_false_iff.2 fun h => hv (hbit.2 h)
    · rw [if_neg hok] at hprobe
      exact ⟨fun h => absurd (hprobe.symm.trans h) (by decide), fun h =>
        absurd (hprobe.symm.trans h) (by decide)⟩

/-- **The probe tells the truth**: where the drivers do, after any program whose last set was
not refused. -/
theorem accudisc_speed_uncap_probe_told (uncap : σ → Bool) (w : DriverWorld σ ι γ)
    (hw : WorldHonest uncap w) (x : σ)
    (out : γ) (calls : List DriverCall)
    (hlast : ∀ v rc, (driver_calls w out calls (driver_opened x)).uncap_sets.head? = some (v, rc) →
      rc = ACCUDISC_OK) :
    UncapTold uncap w (driver_calls w out calls (driver_opened x)) := by
  have hknown : UncapKnown uncap (driver_calls w out calls (driver_opened x)) :=
    driver_calls_inv calls (UncapKnown.opened x) fun _ c ht => ht.call hw c
  exact hknown.told hlast

/-- A drive that is its uncap bit, and its driver. -/
def bit_driver : Driver Bool Unit Unit where
  abi := 6
  name := some ['p']
  matches' := some fun _ => true
  selftest := some fun x => (0, x)
  speed_uncap_get := some fun x => ((0, if x then 1 else 0), x)
  speed_uncap_set := some fun v _ => (0, v ≠ 0)

def bit_world : DriverWorld Bool Unit Unit where
  files := fun _ => .ENTRY bit_driver
  opendir := fun _ => none
  env := none
  identify := fun x => ((0, ()), x)
  get_speed := fun x => (some 8467, x)

theorem bit_driver_honest : DriverHonest id bit_driver where
  selftest := by rintro f ⟨⟩ x; rfl
  counter_scan_begin := by rintro f ⟨⟩
  counter_scan_read := by rintro f ⟨⟩
  counter_scan_end := by rintro f ⟨⟩
  governor_get := by rintro f ⟨⟩
  governor_set := by rintro f ⟨⟩
  uncap_get := by rintro f ⟨⟩ x; rfl
  told := by rintro f ⟨⟩ x _; cases x <;> decide
  uncap_set := by rintro f ⟨⟩ v x _; simp

theorem bit_world_honest : WorldHonest id bit_world where
  files := by rintro path d ⟨⟩; exact bit_driver_honest
  identify := fun _ => rfl
  get_speed := fun _ => rfl

theorem accudisc_speed_uncap_probe_told_set : UncapTold id bit_world
    (driver_calls bit_world () [.ATTACH (some ['p']) none, .UNCAP_SET 1, .DETACH] (driver_opened false)) :=
  accudisc_speed_uncap_probe_told id bit_world bit_world_honest false () _ (by rintro v rc ⟨⟩; rfl)

/-- A push, a program, and the pop of what the push gave. -/
structure UncapBracket (uncap : σ → Bool) (w : DriverWorld σ ι γ) (out : γ) (on : Int)
    (calls : List DriverCall)
    (s : DrvDev σ ι γ) : Prop where
  empty : (accudisc_speed_uncap_push on s).1.2 < 0 →
    uncap (accudisc_speed_uncap_push on s).2.drive = uncap s.drive ∧
    ∀ t : DrvDev σ ι γ, accudisc_speed_uncap_pop (accudisc_speed_uncap_push on s).1.2 t = (ACCUDISC_OK, t)
  restored : 0 ≤ (accudisc_speed_uncap_push on s).1.2 →
    let t := driver_calls w out calls (accudisc_speed_uncap_push on s).2
    (accudisc_speed_uncap_pop (accudisc_speed_uncap_push on s).1.2 t).1 = ACCUDISC_OK →
    uncap (accudisc_speed_uncap_pop (accudisc_speed_uncap_push on s).1.2 t).2.drive = uncap s.drive

/-- **A push and its pop restore the setting**, whatever a program does between them. -/
theorem accudisc_speed_uncap_push_pop (uncap : σ → Bool) (w : DriverWorld σ ι γ)
    (hw : WorldHonest uncap w) (x : σ)
    (out : γ) (before calls : List DriverCall) (on : Int) :
    UncapBracket uncap w out on calls (driver_calls w out before (driver_opened x)) := by
  have hs : HonestDrv uncap (driver_calls w out before (driver_opened x)) :=
    driver_calls_honest hw before (UncapKnown.opened x).honest
  revert hs
  generalize driver_calls w out before (driver_opened x) = s
  intro hs
  have hget := uncap_get_quiet hs
  have hprior := push_prior (s := s) on
  constructor
  case empty =>
    intro hneg
    by_cases hok : (accudisc_speed_uncap_get 0 s).1.1 = ACCUDISC_OK
    · rw [hprior, if_pos hok] at hneg
      have := (uncap_get_told hs hok).1
      omega
    · rw [hprior, if_neg hok]
      refine ⟨?_, fun t => if_pos (by decide)⟩
      unfold accudisc_speed_uncap_push
      dsimp only
      rw [if_pos hok]
      exact hget.drive
  case restored =>
    intro hpos t hpop
    by_cases hok : (accudisc_speed_uncap_get 0 s).1.1 = ACCUDISC_OK
    · rw [if_pos hok] at hprior
      obtain ⟨hnat, hbit⟩ := uncap_get_told hs hok
      have ht : HonestDrv uncap t := driver_calls_honest hw calls fun d hd => hs d (by rwa [push_drv] at hd)
      clear_value t
      rw [hprior] at hpop ⊢
      generalize (accudisc_speed_uncap_get 0 s).1.2 = prior at *
      have heq : accudisc_speed_uncap_pop prior t = accudisc_speed_uncap_set (flag_value prior) t :=
        if_neg (by omega)
      rw [heq] at hpop ⊢
      rcases uncap_set_step ht (flag_value prior) with he | ha
      · rw [he] at hpop
        exact absurd (show ACCUDISC_ERR_UNSUPPORTED = ACCUDISC_OK from hpop) (by decide)
      · have hset := (ha.took hpop).1
        have hflag : flag_value (flag_value prior) ≠ 0 ↔ prior ≠ 0 := by
          unfold flag_value
          by_cases h : prior ≠ 0
          · simp [h]
          · simp [not_not.1 h]
        exact Bool.eq_iff_iff.2 (hset.trans (hflag.trans hbit))
    · rw [hprior, if_neg hok] at hpos
      omega

theorem accudisc_speed_uncap_push_pop_bit :
    UncapBracket id bit_world () 1 [.UNCAP_SET 0, .DETACH, .ATTACH (some ['p']) none]
    (driver_calls bit_world () [.ATTACH (some ['p']) none] (driver_opened false)) :=
  accudisc_speed_uncap_push_pop id bit_world bit_world_honest false () _ _ 1

end

end Accudisc
