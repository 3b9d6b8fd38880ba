import Accudisc.Err
import Mathlib.Data.List.Basic

/-!
# Vendor drivers and the read uncap (`driver.c`, `uncap.c`)

A driver is what its shared object exports: functions that talk to the drive `σ` and return a code. The
manager opens shared objects, keeps one that matches the drive and passes its own selftest, and hands its
capabilities on. The uncap is remembered beside it, because it is a setting of the drive and stays when
the driver is gone.
-/

namespace Accudisc

def ACCUDISC_DRIVER_ABI : Nat := 6
def ACCUDISC_DRIVER_ABI_MIN : Nat := 4

def DRV_PREFIX : List Char := "accudisc-drv-".toList
def DRV_SUFFIX : List Char := ".so".toList
def ACCUDISC_DRIVER_DIR_DEFAULT : List Char := "/usr/local/lib/accudisc/drivers".toList

/-- `accudisc_driver`: what is `none` is a null pointer. -/
structure Driver (σ ι γ : Type) where
  abi : Nat
  name : Option (List Char)
  matches' : Option (ι → Bool)
  selftest : Option (σ → Int × σ)
  counter_scan_begin : Option (σ → Int × σ) := none
  counter_scan_read : Option (σ → (Int × γ) × σ) := none
  counter_scan_end : Option (σ → Int × σ) := none
  speed_uncap_get : Option (σ → (Int × Int) × σ) := none
  speed_uncap_set : Option (Int → σ → Int × σ) := none
  write_governor_get : Option (σ → (Int × Int × Nat) × σ) := none
  write_governor_set : Option (Int → σ → Int × σ) := none

/-- What `dlopen` makes of a path: nothing, an object whose entry is missing or null, or a descriptor. -/
inductive DriverFile (σ ι γ : Type) where
  | MISSING
  | NO_ENTRY
  | ENTRY (drv : Driver σ ι γ)

/-- What the process finds around it, and what the drive answers to the library's own commands. -/
structure DriverWorld (σ ι γ : Type) where
  files : List Char → DriverFile σ ι γ
  opendir : List Char → Option (List (List Char))
  env : Option (List Char)
  identify : σ → (Int × ι) × σ
  /-- The MODE SENSE of `accudisc_get_speed`: the greatest speed, unless the call fails. -/
  get_speed : σ → Option Nat × σ

/-- The handle: `loaded` are the objects open, `opened` how many were opened, `stray` a `dlclose` of
one that was not open. `uncap_sets` are the calls of a driver's `speed_uncap_set` with their codes,
latest first. -/
structure DrvDev (σ ι γ : Type) where
  drive : σ
  drv : Option (Driver σ ι γ) := none
  drv_handle : Option Nat := none
  uncap_set : Int := 0
  loaded : List Nat := []
  opened : Nat := 0
  stray : Bool := false
  uncap_sets : List (Int × Int) := []

section
variable {σ ι γ : Type} (w : DriverWorld σ ι γ)

def dlclose (h : Nat) (s : DrvDev σ ι γ) : DrvDev σ ι γ :=
  { s with loaded := s.loaded.erase h, stray := s.stray || !s.loaded.contains h }

def dlopen (s : DrvDev σ ι γ) : Nat × DrvDev σ ι γ :=
  (s.opened, { s with opened := s.opened + 1, loaded := s.opened :: s.loaded })

def driver_dir (dir : Option (List Char)) : List Char :=
  match dir with
  | some d => d
  | none =>
    match w.env with
    | some (c :: cs) => c :: cs
    | _ => ACCUDISC_DRIVER_DIR_DEFAULT

/-- The descriptor can be used. -/
def driver_usable (drv : Driver σ ι γ) : Bool :=
  ACCUDISC_DRIVER_ABI_MIN ≤ drv.abi ∧ drv.abi ≤ ACCUDISC_DRIVER_ABI ∧ drv.name.isSome ∧
    drv.matches'.isSome ∧
    drv.selftest.isSome

def load_driver (path : List Char) (s : DrvDev σ ι γ) : Option (Driver σ ι γ × Nat) × DrvDev σ ι γ :=
  match w.files path with
  | .MISSING => (none, s)
  | .NO_ENTRY =>
    let (h, s) := dlopen s
    (none, dlclose h s)
  | .ENTRY drv =>
    let (h, s) := dlopen s
    if driver_usable drv then (some (drv, h), s) else (none, dlclose h s)

def driver_matches (drv : Driver σ ι γ) (id : ι) : Bool :=
  match drv.matches' with
  | some f => f id
  | none => false

/-- A call through a slot of the descriptor. -/
def call_slot {α : Type} (slot : Option (σ → α × σ)) (none' : α) (s : DrvDev σ ι γ) : α × DrvDev σ ι γ :=
  match slot with
  | none => (none', s)
  | some f =>
    let r := f s.drive
    (r.1, { s with drive := r.2 })

def attach_verified (drv : Driver σ ι γ) (h : Nat) (s : DrvDev σ ι γ) : Int × DrvDev σ ι γ :=
  let r := call_slot drv.selftest ACCUDISC_ERR_UNSUPPORTED s
  if r.1 ≠ ACCUDISC_OK then (ACCUDISC_ERR_UNSUPPORTED, dlclose h r.2)
  else (ACCUDISC_OK, { r.2 with drv := some drv, drv_handle := some h })

def accudisc_driver_detach (s : DrvDev σ ι γ) : DrvDev σ ι γ :=
  match s.drv with
  | none => s
  | some _ =>
    let s := { s with drv := none }
    match s.drv_handle with
    | none => s
    | some h => { dlclose h s with drv_handle := none }

/-- `snprintf` into the 512 bytes of `path`. -/
def driver_path (parts : List (List Char)) : List Char := parts.flatten.take 511

/-- The entries of the directory, in the order it lists them. -/
def attach_listed (d : List Char) (id : ι) : List (List Char) → DrvDev σ ι γ → Int × DrvDev σ ι γ
  | [], s => (ACCUDISC_ERR_NOTFOUND, s)
  | e :: es, s =>
    if e.take DRV_PREFIX.length ≠ DRV_PREFIX then attach_listed d id es s
    else if e.length < DRV_SUFFIX.length ∨ e.drop (e.length - DRV_SUFFIX.length) ≠ DRV_SUFFIX then
      attach_listed d id es s
    else
      match load_driver w (driver_path [d, ['/'], e]) s with
      | (none, s) => attach_listed d id es s
      | (some (drv, h), s) =>
        if driver_matches drv id then attach_verified drv h s else attach_listed d id es (dlclose h s)

/-- The driver of the name, or the first that matches. -/
def accudisc_driver_attach (name dir : Option (List Char)) (s : DrvDev σ ι γ) : Int × DrvDev σ ι γ :=
  let s := accudisc_driver_detach s
  let r := w.identify s.drive
  let s := { s with drive := r.2 }
  if r.1.1 ≠ ACCUDISC_OK then (r.1.1, s)
  else
    let d := driver_dir w dir
    match name with
    | some n =>
      match load_driver w (driver_path [d, ['/'], DRV_PREFIX, n, DRV_SUFFIX]) s with
      | (none, s) => (ACCUDISC_ERR_NOTFOUND, s)
      | (some (drv, h), s) =>
        if driver_matches drv r.1.2 then attach_verified drv h s else (ACCUDISC_ERR_NOTFOUND, dlclose h s)
    | none =>
      match w.opendir d with
      | none => (ACCUDISC_ERR_NOTFOUND, s)
      | some es => attach_listed w d r.1.2 es s

/-- A capability of the driver attached. -/
def delegated {α : Type} (slot : Driver σ ι γ → Option (σ → α × σ)) (none' : α) (s : DrvDev σ ι γ) :
    α × DrvDev σ ι γ :=
  call_slot (s.drv.bind slot) none' s

def accudisc_counter_scan_begin (s : DrvDev σ ι γ) : Int × DrvDev σ ι γ :=
  delegated (·.counter_scan_begin) ACCUDISC_ERR_UNSUPPORTED s

def accudisc_counter_scan_read (out : γ) (s : DrvDev σ ι γ) : (Int × γ) × DrvDev σ ι γ :=
  delegated (·.counter_scan_read) (ACCUDISC_ERR_UNSUPPORTED, out) s

def accudisc_counter_scan_end (s : DrvDev σ ι γ) : Int × DrvDev σ ι γ :=
  delegated (·.counter_scan_end) ACCUDISC_ERR_UNSUPPORTED s

def accudisc_write_governor_get (on : Int) (kbps : Nat) (s : DrvDev σ ι γ) :
    (Int × Int × Nat) × DrvDev σ ι γ :=
  delegated (·.write_governor_get) (ACCUDISC_ERR_UNSUPPORTED, on, kbps) s

/-- `on ? 1 : 0`. -/
def flag_value (on : Int) : Int := if on ≠ 0 then 1 else 0

def accudisc_write_governor_set (on : Int) (s : DrvDev σ ι γ) : Int × DrvDev σ ι γ :=
  delegated (fun d => d.write_governor_set.map fun f => f (flag_value on)) ACCUDISC_ERR_UNSUPPORTED s

def accudisc_speed_uncap_get (on : Int) (s : DrvDev σ ι γ) : (Int × Int) × DrvDev σ ι γ :=
  delegated (·.speed_uncap_get) (ACCUDISC_ERR_UNSUPPORTED, on) s

/-- The setting is remembered where the driver returned `ACCUDISC_OK`. -/
def accudisc_speed_uncap_set (on : Int) (s : DrvDev σ ι γ) : Int × DrvDev σ ι γ :=
  match s.drv.bind (·.speed_uncap_set) with
  | none => (ACCUDISC_ERR_UNSUPPORTED, s)
  | some f =>
    let r := f (flag_value on) s.drive
    let s := { s with drive := r.2, uncap_sets := (flag_value on, r.1) :: s.uncap_sets }
    (r.1, if r.1 = ACCUDISC_OK then { s with uncap_set := if on ≠ 0 then 1 else -1 } else s)

/-- `accudisc_uncap_state`. -/
inductive UncapState where
  | UNKNOWN
  | OFF
  | ON
deriving DecidableEq

def adsc_uncap_authoritative (s : DrvDev σ ι γ) : UncapState × DrvDev σ ι γ :=
  if s.uncap_set ≠ 0 then (if 0 < s.uncap_set then .ON else .OFF, s)
  else
    let r := accudisc_speed_uncap_get 0 s
    (if r.1.1 = ACCUDISC_OK then (if r.1.2 ≠ 0 then .ON else .OFF) else .UNKNOWN, r.2)

/-- The code and `*prior_out`. -/
def accudisc_speed_uncap_push (on : Int) (s : DrvDev σ ι γ) : (Int × Int) × DrvDev σ ι γ :=
  let r := accudisc_speed_uncap_get 0 s
  if r.1.1 ≠ ACCUDISC_OK then ((r.1.1, -1), r.2)
  else
    let t := accudisc_speed_uncap_set on r.2
    ((t.1, r.1.2), t.2)

def accudisc_speed_uncap_pop (prior : Int) (s : DrvDev σ ι γ) : Int × DrvDev σ ι γ :=
  if prior < 0 then (ACCUDISC_OK, s) else accudisc_speed_uncap_set (if prior ≠ 0 then 1 else 0) s

/-- The state, and the greatest speed that page 2A asks for; 1x is 176 kB/s. -/
def accudisc_speed_uncap_probe (s : DrvDev σ ι γ) : (UncapState × Nat) × DrvDev σ ι γ :=
  let r := adsc_uncap_authoritative s
  -- page 2A is asked for on every call, the state known or not
  let v := w.get_speed r.2.drive
  ((r.1, match v.1 with
    | some k => k / 176
    | none => 0), { r.2 with drive := v.2 })

/-- The calls of a program on one handle, in any order. -/
inductive DriverCall where
  | ATTACH (name dir : Option (List Char))
  | DETACH
  | COUNTER_BEGIN
  | COUNTER_READ
  | COUNTER_END
  | GOVERNOR_GET
  | GOVERNOR_SET (on : Int)
  | UNCAP_GET
  | UNCAP_SET (on : Int)
  | UNCAP_PUSH (on : Int)
  | UNCAP_POP (prior : Int)
  | UNCAP_PROBE

/-- A call; `out` is what the caller's counters hold. -/
def driver_call (out : γ) (s : DrvDev σ ι γ) : DriverCall → DrvDev σ ι γ
  | .ATTACH name dir => (accudisc_driver_attach w name dir s).2
  | .DETACH => accudisc_driver_detach s
  | .COUNTER_BEGIN => (accudisc_counter_scan_begin s).2
  | .COUNTER_READ => (accudisc_counter_scan_read out s).2
  | .COUNTER_END => (accudisc_counter_scan_end s).2
  | .GOVERNOR_GET => (accudisc_write_governor_get 0 0 s).2
  | .GOVERNOR_SET on => (accudisc_write_governor_set on s).2
  | .UNCAP_GET => (accudisc_speed_uncap_get 0 s).2
  | .UNCAP_SET on => (accudisc_speed_uncap_set on s).2
  | .UNCAP_PUSH on => (accudisc_speed_uncap_push on s).2
  | .UNCAP_POP prior => (accudisc_speed_uncap_pop prior s).2
  | .UNCAP_PROBE => (accudisc_speed_uncap_probe w s).2

def driver_calls (out : γ) (calls : List DriverCall) (s : DrvDev σ ι γ) : DrvDev σ ι γ :=
  calls.foldl (driver_call w out) s

end

end Accudisc
