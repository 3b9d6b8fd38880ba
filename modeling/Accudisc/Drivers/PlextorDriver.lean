import Accudisc.Drive.Driver
import Accudisc.Drivers.Plextor

/-!
# The Plextor driver (`plextor.c`)

The rest of the driver: the counters, SpeedRead, POWEREC and the selftest. The drive is `exec`: a command
takes it to its next state with a code, and leaves bytes in the response buffer.
-/

namespace Accudisc

def OP_PLEXTOR_CX : BitVec 8 := 0xEA
def CX_COUNTERS_LEN : Nat := 26
def PX_MODE_SET : BitVec 8 := 0x10

/-- `accudisc_counters`. -/
structure PxCounters where
  c1 : Nat := 0
  c2 : Nat := 0
  cu : Nat := 0
  bler : Nat := 0
  e31 : Nat := 0
  e21 : Nat := 0
  e11 : Nat := 0
  uncr : Nat := 0
  e32 : Nat := 0
  e22 : Nat := 0
  e12 : Nat := 0
  have_detail : Bool := false
deriving DecidableEq

def px_cx_cmd (sub : BitVec 8) (len : Nat) : HostCmd :=
  ⟨cdb_of ([(0, OP_PLEXTOR_CX), (1, sub)] ++ (if sub = 0x15 then [(3, 0x01)] else []) ++
      if sub = 0x16 then [(2, 0x01), (10, BitVec.ofNat 8 len)] else []),
    if len ≠ 0 then .in_ else .none, len, 30000⟩

def px_mode (dir page val : BitVec 8) : HostCmd :=
  ⟨cdb_of [(0, OP_PLEXTOR_MODE), (1, dir), (2, page), (3, val), (10, BitVec.ofNat 8 PX_MODE_LEN)], .in_,
    PX_MODE_LEN, 10000⟩

/-- `px_mode2` without a value. -/
def px_mode2_get (modecode : BitVec 8) : HostCmd :=
  ⟨cdb_of [(0, OP_PLEXTOR_MODE2), (2, modecode), (8, BitVec.ofNat 8 (PX_MODE2_LEN >>> 8)),
    (9, BitVec.ofNat 8 (PX_MODE2_LEN &&& 0xff))], .in_, PX_MODE2_LEN, 10000⟩

/-- `px_mode2` with one. -/
def px_mode2_set (modecode val : BitVec 8) : HostCmd :=
  ⟨cdb_of [(0, OP_PLEXTOR_MODE2), (1, 0x10 ||| (if val ≠ 0 then 0x01 else 0x00)), (2, modecode)],
    .none, 0, 10000⟩

section
variable {σ : Type} (exec : HostCmd → σ → (Int × Mem) × σ)

def px_governor_get (x : σ) : (Int × Int × Nat) × σ :=
  let a := exec (px_mode2_get PX_MODE2_CODE_POWEREC) x
  if a.1.1 ≠ ACCUDISC_OK then ((a.1.1, 0, 0), a.2)
  else ((ACCUDISC_OK, if a.1.2 2 &&& PX_POWEREC_BIT ≠ 0 then 1 else 0,
    (a.1.2 4).toNat * 256 + (a.1.2 5).toNat), a.2)

/-- The set returns nothing, so it is read again. -/
def px_governor_set (on : Int) (x : σ) : Int × σ :=
  let a := exec (px_mode2_set PX_MODE2_CODE_POWEREC (if on ≠ 0 then 1 else 0)) x
  if a.1.1 ≠ ACCUDISC_OK then (a.1.1, a.2)
  else
    let b := px_governor_get exec a.2
    if b.1.1 ≠ ACCUDISC_OK then (b.1.1, b.2)
    else if b.1.2.1 ≠ flag_value on then (ACCUDISC_ERR_UNSUPPORTED, b.2)
    else (ACCUDISC_OK, b.2)

def px_speed_uncap_get (x : σ) : (Int × Int) × σ :=
  let a := exec (px_mode PX_MODE_GET PX_PAGE_SPEEDREAD 0) x
  if a.1.1 ≠ ACCUDISC_OK then ((a.1.1, 0), a.2) else ((ACCUDISC_OK, if a.1.2 2 ≠ 0 then 1 else 0), a.2)

/-- The set echoes the page that it leaves. -/
def px_speed_uncap_set (on : Int) (x : σ) : Int × σ :=
  let a := exec (px_mode PX_MODE_SET PX_PAGE_SPEEDREAD (if on ≠ 0 then 1 else 0)) x
  if a.1.1 ≠ ACCUDISC_OK then (a.1.1, a.2)
  else if (if a.1.2 2 ≠ 0 then (1 : Int) else 0) ≠ flag_value on then (ACCUDISC_ERR_UNSUPPORTED, a.2)
  else (ACCUDISC_OK, a.2)

def px_begin (x : σ) : Int × σ :=
  let a := exec (px_cx_cmd 0x15 0) x
  (a.1.1, a.2)

def px_read (x : σ) : (Int × PxCounters) × σ :=
  let a := exec (px_cx_cmd 0x16 CX_COUNTERS_LEN) x
  let at' := fun k => (a.1.2 k).toNat * 256 + (a.1.2 (k + 1)).toNat
  if a.1.1 ≠ ACCUDISC_OK then ((a.1.1, {}), a.2)
  else ((ACCUDISC_OK,
    { bler := at' 10, e31 := at' 12, e21 := at' 14, e11 := at' 16, uncr := at' 18, e32 := at' 20,
                        e22 := at' 22, e12 := at' 24, have_detail := true, c1 :=
                          at' 16 + at' 14 + at' 12, c2 := at' 22,
                        cu := at' 20 }), a.2)

def px_end (x : σ) : Int × σ :=
  let a := exec (px_cx_cmd 0x17 0) x
  (a.1.1, a.2)

/-- The scan is disarmed on every way out, once it was armed. -/
def px_selftest_cx (x : σ) : Int × σ :=
  let a := px_begin exec x
  if a.1 ≠ ACCUDISC_OK then (ACCUDISC_ERR_UNSUPPORTED, a.2)
  else
    let b := px_read exec a.2
    if b.1.1 ≠ ACCUDISC_OK then (ACCUDISC_ERR_UNSUPPORTED, (px_end exec b.2).2)
    else
      let c := px_end exec b.2
      if c.1 ≠ ACCUDISC_OK then (ACCUDISC_ERR_UNSUPPORTED, c.2) else (ACCUDISC_OK, c.2)

/-- Read SpeedRead, set it to what it is, and read it again. -/
def px_selftest (x : σ) : Int × σ :=
  let a := exec (px_mode PX_MODE_GET PX_PAGE_SPEEDREAD 0) x
  if a.1.1 = ACCUDISC_ERR_SENSE then px_selftest_cx exec a.2
  else if a.1.1 ≠ ACCUDISC_OK then (ACCUDISC_ERR_UNSUPPORTED, a.2)
  else
    let cur : BitVec 8 := if a.1.2 2 ≠ 0 then 1 else 0
    let b := exec (px_mode PX_MODE_SET PX_PAGE_SPEEDREAD cur) a.2
    if b.1.1 ≠ ACCUDISC_OK ∨ (if b.1.2 2 ≠ 0 then (1 : BitVec 8) else 0) ≠ cur then
      (ACCUDISC_ERR_UNSUPPORTED, b.2)
    else
      let c := exec (px_mode PX_MODE_GET PX_PAGE_SPEEDREAD 0) b.2
      if c.1.1 ≠ ACCUDISC_OK ∨ (if c.1.2 2 ≠ 0 then (1 : BitVec 8) else 0) ≠ cur then
        (ACCUDISC_ERR_UNSUPPORTED, c.2)
      else (ACCUDISC_OK, c.2)

/-- The drive's vendor field is all that it looks at. -/
def px_match (vendor : List Char) : Bool := vendor = "PLEXTOR".toList

def plextor_driver : Driver σ (List Char) PxCounters where
  abi := ACCUDISC_DRIVER_ABI
  name := some "plextor".toList
  matches' := some px_match
  selftest := some (px_selftest exec)
  counter_scan_begin := some (px_begin exec)
  counter_scan_read := some (px_read exec)
  counter_scan_end := some (px_end exec)
  speed_uncap_get := some (px_speed_uncap_get exec)
  speed_uncap_set := some (px_speed_uncap_set exec)
  write_governor_get := some (px_governor_get exec)
  write_governor_set := some (px_governor_set exec)

end

end Accudisc
