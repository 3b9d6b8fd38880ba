import Accudisc.Drive.Offsets

/-!
# Who the drive is (`mmc.c`, `device.c`, `offsets.c`)

The fields of INQUIRY as C strings, asked for once on a handle, and the offset that is looked up by them.
`answers k` is what INQUIRY `k` comes back with.
-/

namespace Accudisc

/-- Where a field ends without its padding. -/
def trim_len (src : Mem) : Nat → Nat
  | 0 => 0
  | n + 1 => if src n = SPACE ∨ src n = 0 then trim_len src n else n + 1

/-- The bytes that `copy_trim` stores, the NUL included. -/
def copy_trim (src : Mem) (n : Nat) : Chars := (List.range (trim_len src n)).map src ++ [0]

/-- `accudisc_drive_id`. -/
structure DriveId where
  vendor : Chars
  product : Chars
  revision : Chars
deriving DecidableEq

def adsc_mmc_inquiry (answer : Int × Mem) : Except Int DriveId :=
  if answer.1 ≠ ACCUDISC_OK then .error answer.1
  else .ok
    { vendor := copy_trim (fun i => answer.2 (8 + i)) 8
      product := copy_trim (fun i => answer.2 (16 + i)) 16
      revision := copy_trim (fun i => answer.2 (32 + i)) 4 }

/-- `id` with `id_valid`, and the INQUIRYs sent. -/
structure IdDev where
  id : Option DriveId := none
  inquiries : Nat := 0
deriving DecidableEq

section
variable (answers : Nat → Int × Mem) (offsets : List OffsetEntry)

def adsc_dev_identify (dev : IdDev) : Except Int DriveId × IdDev :=
  match dev.id with
  | some id => (.ok id, dev)
  | none =>
    let r := adsc_mmc_inquiry (answers dev.inquiries)
    (r, { id := r.toOption, inquiries := dev.inquiries + 1 })

def accudisc_drive_identify (args : Bool) (dev : IdDev) : Except Int DriveId × IdDev :=
  if !args then (.error ACCUDISC_ERR_INVAL, dev) else adsc_dev_identify answers dev

def accudisc_offset_for_device (args : Bool) (size : Nat) (dev : IdDev) :
    Option (Int × OffsetInfo) × IdDev :=
  if !args then (some (ACCUDISC_ERR_INVAL, {}), dev)
  else
    let r := adsc_dev_identify answers dev
    match r.1 with
    | .error rc => (some (rc, {}), r.2)
    | .ok id => (accudisc_offset_for_inquiry offsets id.vendor id.product true size, r.2)

/-- A single number or a code. -/
def accudisc_read_offset (args : Bool) (dev : IdDev) : Option (Except Int Int) × IdDev :=
  if !args then (some (.error ACCUDISC_ERR_INVAL), dev)
  else
    let r := accudisc_offset_for_device answers offsets true sizeof_offset_info dev
    (r.1.map fun a => if a.1 = ACCUDISC_OK then .ok a.2.read_offset else .error a.1, r.2)

/-- The calls that want to know who the drive is. -/
inductive IdCall where
  | IDENTIFY (args : Bool)
  | OFFSET (args : Bool) (size : Nat)
  | READ_OFFSET (args : Bool)
deriving DecidableEq

def id_call (dev : IdDev) : IdCall → IdDev
  | .IDENTIFY args => (accudisc_drive_identify answers args dev).2
  | .OFFSET args size => (accudisc_offset_for_device answers offsets args size dev).2
  | .READ_OFFSET args => (accudisc_read_offset answers offsets args dev).2

def id_calls (calls : List IdCall) (dev : IdDev) : IdDev := calls.foldl (id_call answers offsets) dev

end

end Accudisc
