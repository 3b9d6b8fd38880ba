import Accudisc.Mmc.Cdb
import Accudisc.Write.Burn

/-!
# Setting the read speed (`device.c`, `cdb.c`)

SET STREAMING sets a read ceiling, and carries the write rate with it: its descriptor cannot leave the
write rate alone. `StreamDesc.decode` is the descriptor as a drive reads it.
-/

namespace Accudisc

open BigEndian

/-- The performance descriptor of SET STREAMING. -/
structure StreamDesc where
  rdd : Bool
  exact : Bool
  start_lba : Nat
  end_lba : Nat
  read_size : Nat
  read_time : Nat
  write_size : Nat
  write_time : Nat
deriving DecidableEq

def StreamDesc.decode (desc : List (BitVec 8)) : Option StreamDesc :=
  if desc.length ≠ 28 then none
  else
    let at' := fun k => join ((desc.drop k).take 4)
    let flags := (desc.headD 0).toNat
    some { rdd := flags / 4 % 2 = 1, exact := flags / 2 % 2 = 1, start_lba := at' 4, end_lba := at' 8,
           read_size := at' 12, read_time := at' 16, write_size := at' 20, write_time := at' 24 }

/-- The drive, as these calls see it: what it answers to the commands of one `adsc_dev_cur_write_kbps`,
and the code and `dev->last_sense` that SET STREAMING leaves. -/
structure SpeedHost (σ : Type) where
  mode_sense : σ → (Nat → DriveAnswer) × σ
  set_streaming : List (BitVec 8) → σ → (Int × SenseData) × σ
  select_speed : Nat → σ → Int × σ

/-- `adsc_dev_cur_write_kbps` on it, none where it fails. -/
def SpeedHost.cur_write_kbps {σ : Type} (host : SpeedHost σ) (x : σ) : Option Nat × σ :=
  let r := (Exit.out (adsc_dev_cur_write_kbps (host.mode_sense x).1) {}).1
  (r.toOption.bind Except.toOption, (host.mode_sense x).2)

/-- The handle. `descs` are the descriptors sent, latest first, `unsaid` the times that the drive would
not report its write rate, and `selects` the times that the block layer was asked. -/
structure SpeedDev (σ : Type) where
  drive : σ
  streaming : Int := 0
  descs : List (List (BitVec 8)) := []
  unsaid : Nat := 0
  selects : Nat := 0

section
variable {σ : Type} (host : SpeedHost σ)

/-- SET STREAMING with the write rate that the drive reports, 0 where it reports none. -/
def stream_ceiling (speed_x start_lba end_lba : Nat) (exact : Bool) (s : SpeedDev σ) :
    (Int × SenseData) × SpeedDev σ :=
  let w := host.cur_write_kbps s.drive
  let wkbps := w.1.getD 0
  let desc := adsc_cdb_set_streaming_desc speed_x start_lba end_lba exact wkbps
  let r := host.set_streaming desc w.2
  (r.1, { s with
    drive := r.2
    descs := desc :: s.descs
    unsaid := s.unsaid + if w.1.isNone then 1 else 0 })

def select_speed (speed_x : Nat) (s : SpeedDev σ) : Int × SpeedDev σ :=
  let r := host.select_speed speed_x s.drive
  (r.1, { s with drive := r.2, selects := s.selects + 1 })

def accudisc_set_speed (speed_x : Nat) (s : SpeedDev σ) : Int × SpeedDev σ :=
  if 0 ≤ s.streaming then
    let r := stream_ceiling host speed_x 0 0xFFFFFFFF false s
    let rc := r.1.1
    if rc = ACCUDISC_OK then (ACCUDISC_OK, { r.2 with streaming := 1 })
    else if rc = ACCUDISC_ERR_IO ∨ (r.1.2.valid = true ∧ r.1.2.key = 0x05) then
      select_speed host speed_x { r.2 with streaming := -1 }
    else select_speed host speed_x r.2
  else select_speed host speed_x s

/-- `(uint32_t)lba`. -/
def u32_of_int (lba : Int) : Nat := (lba % 4294967296).toNat

/-- No other way of setting a range. -/
def accudisc_set_speed_range (speed_x : Nat) (start_lba end_lba : Int) (exact : Bool) (s : SpeedDev σ) :
    Int × SpeedDev σ :=
  let r := stream_ceiling host speed_x (u32_of_int start_lba) (u32_of_int end_lba) exact s
  (r.1.1, r.2)

inductive SpeedSetting where
  | SPEED (x : Nat)
  | RANGE (x : Nat) (start_lba end_lba : Int) (exact : Bool)

def SpeedSetting.x : SpeedSetting → Nat
  | SPEED x => x
  | RANGE x _ _ _ => x

def speed_setting (s : SpeedDev σ) : SpeedSetting → SpeedDev σ
  | .SPEED x => (accudisc_set_speed host x s).2
  | .RANGE x start_lba end_lba exact => (accudisc_set_speed_range host x start_lba end_lba exact s).2

def speed_settings (calls : List SpeedSetting) (s : SpeedDev σ) : SpeedDev σ :=
  calls.foldl (speed_setting host) s

end

end Accudisc
