import Accudisc.Lib.BigEndian
import Accudisc.Mmc.ReadCd

/-!
# Commands (`cdb.c`, `mmc.c`)

The builders of command descriptor blocks, the commands that the wrappers of `mmc.c` make of them, and
what a drive reads off such a block: `MmcCommand.decode` is the layout of the standard, written down apart
from the builders. A builder's mask `& (2^n - 1)` is a remainder here.
-/

namespace Accudisc

open BigEndian

def ADSC_OP_INQUIRY : BitVec 8 := 0x12
def ADSC_OP_START_STOP : BitVec 8 := 0x1B
def ADSC_OP_WRITE10 : BitVec 8 := 0x2A
def ADSC_OP_SYNC_CACHE : BitVec 8 := 0x35
def ADSC_OP_READ_TOC : BitVec 8 := 0x43
def ADSC_OP_GET_CONFIG : BitVec 8 := 0x46
def ADSC_OP_READ_DISC_INFO : BitVec 8 := 0x51
def ADSC_OP_READ_BUFFER_CAPACITY : BitVec 8 := 0x5C
def ADSC_OP_SEND_OPC : BitVec 8 := 0x54
def ADSC_OP_MODE_SELECT10 : BitVec 8 := 0x55
def ADSC_OP_SEND_CUE : BitVec 8 := 0x5D
def ADSC_OP_MODE_SENSE10 : BitVec 8 := 0x5A
def ADSC_OP_GET_PERFORMANCE : BitVec 8 := 0xAC
def ADSC_OP_SET_STREAMING : BitVec 8 := 0xB6
def ADSC_OP_SET_CD_SPEED : BitVec 8 := 0xBB
def ADSC_OP_READ_CD : BitVec 8 := 0xBE

def ADSC_TIMEOUT_READ_MS : Nat := 60000
def ADSC_TIMEOUT_CTRL_MS : Nat := 30000
def ADSC_TIMEOUT_WRITE_MS : Nat := 120000
def ADSC_PERF_TYPE_NOMINAL : Nat := 0

/-! ## The builders -/

section
variable (alloc param_len : Nat)

def adsc_cdb_inquiry : List (BitVec 8) := [ADSC_OP_INQUIRY, 0, 0, 0, byte alloc 0, 0]

def adsc_cdb_start_stop (start loej : Nat) : List (BitVec 8) :=
  [ADSC_OP_START_STOP, 0, 0, 0, byte (loej % 2 * 2 + start % 2) 0, 0]

def adsc_cdb_read_toc (format time_bit track : Nat) : List (BitVec 8) :=
  [ADSC_OP_READ_TOC, byte (time_bit % 2 * 2) 0, byte (format % 16) 0, 0, 0, 0, byte track 0, byte alloc 1,
    byte alloc 0, 0]

def adsc_cdb_read_buffer_capacity : List (BitVec 8) :=
  [ADSC_OP_READ_BUFFER_CAPACITY, 0, 0, 0, 0, 0, 0, 0, 12, 0]

def adsc_cdb_read_disc_info : List (BitVec 8) :=
  [ADSC_OP_READ_DISC_INFO, 0, 0, 0, 0, 0, 0, byte alloc 1, byte alloc 0, 0]

def adsc_cdb_write10 (lba nblocks : Nat) : List (BitVec 8) :=
  [ADSC_OP_WRITE10, 0, byte lba 3, byte lba 2, byte lba 1, byte lba 0, 0, byte nblocks 1, byte nblocks 0, 0]

def adsc_cdb_sync_cache : List (BitVec 8) := [ADSC_OP_SYNC_CACHE, 0, 0, 0, 0, 0, 0, 0, 0, 0]

def adsc_cdb_send_cue (len : Nat) : List (BitVec 8) :=
  [ADSC_OP_SEND_CUE, 0, 0, 0, 0, 0, byte len 2, byte len 1, byte len 0, 0]

def adsc_cdb_send_opc : List (BitVec 8) := [ADSC_OP_SEND_OPC, 1, 0, 0, 0, 0, 0, 0, 0, 0]

def adsc_cdb_get_performance (start_lba max_desc type : Nat) : List (BitVec 8) :=
  [ADSC_OP_GET_PERFORMANCE, 0, byte start_lba 3, byte start_lba 2, byte start_lba 1, byte start_lba 0, 0, 0,
    byte max_desc 1, byte max_desc 0, byte type 0, 0]

/-- The length stands one byte later than in the other commands of its group. -/
def adsc_cdb_set_streaming : List (BitVec 8) :=
  [ADSC_OP_SET_STREAMING, 0, 0, 0, 0, 0, 0, 0, 0, byte param_len 1, byte param_len 0, 0]

def adsc_cdb_set_cd_speed (read_kbps write_kbps rotctl : Nat) : List (BitVec 8) :=
  [ADSC_OP_SET_CD_SPEED, byte (rotctl % 4) 0, byte read_kbps 1, byte read_kbps 0, byte write_kbps 1,
    byte write_kbps 0,
    0, 0, 0, 0, 0, 0]

def adsc_cdb_get_configuration (rt feature : Nat) : List (BitVec 8) :=
  [ADSC_OP_GET_CONFIG, byte (rt % 4) 0, byte feature 1, byte feature 0, 0, 0, 0, byte alloc 1,
    byte alloc 0, 0]

def adsc_cdb_mode_sense10 (page : Nat) : List (BitVec 8) :=
  [ADSC_OP_MODE_SENSE10, 0, byte (page % 64) 0, 0, 0, 0, 0, byte alloc 1, byte alloc 0, 0]

def adsc_cdb_mode_select10 : List (BitVec 8) :=
  [ADSC_OP_MODE_SELECT10, 0x10, 0, 0, 0, 0, 0, byte param_len 1, byte param_len 0, 0]

def adsc_cdb_read_cd (lba nsec sector_type c2 sub : Nat) : List (BitVec 8) :=
  [ADSC_OP_READ_CD, byte (sector_type % 8 * 4) 0, byte lba 3, byte lba 2, byte lba 1, byte lba 0,
    byte nsec 2, byte nsec 1,
    byte nsec 0, byte (16 + c2 % 4 * 2) 0, byte (sub % 8) 0, 0]

end

/-- The descriptor of SET STREAMING. -/
def adsc_cdb_set_streaming_desc (speed_x start_lba end_lba : Nat) (exact : Bool) (write_kbps : Nat) :
    List (BitVec 8) :=
  let read_size := u32 (speed_x * 1764) / 10
  if speed_x = 0 then
    [0x04, 0, 0, 0] ++ field start_lba 4 ++ field end_lba 4 ++ field 0 4 ++ field 0 4 ++
      field 0 4 ++ field 0 4
  else
    [if exact then 0x02 else 0x00, 0, 0, 0] ++ field start_lba 4 ++ field end_lba 4 ++ field read_size 4 ++
      field 1000 4 ++ field write_kbps 4 ++ field 1000 4

/-! ## The commands -/

inductive XferDir where
  | NONE
  | IN
  | OUT
deriving DecidableEq

/-- `adsc_cmd`, what it asks for; `cdb_len` is the length of the list. -/
structure AdscCmd where
  cdb : List (BitVec 8)
  dir : XferDir
  buf_len : Nat := 0
  timeout_ms : Nat := ADSC_TIMEOUT_CTRL_MS

/-- A call of one of the wrappers. The two steps of READ TOC and of MODE SENSE are two calls here, `xfer`
and `total` being the length of the transfer; `rounded` is READ CD's longer transfer. -/
inductive MmcCall where
  | test_unit_ready
  | inquiry
  | start_stop (start loej : Nat)
  | read_toc_raw (format time_bit track xfer : Nat)
  | read_buffer_capacity
  | read_disc_info (cap : Nat)
  | write10 (lba nblocks block_bytes : Nat)
  | sync_cache
  | send_cue_sheet (len : Nat)
  | send_opc
  | get_performance (start_lba max_desc cap : Nat)
  | set_streaming
  | set_cd_speed (read_kbps write_kbps rotctl : Nat)
  | get_configuration (feature cap : Nat)
  | mode_sense10 (page total : Nat)
  | mode_select10 (len page_off : Nat)
  | read_cd (lba nsec sector_type c2 sub sector_len : Nat) (rounded : Bool)

/-- The command of a wrapper, or the check that it fails. -/
def MmcCall.cmd : MmcCall → Except Int AdscCmd
  | test_unit_ready => .ok { cdb := [0, 0, 0, 0, 0, 0], dir := .NONE }
  | inquiry => .ok { cdb := adsc_cdb_inquiry 36, dir := .IN, buf_len := 36 }
  | start_stop start loej => .ok { cdb := adsc_cdb_start_stop start loej, dir := .NONE }
  | read_toc_raw format time_bit track xfer =>
    .ok { cdb := adsc_cdb_read_toc xfer format time_bit track, dir := .IN, buf_len := xfer }
  | read_buffer_capacity => .ok { cdb := adsc_cdb_read_buffer_capacity, dir := .IN, buf_len := 12 }
  | read_disc_info cap =>
    if cap < 4 then .error ACCUDISC_ERR_INVAL
    else
      let want := if 34 < cap then 34 else cap
      .ok { cdb := adsc_cdb_read_disc_info want, dir := .IN, buf_len := want }
  | write10 lba nblocks block_bytes =>
    if nblocks = 0 ∨ 0xFFFF < nblocks ∨ block_bytes = 0 then .error ACCUDISC_ERR_INVAL
    else .ok { cdb := adsc_cdb_write10 lba nblocks, dir := .OUT, buf_len := u32 (nblocks * block_bytes),
               timeout_ms := ADSC_TIMEOUT_WRITE_MS }
  | sync_cache => .ok { cdb := adsc_cdb_sync_cache, dir := .NONE, timeout_ms := ADSC_TIMEOUT_WRITE_MS }
  | send_cue_sheet len =>
    if len = 0 then .error ACCUDISC_ERR_INVAL
      else .ok { cdb := adsc_cdb_send_cue len, dir := .OUT, buf_len := len }
  | send_opc => .ok { cdb := adsc_cdb_send_opc, dir := .NONE, timeout_ms := ADSC_TIMEOUT_WRITE_MS }
  | get_performance start_lba max_desc cap =>
    if cap < 8 then .error ACCUDISC_ERR_INVAL
    else .ok
      { cdb := adsc_cdb_get_performance start_lba max_desc ADSC_PERF_TYPE_NOMINAL, dir := .IN, buf_len := cap }
  | set_streaming => .ok { cdb := adsc_cdb_set_streaming 28, dir := .OUT, buf_len := 28 }
  | set_cd_speed read_kbps write_kbps rotctl =>
    .ok { cdb := adsc_cdb_set_cd_speed read_kbps write_kbps rotctl, dir := .NONE }
  | get_configuration feature cap =>
    .ok { cdb := adsc_cdb_get_configuration cap 2 feature, dir := .IN, buf_len := cap }
  | mode_sense10 page total => .ok { cdb := adsc_cdb_mode_sense10 total page, dir := .IN, buf_len := total }
  | mode_select10 len page_off =>
    if len ≤ page_off then .error ACCUDISC_ERR_INVAL
    else .ok { cdb := adsc_cdb_mode_select10 len, dir := .OUT, buf_len := len }
  | read_cd lba nsec sector_type c2 sub sector_len rounded =>
    if c2 > 2 ∨ sub > 2 ∨ sector_len ≠ adsc_read_cd_sector_len c2 sub ∨ nsec = 0 ∨
      nsec > UINT32_MAX / sector_len then
      .error ACCUDISC_ERR_INVAL
    else .ok { cdb := adsc_cdb_read_cd lba nsec sector_type c2 sub, dir := .IN,
               buf_len := if rounded then round16 (nsec * sector_len) else nsec * sector_len,
               timeout_ms := ADSC_TIMEOUT_READ_MS }

/-! ## What the drive reads -/

/-- A command of the standard, with its fields. -/
inductive MmcCommand where
  | TEST_UNIT_READY
  | INQUIRY (alloc : Nat)
  | START_STOP (loej start : Nat)
  | READ_TOC (time format track alloc : Nat)
  | READ_BUFFER_CAPACITY (block alloc : Nat)
  | READ_DISC_INFO (data_type alloc : Nat)
  | WRITE10 (lba blocks : Nat)
  | SYNC_CACHE
  | SEND_CUE (len : Nat)
  | SEND_OPC (do_opc : Nat)
  | GET_PERFORMANCE (lba max_desc type : Nat)
  | SET_STREAMING (len : Nat)
  | SET_CD_SPEED (rotctl read write : Nat)
  | GET_CONFIG (rt feature alloc : Nat)
  | MODE_SENSE10 (page alloc : Nat)
  | MODE_SELECT10 (pf len : Nat)
  | READ_CD (sector_type lba nsec user_data c2 sub : Nat)
deriving DecidableEq

/-- The length of a command, by the group of its operation. -/
def group_length (op : BitVec 8) : Nat :=
  match op.toNat / 32 with
  | 0 => 6
  | 1 => 10
  | 2 => 10
  | 4 => 16
  | 5 => 12
  | _ => 0

@[simp] def MmcCommand.decode : List (BitVec 8) → Option MmcCommand
  | [op, _, _, _, b4, _] =>
    if op = 0x00 then some .TEST_UNIT_READY
    else if op = 0x12 then some (.INQUIRY b4.toNat)
    else if op = 0x1B then some (.START_STOP (b4.toNat / 2 % 2) (b4.toNat % 2))
    else none
  | [op, b1, b2, b3, b4, b5, b6, b7, b8, _] =>
    if op = 0x2A then some (.WRITE10 (join [b2, b3, b4, b5]) (join [b7, b8]))
    else if op = 0x35 then some .SYNC_CACHE
    else if op = 0x43 then some (.READ_TOC (b1.toNat / 2 % 2) (b2.toNat % 16) b6.toNat (join [b7, b8]))
    else if op = 0x46 then some (.GET_CONFIG (b1.toNat % 4) (join [b2, b3]) (join [b7, b8]))
    else if op = 0x51 then some (.READ_DISC_INFO (b1.toNat % 8) (join [b7, b8]))
    else if op = 0x54 then some (.SEND_OPC (b1.toNat % 2))
    else if op = 0x55 then some (.MODE_SELECT10 (b1.toNat / 16 % 2) (join [b7, b8]))
    else if op = 0x5A then some (.MODE_SENSE10 (b2.toNat % 64) (join [b7, b8]))
    else if op = 0x5C then some (.READ_BUFFER_CAPACITY (b1.toNat % 2) (join [b7, b8]))
    else if op = 0x5D then some (.SEND_CUE (join [b6, b7, b8]))
    else none
  | [op, b1, b2, b3, b4, b5, b6, b7, b8, b9, b10, _] =>
    if op = 0xAC then some (.GET_PERFORMANCE (join [b2, b3, b4, b5]) (join [b8, b9]) b10.toNat)
    else if op = 0xB6 then some (.SET_STREAMING (join [b9, b10]))
    else if op = 0xBB then some (.SET_CD_SPEED (b1.toNat % 4) (join [b2, b3]) (join [b4, b5]))
    else if op = 0xBE then
      some (.READ_CD (b1.toNat / 4 % 8) (join [b2, b3, b4, b5]) (join [b6, b7, b8]) (b9.toNat / 16 % 2)
        (b9.toNat / 2 % 4) (b10.toNat % 8))
    else none
  | _ => none

/-- The data that a command moves; a block of a burn has `block_bytes` bytes. -/
def MmcCommand.data (block_bytes : Nat) : MmcCommand → XferDir × Nat
  | INQUIRY alloc => (.IN, alloc)
  | READ_TOC _ _ _ alloc => (.IN, alloc)
  | READ_BUFFER_CAPACITY _ alloc => (.IN, alloc)
  | READ_DISC_INFO _ alloc => (.IN, alloc)
  | WRITE10 _ blocks => (.OUT, blocks * block_bytes)
  | SEND_CUE len => (.OUT, len)
  | GET_PERFORMANCE _ max_desc _ => (.IN, 8 + 16 * max_desc)
  | SET_STREAMING len => (.OUT, len)
  | GET_CONFIG _ _ alloc => (.IN, alloc)
  | MODE_SENSE10 _ alloc => (.IN, alloc)
  | MODE_SELECT10 _ len => (.OUT, len)
  | READ_CD _ _ nsec _ c2 sub => (.IN, nsec * adsc_read_cd_sector_len c2 sub)
  | TEST_UNIT_READY => (.NONE, 0)
  | START_STOP _ _ => (.NONE, 0)
  | SYNC_CACHE => (.NONE, 0)
  | SEND_OPC _ => (.NONE, 0)
  | SET_CD_SPEED _ _ _ => (.NONE, 0)

end Accudisc
