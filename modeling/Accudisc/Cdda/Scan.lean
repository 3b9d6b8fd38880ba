import Accudisc.Cdda.SubQ
import Accudisc.Read.Sector

/-!
# Looking for the MCN and the ISRC (`scan.c`)

The raw subcode of thirteen chunks, and in it the first Q frame of a mode. `drive lba` is READ CD's code
for the sixteen sectors from `lba` on, with what it leaves in the buffer.
-/

namespace Accudisc

def SCAN_CHUNK : Nat := 16
def SCAN_BUDGET : Nat := 200

/-- `adsc_read_cd_sector_len(ADSC_C2_NONE, ADSC_SUB_RAW)`. -/
def SCAN_SECTOR_LEN : Nat := ACCUDISC_BYTES_AUDIO + ACCUDISC_BYTES_SUB_RAW

section
variable (drive : Nat → Int × Mem) (lba : Nat) (adr : BitVec 8)

/-- The Q frame of sector `s` of a chunk. -/
def scan_frame (buf : Mem) (s : Nat) : AccuQ × Int :=
  accudisc_q_parse (accudisc_sub_extract_q fun i => buf (s * SCAN_SECTOR_LEN + ACCUDISC_BYTES_AUDIO + i))

/-- The sectors of a chunk from `s` on. -/
def scan_sectors (buf : Mem) : Nat → Nat → Option AccuQ
  | 0, _ => none
  | left + 1, s =>
    let f := scan_frame buf s
    if f.2 = ACCUDISC_OK ∧ f.1.adr = adr then some f.1 else scan_sectors buf left (s + 1)

/-- The chunks from offset `off` on. -/
def scan_chunks : Nat → Nat → Int × Option AccuQ
  | 0, _ => (ACCUDISC_ERR_NOTFOUND, none)
  | turns + 1, off =>
    if off < SCAN_BUDGET then
      let a := drive (u32 (lba + off))
      if a.1 ≠ ACCUDISC_OK then (a.1, none)
      else
        match scan_sectors adr a.2 SCAN_CHUNK 0 with
        | some hit => (ACCUDISC_OK, some hit)
        | none => scan_chunks turns (off + SCAN_CHUNK)
    else (ACCUDISC_ERR_NOTFOUND, none)

/-- `malloc` says whether the chunk's buffer came. -/
def scan_adr (malloc : Bool) : Int × Option AccuQ :=
  if malloc = false then (ACCUDISC_ERR_NOMEM, none) else scan_chunks drive lba adr SCAN_BUDGET 0

def all_zero_digits (s : List (BitVec 8)) : Bool := s.all (· = 0x30)

/-- The code, and the text of the frame. `args` says whether the device and the buffer of the
text are there. -/
def scan_text (text : AccuQ → List (BitVec 8)) (args malloc : Bool) : Int × Option (List (BitVec 8)) :=
  if args = false then (ACCUDISC_ERR_INVAL, none)
  else
    match scan_adr drive lba adr malloc with
    | (rc, some hit) =>
      if rc ≠ ACCUDISC_OK then (rc, none)
      else if all_zero_digits (text hit) then (ACCUDISC_ERR_NOTFOUND, none)
      else (ACCUDISC_OK, some (text hit))
    | (rc, none) => (rc, none)

def accudisc_scan_mcn (args malloc : Bool) : Int × Option (List (BitVec 8)) :=
  scan_text drive lba ACCUDISC_Q_MCN (·.mcn) args malloc

def accudisc_scan_isrc (args malloc : Bool) : Int × Option (List (BitVec 8)) :=
  scan_text drive lba ACCUDISC_Q_ISRC (·.isrc) args malloc

end

end Accudisc
