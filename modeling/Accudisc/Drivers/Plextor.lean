import Accudisc.Err
import Accudisc.Lib.Buf
import Accudisc.Toc.Toc
import Accudisc.Write.TocParse
import Mathlib.Data.BitVec

/-!
# The Plextor settings report (`plextor.c`)

`px_settings_get` asks the drive for its settings, one command after another, and makes an entry of each
answer. The drive's answer to its `k`-th command is `PxHost.exec k`. What is sent and what is written to
the caller's array is kept in the state, which stands for `struct px_vs` and the host with it.
-/

namespace Accudisc

def OP_PLEXTOR_MODE : BitVec 8 := 0xE9
def PX_MODE_GET : BitVec 8 := 0x00
def PX_MODE_LEN : Nat := 8
def PX_PAGE_SPEEDREAD : BitVec 8 := 0xBB
def OP_PLEXTOR_MODE2 : BitVec 8 := 0xED
def PX_MODE2_LEN : Nat := 8
def PX_MODE2_CODE_POWEREC : BitVec 8 := 0x00
def PX_POWEREC_BIT : BitVec 8 := 0x01
def OP_PLEXTOR_AS_RD : BitVec 8 := 0xE4
def OP_PLEXTOR_EEPROM : BitVec 8 := 0xF1
def PX_EEPROM_BLOCK : Nat := 256
def PX_PAGE_SS_HIDE : BitVec 8 := 0x01
def PX_PAGE_VARIREC : BitVec 8 := 0x02
def PX_PAGE_GIGAREC : BitVec 8 := 0x04
def PX_PAGE_SILENT : BitVec 8 := 0x08
def PX_PAGE_TESTWRITE : BitVec 8 := 0x21
def PX_PAGE_BITSET : BitVec 8 := 0x22
def PX_PAGE_SECUREC : BitVec 8 := 0xD5
def PX_VARIREC_CD : BitVec 8 := 0x00
def PX_VARIREC_DVD : BitVec 8 := 0x10
def PX_BITSET_R : BitVec 8 := 0x0A
def PX_BITSET_RDL : BitVec 8 := 0x0E

def ACCUDISC_VSET_OK : BitVec 32 := 0x01
def ACCUDISC_VSET_HAS_NUM : BitVec 32 := 0x02
def ACCUDISC_VSET_NO_DISC : BitVec 32 := 0x04

def ACCUDISC_DISC_WHY_NO_MEDIUM : BitVec 8 := 5

/-! ## Decode tables -/

abbrev PxCode := BitVec 8 × String

def px_gigarec : List PxCode :=
  [(0x83, "0.6"), (0x82, "0.7"), (0x81, "0.8"), (0x84, "0.9"), (0x00, "OFF"), (0x04, "1.1"), (0x01, "1.2"),
    (0x02, "1.3"), (0x03, "1.4")]

def px_varirec_pwr : List PxCode :=
  [(0x84, "-4"), (0x83, "-3"), (0x82, "-2"), (0x81, "-1"), (0x00, "0"), (0x01, "+1"),
    (0x02, "+2"), (0x03, "+3"),
    (0x04, "+4")]

def px_varirec_str_cd : List String :=
  ["Default", "Azo", "Cyanine", "PhtaloCyanine A", "PhtaloCyanine B", "PhtaloCyanine C", "PhtaloCyanine D"]

def px_varirec_str_dvd : List String :=
  ["Default", "Strategy0", "Strategy1", "Strategy2", "Strategy3", "Strategy4", "Strategy5",
    "Strategy6", "Strategy7"]

def px_silent_cd_rd : List PxCode :=
  [(0x05, "48X"), (0x04, "40X"), (0x03, "32X"), (0x02, "24X"), (0x01, "8X"), (0x00, "4X")]

def px_silent_cd_wr : List PxCode :=
  [(0x08, "48X"), (0x06, "32X"), (0x05, "24X"), (0x03, "16X"), (0x01, "8X"), (0x00, "4X")]

def px_as_mode : List PxCode := [(0x00, "OFF"), (0x01, "AUTO"), (0x04, "FORCED"), (0x08, "ON")]

def px_name (t : List PxCode) (v : BitVec 8) : Option String := (t.find? (·.1 = v)).map (·.2)

/-! ## Texts -/

/-- `snprintf` into an array of `size` characters. -/
def cstr (size : Nat) (s : String) : String := String.ofList (s.toList.take (size - 1))

/-- `%02u`. -/
def fmt_02u (n : Nat) : String := if n < 10 then "0" ++ toString n else toString n

/-- `%02X`. -/
def fmt_02X (b : BitVec 8) : String :=
  String.ofList [(Nat.digitChar (b.toNat / 16)).toUpper, (Nat.digitChar (b.toNat % 16)).toUpper]

/-! ## The host -/

inductive HostDir where
  | none
  | in_
  | out
deriving DecidableEq

structure HostCmd where
  cdb : Buf (BitVec 8) 12
  dir : HostDir
  len : Nat
  timeout_ms : Nat
deriving DecidableEq

/-- The answer to command `k`: its code and the bytes it leaves in the response buffer. -/
structure PxHost where
  exec : Nat → Int × Mem

/-- `accudisc_vendor_setting`. -/
structure VendorSetting where
  key : String
  label : String
  value : String
  num : Int
  flags : BitVec 32
deriving DecidableEq

/-- What the report reads of `accudisc_disc_probe`. -/
structure DiscProbe where
  profile : Nat
  reason : BitVec 8

/-- `struct px_vs`, with the caller's array and what the host was given. -/
structure PxVs where
  cap : Nat
  n : Nat := 0
  dead : Bool := false
  out : Nat → Option VendorSetting := fun _ => none
  sent : List (HostCmd × Int) := []
  logs : List String := []

/-- A state with the code of a command and its response buffer. -/
structure PxAnswer where
  v : PxVs
  rc : Int
  r : Mem

/-- Twelve bytes, zero but for those given. -/
def cdb_of (bytes : List (Nat × BitVec 8)) : Buf (BitVec 8) 12 :=
  bytes.foldl (fun cdb b => Buf.set cdb b.1 b.2) (Buf.zeros _ _)

/-- `host->exec`, into a buffer that was zeroed. -/
def host_exec (host : PxHost) (v : PxVs) (cmd : HostCmd) : PxAnswer :=
  let a := host.exec v.sent.length
  ⟨{ v with sent := v.sent ++ [(cmd, a.1)] }, a.1, fun i => if i < cmd.len then a.2 i else 0⟩

/-- A GET without a value, a SET with one. -/
def px_mode2 (host : PxHost) (v : PxVs) (modecode : BitVec 8) (val : Option (BitVec 8)) : PxAnswer :=
  match val with
  | some b =>
    let cdb := cdb_of [(0, OP_PLEXTOR_MODE2), (1, 0x10 ||| (if b ≠ 0 then 0x01 else 0x00)), (2, modecode)]
    host_exec host v ⟨cdb, .none, 0, 10000⟩
  | none =>
    let cdb := cdb_of [(0, OP_PLEXTOR_MODE2), (2, modecode), (8, BitVec.ofNat 8 (PX_MODE2_LEN >>> 8)),
      (9, BitVec.ofNat 8 (PX_MODE2_LEN &&& 0xff))]
    host_exec host v ⟨cdb, .in_, PX_MODE2_LEN, 10000⟩

/-! ## Entries -/

def vs_put (v : PxVs) (key label : String) (flags : BitVec 32) (num : Int) (value : String) : PxVs :=
  let v' := if v.n < v.cap then
      { v with
        out := Function.update v.out v.n (some ⟨cstr 32 key, cstr 32 label, cstr 64 value, num, flags⟩) }
    else v
  { v' with n := v'.n + 1 }

/-- The code of a command that was not sent. -/
def PX_NOT_SENT : Int := ACCUDISC_ERR_CANCELLED

def vs_fail (v : PxVs) (key label : String) (rc : Int) : PxVs :=
  if rc = PX_NOT_SENT then
    vs_put v key label 0 0 "not asked (an earlier command failed in transport)"
  else if rc = ACCUDISC_ERR_SENSE then
    vs_put v key label 0 0 "refused by the drive (CHECK CONDITION)"
  else
    vs_put v key label 0 0 ("failed in transport (rc " ++ toString rc ++ "); nothing further was sent")

/-- One GET, with the transport-failure latch. -/
def vs_exec (host : PxHost) (v : PxVs) (cmd : HostCmd) : PxAnswer :=
  if v.dead then ⟨v, PX_NOT_SENT, fun _ => 0⟩
  else
    let a := host_exec host v cmd
    if a.rc ≠ ACCUDISC_OK ∧ a.rc ≠ ACCUDISC_ERR_SENSE then
      { a with v := { a.v with
          dead := true
          logs := a.v.logs ++
            ["plextor: settings query hit a transport failure; the remaining queries are not sent"] } }
    else a

def mode_get_cdb (page val : BitVec 8) : Buf (BitVec 8) 12 :=
  cdb_of [(0, OP_PLEXTOR_MODE), (1, PX_MODE_GET), (2, page), (3, val), (10, BitVec.ofNat 8 PX_MODE_LEN)]

def vs_mode_get (host : PxHost) (v : PxVs) (page val : BitVec 8) : PxAnswer :=
  vs_exec host v ⟨mode_get_cdb page val, .in_, PX_MODE_LEN, 10000⟩

def eeprom_cdb (idx : BitVec 8) : Buf (BitVec 8) 12 :=
  cdb_of [(0, OP_PLEXTOR_EEPROM), (1, 0x01), (7, idx), (8, BitVec.ofNat 8 (PX_EEPROM_BLOCK >>> 8)),
    (9, BitVec.ofNat 8 (PX_EEPROM_BLOCK &&& 0xff))]

def vs_eeprom_block (host : PxHost) (v : PxVs) (idx : BitVec 8) : PxAnswer :=
  vs_exec host v ⟨eeprom_cdb idx, .in_, PX_EEPROM_BLOCK, 10000⟩

def vs_hms (v : PxVs) (key label : String) (secs : Nat) : PxVs :=
  vs_put v key label (ACCUDISC_VSET_OK ||| ACCUDISC_VSET_HAS_NUM) secs
    (toString (secs / 3600) ++ ":" ++ fmt_02u (secs / 60 % 60) ++ ":" ++ fmt_02u (secs % 60))

/-- The models whose EEPROM layout is known. -/
def px_eeprom_models : List CText :=
  [chars ['P', 'X', '-', '7', '1', '4'], chars ['P', 'X', '-', '7', '1', '6'],
    chars ['P', 'X', '-', '7', '5', '5'], chars ['P', 'X', '-', '7', '6', '0']]

/-- `id` is the product text, none for a null identity. -/
def px_eeprom_layout_known (id : Option CText) : Bool :=
  match id with
  | some product => px_eeprom_models.any fun m => strstr product m
  | none => false

def vs_code (v : PxVs) (key label : String) (t : List PxCode) (b : BitVec 8) : PxVs :=
  match px_name t b with
  | some nm => vs_put v key label (ACCUDISC_VSET_OK ||| ACCUDISC_VSET_HAS_NUM) b.toNat nm
  | none =>
    vs_put v key label (ACCUDISC_VSET_OK ||| ACCUDISC_VSET_HAS_NUM) b.toNat
      ("0x" ++ fmt_02X b ++ " (unknown code)")

def vs_switch (v : PxVs) (key label : String) (rc : Int) (on : Bool) : PxVs :=
  if rc ≠ ACCUDISC_OK then vs_fail v key label rc
  else
    vs_put v key label (ACCUDISC_VSET_OK ||| ACCUDISC_VSET_HAS_NUM) (if on then 1 else 0)
      (if on then "ON" else "OFF")

/-- The entry of a VariREC answer: `strs` are the strategies of the disc kind. -/
def vs_varirec_entry (v : PxVs) (key label : String) (strs : List String) (r : Mem) : PxVs :=
  if r 2 = 0 then vs_put v key label (ACCUDISC_VSET_OK ||| ACCUDISC_VSET_HAS_NUM) 0 "OFF"
  else
    let str := strs.getD (r 5).toNat "?"
    let step : Int := if r 3 &&& 0x80 ≠ 0 then -((r 3 &&& 0x7f).toNat : Int) else (r 3).toNat
    match px_name px_varirec_pwr (r 3) with
    | some pwr =>
      vs_put v key label (ACCUDISC_VSET_OK ||| ACCUDISC_VSET_HAS_NUM) step
        ("ON, power " ++ pwr ++ ", strategy " ++ str ++ " [" ++ toString (r 5).toNat ++ "]")
    | none =>
      vs_put v key label ACCUDISC_VSET_OK 0
        ("ON, power 0x" ++ fmt_02X (r 3) ++ " (unknown), strategy " ++ str ++ " [" ++
          toString (r 5).toNat ++ "]")

def vs_varirec (host : PxHost) (v : PxVs) (key label : String) (disc : BitVec 8) : PxVs :=
  let a := vs_mode_get host v PX_PAGE_VARIREC (0x02 ||| disc)
  let strs := if disc = PX_VARIREC_DVD then px_varirec_str_dvd else px_varirec_str_cd
  if a.rc ≠ ACCUDISC_OK then vs_fail a.v key label a.rc else vs_varirec_entry a.v key label strs a.r

def vs_nodisc (v : PxVs) (key label : String) : PxVs :=
  vs_put v key label ACCUDISC_VSET_NO_DISC 0 "no disc loaded"

/-! ## The report -/

/-- The keys of the EEPROM, with their labels. -/
def px_eeprom_keys : List (String × String) :=
  [("tla", "TLA"), ("life.discs_loaded", "Discs loaded"), ("life.cd_read", "CD Rd time"),
    ("life.cd_write", "CD Wr time"), ("life.dvd_read", "DVD Rd time"), ("life.dvd_write", "DVD Wr time")]

/-- The four characters of the TLA, `?` for those that do not print. -/
def px_tla (blk : Mem) : String :=
  String.ofList ((List.range 4).map fun i =>
    let c := blk (0x29 + i)
    if 0x20 ≤ c ∧ c < 0x7f then Char.ofNat c.toNat else '?')

/-- The TLA, from block 0. -/
def px_report_tla (host : PxHost) (v : PxVs) : PxVs :=
  let a := vs_eeprom_block host v 0
  if a.rc ≠ ACCUDISC_OK then vs_fail a.v "tla" "TLA" a.rc
  else vs_put a.v "tla" "TLA" ACCUDISC_VSET_OK 0 (px_tla a.r)

/-- The life counters, from block 1. -/
def px_report_life (host : PxHost) (v : PxVs) : PxVs :=
  let a := vs_eeprom_block host v 1
  if a.rc ≠ ACCUDISC_OK then
    let v := vs_fail a.v "life.discs_loaded" "Discs loaded" a.rc
    let v := vs_fail v "life.cd_read" "CD Rd time" a.rc
    let v := vs_fail v "life.cd_write" "CD Wr time" a.rc
    let v := vs_fail v "life.dvd_read" "DVD Rd time" a.rc
    vs_fail v "life.dvd_write" "DVD Wr time" a.rc
  else
    let dn := be16 fun i => a.r (0x20 + i)
    let v := vs_put a.v "life.discs_loaded" "Discs loaded" (ACCUDISC_VSET_OK ||| ACCUDISC_VSET_HAS_NUM) dn
      (toString dn)
    let v := vs_hms v "life.cd_read" "CD Rd time" (be32 fun i => a.r (0x22 + i))
    let v := vs_hms v "life.cd_write" "CD Wr time" (be32 fun i => a.r (0x26 + i))
    let v := vs_hms v "life.dvd_read" "DVD Rd time" (be32 fun i => a.r (0x2A + i))
    vs_hms v "life.dvd_write" "DVD Wr time" (be32 fun i => a.r (0x2E + i))

def px_report_eeprom (host : PxHost) (id : Option CText) (v : PxVs) : PxVs :=
  if px_eeprom_layout_known id then px_report_life host (px_report_tla host v)
  else
    px_eeprom_keys.foldl
      (fun v k => vs_put v k.1 k.2 0 0 "not asked (EEPROM layout unknown for this model)") v

/-- A page with one switch. -/
def px_report_switch (host : PxHost) (v : PxVs) (page val : BitVec 8) (key label : String)
    (on : Mem → Bool) : PxVs :=
  let a := vs_mode_get host v page val
  vs_switch a.v key label a.rc (on a.r)

def px_report_ss_hide (host : PxHost) (v : PxVs) : PxVs :=
  let a := vs_mode_get host v PX_PAGE_SS_HIDE 0
  let v := vs_switch a.v "hide_cdr" "Hide-CDR" a.rc (a.r 2 &&& 0x02 ≠ 0)
  vs_switch v "single_session" "SingleSession" a.rc (a.r 2 &&& 0x01 ≠ 0)

/-- The query that bypasses `vs_exec`, and sets the latch itself. -/
def px_powerec_get (host : PxHost) (v : PxVs) : PxAnswer :=
  let a := if v.dead then ⟨v, PX_NOT_SENT, fun _ => 0⟩ else px_mode2 host v PX_MODE2_CODE_POWEREC none
  if !a.v.dead ∧ a.rc ≠ ACCUDISC_OK ∧ a.rc ≠ ACCUDISC_ERR_SENSE then
    { a with v := { a.v with dead := true } }
  else a

/-- The recommended speed, with a unit where the loaded profile is known. -/
def px_powerec_speed (v : PxVs) (is_cd is_dvd : Bool) (kbps : Nat) : PxVs :=
  vs_put v "powerec.recommended" "PoweRec speed" (ACCUDISC_VSET_OK ||| ACCUDISC_VSET_HAS_NUM) kbps
    (if is_cd || is_dvd then
      toString kbps ++ " kB/s (" ++ toString (kbps / if is_dvd then 1385 else 176) ++ "X " ++
        (if is_dvd then "DVD" else "CD") ++ "; an intention, not a rate)"
    else toString kbps ++ " kB/s (media type unknown; an intention, not a rate)")

def px_report_powerec (host : PxHost) (no_disc is_cd is_dvd : Bool) (v : PxVs) : PxVs :=
  let a := px_powerec_get host v
  let v := vs_switch a.v "powerec" "PoweRec" a.rc (a.r 2 &&& PX_POWEREC_BIT ≠ 0)
  if a.rc ≠ ACCUDISC_OK then vs_fail v "powerec.recommended" "PoweRec speed" a.rc
  else if no_disc then vs_nodisc v "powerec.recommended" "PoweRec speed"
  else px_powerec_speed v is_cd is_dvd (be16 fun i => a.r (4 + i))

def px_report_gigarec (host : PxHost) (no_disc : Bool) (v : PxVs) : PxVs :=
  let a := vs_mode_get host v PX_PAGE_GIGAREC 0
  if a.rc ≠ ACCUDISC_OK then
    vs_fail (vs_fail a.v "gigarec" "GigaRec" a.rc) "gigarec.disc" "Disc GigaRec rate" a.rc
  else
    let v := vs_code a.v "gigarec" "GigaRec" px_gigarec (a.r 3)
    if no_disc then vs_nodisc v "gigarec.disc" "Disc GigaRec rate"
    else vs_code v "gigarec.disc" "Disc GigaRec rate" px_gigarec (a.r 4)

def px_report_silent (host : PxHost) (v : PxVs) : PxVs :=
  let a := vs_mode_get host v PX_PAGE_SILENT 0x04
  if a.rc ≠ ACCUDISC_OK then vs_fail a.v "silent" "Silent mode" a.rc
  else if a.r 2 = 0 then
    vs_put a.v "silent" "Silent mode" (ACCUDISC_VSET_OK ||| ACCUDISC_VSET_HAS_NUM) 0 "OFF"
  else
    vs_put a.v "silent" "Silent mode" (ACCUDISC_VSET_OK ||| ACCUDISC_VSET_HAS_NUM) 1
      ("ON, CD read cap " ++ (px_name px_silent_cd_rd (a.r 3)).getD "?" ++ ", CD write cap " ++
        (px_name px_silent_cd_wr (a.r 4)).getD "?" ++ ", access " ++ if a.r 5 ≠ 0 then "SLOW" else "FAST")

def as_rd_cdb : Buf (BitVec 8) 12 := cdb_of [(0, OP_PLEXTOR_AS_RD), (10, BitVec.ofNat 8 PX_MODE_LEN)]

def px_report_autostrategy (host : PxHost) (v : PxVs) : PxVs :=
  let a := vs_exec host v ⟨as_rd_cdb, .in_, PX_MODE_LEN, 10000⟩
  if a.rc ≠ ACCUDISC_OK then vs_fail a.v "autostrategy" "AutoStrategy" a.rc
  else
    let m := a.r 2 &&& 0x0F
    vs_put a.v "autostrategy" "AutoStrategy" (ACCUDISC_VSET_OK ||| ACCUDISC_VSET_HAS_NUM) m.toNat
      ((px_name px_as_mode m).getD "unknown" ++ " [" ++ toString m.toNat ++ "]")

/-- The report: the code returns `ACCUDISC_OK` and sets `*n` to the `n` of the last state. -/
def px_settings_get (host : PxHost) (id : Option CText) (disc : Option DiscProbe) (cap : Nat) : PxVs :=
  let no_disc := disc.any fun d => d.reason = ACCUDISC_DISC_WHY_NO_MEDIUM
  let is_dvd := disc.any fun d => 0x10 ≤ d.profile ∧ d.profile < 0x40
  let is_cd := disc.any fun d => 0x08 ≤ d.profile ∧ d.profile ≤ 0x0A
  let v := px_report_eeprom host id { cap := cap }
  let v := px_report_ss_hide host v
  let v := px_report_switch host v PX_PAGE_SPEEDREAD 0 "speedread" "SpeedRead" fun r => r 2 ≠ 0
  let v := px_report_powerec host no_disc is_cd is_dvd v
  let v := px_report_gigarec host no_disc v
  let v := vs_varirec host v "varirec.cd" "VariRec CD" PX_VARIREC_CD
  let v := px_report_silent host v
  let v := px_report_switch host v PX_PAGE_SECUREC 0 "securec" "SecuRec" fun r => r 3 ≠ 0
  let v := vs_varirec host v "varirec.dvd" "VariRec DVD" PX_VARIREC_DVD
  let v := px_report_switch host v PX_PAGE_BITSET PX_BITSET_R "bitset.dvd+r" "DVD+R bitsetting" fun r =>
    r 2 &&& 0x02 ≠ 0
  let v := px_report_switch host v PX_PAGE_BITSET PX_BITSET_RDL "bitset.dvd+r_dl"
    "DVD+R DL bitsetting" fun r =>
    r 2 &&& 0x01 ≠ 0
  let v := px_report_autostrategy host v
  px_report_switch host v PX_PAGE_TESTWRITE 0 "testwrite.dvd+" "DVD+R(W) testwrite" fun r => r 2 ≠ 0

end Accudisc
