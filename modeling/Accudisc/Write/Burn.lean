import Accudisc.Err
import Accudisc.Lib.Exit
import Accudisc.Meta.CdTextEncode
import Accudisc.Mmc.Device
import Accudisc.Write.Fifo

/-!
# Burning a disc (`burn.c`, `wparams.c`, `discinfo.c`, `cuesheet.c`, `tocparse.c`)

A burn is a computation over the drive's answers that can leave at any command; what `adsc_write_run`
does on its way out is `burn_done`.
-/

namespace Accudisc

def LEADIN_GAP : Nat := 150
def CDT_CHUNK : Nat := 640
def ADSC_WPARAMS_PAGE_MAX : Nat := 56
def STALL_POLL_MS : Nat := 40
def STALL_CAP_MS : Nat := 120000
def ADSC_BUF_POLL_EVERY : Nat := 8
def SPEED_CLIMB_MAX : Nat := 8
def ADSC_MODE_WRITE_PARAMS : Nat := 0x05
def ADSC_MODE_CAPABILITIES : Nat := 0x2a
def ADSC_FEATURE_CD_MASTERING : Nat := 0x2e

/-! ## The device -/

/-- A command of the burn. -/
inductive BurnCmd where
  | get_configuration (feature : Nat)
  | mode_sense (page len : Nat)
  | mode_select (data : Mem) (len : Nat)
  | set_cd_speed (read_kbps write_kbps : Nat)
  | read_disc_info
  | send_opc
  | send_cue_sheet (cue : Mem) (len : Nat)
  | read_buffer_capacity
  | write10 (lba : Int) (n block_bytes : Nat) (data : Mem)
  | sync_cache

/-- The operation code. -/
def BurnCmd.op : BurnCmd → BitVec 8
  | .get_configuration _ => 0x46
  | .mode_sense _ _ => 0x5a
  | .mode_select _ _ => 0x55
  | .set_cd_speed _ _ => 0xbb
  | .read_disc_info => 0x51
  | .send_opc => 0x54
  | .send_cue_sheet _ _ => 0x5d
  | .read_buffer_capacity => 0x5c
  | .write10 _ _ _ _ => 0x2a
  | .sync_cache => 0x35

/-- A command and the answer that `adsc_dev_exec` came back with. -/
structure Sent where
  cmd : BurnCmd
  answer : DriveAnswer

/-- The device, what was sent to it, latest first, and the flags that the way out looks at. -/
structure Burn where
  dev : Dev BurnCmd := {}
  log : List Sent := []
  session_open : Bool := false
  fifo_live : Bool := false
  cap_live : Bool := false

/-- A burn leaves with a code, or with none when its fuel runs out. -/
abbrev BurnM := Exit Burn (Option Int)

/-- The answer to `cmd`. -/
def Burn.answer (answers : Nat → DriveAnswer) (cmd : BurnCmd) (s : Burn) : DriveAnswer :=
  (adsc_dev_exec answers BurnCmd.op cmd s.dev).1

/-- The state after it. -/
def Burn.send (answers : Nat → DriveAnswer) (cmd : BurnCmd) (s : Burn) : Burn :=
  { s with
    dev := (adsc_dev_exec answers BurnCmd.op cmd s.dev).2
    log := ⟨cmd, s.answer answers cmd⟩ :: s.log }

def exec (answers : Nat → DriveAnswer) (cmd : BurnCmd) : BurnM DriveAnswer := do
  let a ← Exit.read (Burn.answer answers cmd)
  Exit.update (Burn.send answers cmd)
  pure a

/-- Leave with the code of what failed. -/
def check {α : Type} : Except Int α → BurnM α
  | .ok a => pure a
  | .error rc => Exit.leave (some rc)

/-- Leave unless the code is good. -/
def check_rc (rc : Int) : BurnM Unit := if rc = ACCUDISC_OK then pure () else Exit.leave (some rc)

def be16 (m : Mem) : Nat := (m 0).toNat <<< 8 ||| (m 1).toNat

/-! ## Mode pages -/

/-- What MODE SENSE(10) leaves: the bytes, their length and where the page begins. -/
structure ModePage where
  buf : Mem
  len : Nat
  po : Nat

/-- Where the page begins in a mode parameter list: behind the header and the block descriptors. -/
def page_off (buf : Mem) : Nat := 8 + be16 (ptr buf 6)

def adsc_alloc_even (n : Nat) : Nat := n + n % 2

def adsc_mmc_mode_sense10 (answers : Nat → DriveAnswer) (page cap : Nat) : BurnM (Except Int ModePage) :=
  if cap < 16 then pure (.error ACCUDISC_ERR_INVAL)
  else do
    let head ← exec answers (.mode_sense page 8)
    if head.rc ≠ ACCUDISC_OK then pure (.error head.rc)
    else do
      let total := adsc_alloc_even (be16 head.data + 2)
      let total := if cap < total then cap - cap % 2 else total
      let full ← exec answers (.mode_sense page total)
      if full.rc ≠ ACCUDISC_OK then pure (.error full.rc)
      else
        let off := page_off full.data
        if total < off + 2 then pure (.error ACCUDISC_ERR_SHORT) else pure (.ok ⟨full.data, total, off⟩)

/-- The bytes as MODE SELECT sends them: no data length, and no PS bit. -/
def select_bytes (buf : Mem) (page_off : Nat) : Mem :=
  let buf := Function.update (Function.update buf 0 0) 1 0
  Function.update buf page_off (buf page_off &&& 0x3f)

/-- `adsc_mmc_mode_select10`: its code, and the bytes it leaves. -/
def adsc_mmc_mode_select10 (answers : Nat → DriveAnswer) (buf : Mem) (len page_off : Nat) :
    BurnM (Int × Mem) :=
  if len ≤ page_off then pure (ACCUDISC_ERR_INVAL, buf)
  else do
    let buf := select_bytes buf page_off
    let a ← exec answers (.mode_select buf len)
    pure (a.rc, buf)

/-- A captured page: the length the page claims, within what was transferred, over zeros. -/
structure WpPage where
  bytes : Mem
  len : Nat

def wp_capture (buf : Mem) (len po : Nat) : WpPage :=
  let n := min (min ((buf (po + 1)).toNat + 2) (len - po)) ADSC_WPARAMS_PAGE_MAX
  ⟨fun i => if i < n then buf (po + i) else 0, n⟩

/-- `adsc_write_params`, what the burn asks for. -/
structure WriteParams where
  simulate : Bool
  burnproof : Bool
  cdtext : Bool

/-- The page for Disc-At-Once audio. -/
def wp_page (buf : Mem) (po : Nat) (wp : WriteParams) : Mem :=
  let p2 := (buf (po + 2) &&& 0xe0) ||| 0x02 ||| (if wp.simulate then 0x10 else 0) |||
    (if wp.burnproof then 0x40 else 0)
  let buf := Function.update buf (po + 2) p2
  let buf := Function.update buf (po + 3) (buf (po + 3) &&& 0x3f)
  let buf := Function.update buf (po + 4) ((buf (po + 4) &&& 0xf0) ||| if wp.cdtext then 0x03 else 0x00)
  Function.update buf (po + 8) 0x00

/-- `wp_program`, with the page as sent. -/
def wp_program (answers : Nat → DriveAnswer) (wp : WriteParams) : BurnM (Except Int WpPage) := do
  match ← adsc_mmc_mode_sense10 answers ADSC_MODE_WRITE_PARAMS 64 with
  | .error rc => pure (.error rc)
  | .ok m =>
    if m.len < m.po + 9 then pure (.error ACCUDISC_ERR_SHORT)
    else do
      let r ← adsc_mmc_mode_select10 answers (wp_page m.buf m.po wp) m.len m.po
      if r.1 = ACCUDISC_OK then pure (.ok (wp_capture r.2 m.len m.po))
      else if wp.cdtext = false then pure (.error r.1)
      else do
        -- some drives take the page without the data block type only
        let r ← adsc_mmc_mode_select10 answers
          (Function.update r.2 (m.po + 4) (r.2 (m.po + 4) &&& 0xf0)) m.len m.po
        if r.1 = ACCUDISC_OK then pure (.ok (wp_capture r.2 m.len m.po)) else pure (.error r.1)

/-- `adsc_write_set_params`. -/
def adsc_write_set_params (answers : Nat → DriveAnswer) (wp : WriteParams) : BurnM Int := do
  match ← wp_program answers wp with
  | .error rc => pure rc
  | .ok _ => pure ACCUDISC_OK

/-- What `adsc_write_get_params` makes of a page: the write type and the three requests. -/
def wp_decode (p : Mem) : BitVec 8 × WriteParams :=
  (p 2 &&& 0x0f, ⟨p 2 &&& 0x10 ≠ 0, p 2 &&& 0x40 ≠ 0, p 4 &&& 0x0f = 0x03⟩)

def adsc_write_get_params (answers : Nat → DriveAnswer) : BurnM (Except Int (BitVec 8 × WriteParams)) := do
  match ← adsc_mmc_mode_sense10 answers ADSC_MODE_WRITE_PARAMS 64 with
  | .error rc => pure (.error rc)
  | .ok m =>
    if m.len < m.po + 9 then pure (.error ACCUDISC_ERR_SHORT) else pure (.ok (wp_decode (ptr m.buf m.po)))

def wp_fields_equal (a b : Mem) : Bool :=
  (a 2 ^^^ b 2) &&& 0x5f = 0 && (a 3 ^^^ b 3) &&& 0xc0 = 0 && (a 4 ^^^ b 4) &&& 0x0f = 0 && a 8 = b 8

/-- `adsc_write_params_check`: whether the fields of a burn read back as sent. -/
def adsc_write_params_check (answers : Nat → DriveAnswer) (sent : WpPage) : BurnM (Except Int Bool) :=
  if sent.len < 9 ∨ ADSC_WPARAMS_PAGE_MAX < sent.len then pure (.error ACCUDISC_ERR_INVAL)
  else do
    match ← adsc_mmc_mode_sense10 answers ADSC_MODE_WRITE_PARAMS 64 with
    | .error rc => pure (.error rc)
    | .ok m =>
      if m.len < m.po + 9 then pure (.error ACCUDISC_ERR_SHORT)
      else pure (.ok (wp_fields_equal sent.bytes (wp_capture m.buf m.len m.po).bytes))

def check_write_params (answers : Nat → DriveAnswer) (sent : WpPage) : BurnM (Except Int Unit) := do
  match ← adsc_write_params_check answers sent with
  | .error rc => pure (.error rc)
  | .ok fields_ok => if fields_ok then pure (.ok ()) else pure (.error ACCUDISC_ERR_WRITE_PARAMS)

/-! ## Speed and the disc -/

def adsc_cd_speed_kbps (speed_x : Nat) : Nat := min (u32 (speed_x * 177)) 0xffff

/-- The current read speed of `accudisc_get_speed`. -/
def accudisc_get_speed (answers : Nat → DriveAnswer) : BurnM (Except Int Nat) := do
  match ← adsc_mmc_mode_sense10 answers ADSC_MODE_CAPABILITIES 256 with
  | .error rc => pure (.error rc)
  | .ok m =>
    if m.buf m.po &&& 0x3f ≠ 0x2a ∨ m.len < m.po + 16 then pure (.error ACCUDISC_ERR_SHORT)
    else pure (.ok (be16 (ptr m.buf (m.po + 14))))

def adsc_dev_cur_write_kbps (answers : Nat → DriveAnswer) : BurnM (Except Int Nat) := do
  match ← adsc_mmc_mode_sense10 answers ADSC_MODE_CAPABILITIES 256 with
  | .error rc => pure (.error rc)
  | .ok m =>
    if m.len < m.po + 2 ∨ m.buf m.po &&& 0x3f ≠ 0x2a then pure (.error ACCUDISC_ERR_SHORT)
    else if 28 ≤ (m.buf (m.po + 1)).toNat ∧ m.po + 30 ≤ m.len then pure (.ok (be16 (ptr m.buf (m.po + 28))))
    else if m.po + 22 ≤ m.len then pure (.ok (be16 (ptr m.buf (m.po + 20))))
    else pure (.error ACCUDISC_ERR_SHORT)

/-- SET CD SPEED, a rung higher while the drive refuses the field, for at most `climb` rungs. -/
def climb_write_speed (answers : Nat → DriveAnswer) (read_kbps : Nat) : Nat → Nat → BurnM Int
  | 0, kbps => do
    let a ← exec answers (.set_cd_speed read_kbps kbps)
    pure a.rc
  | climb + 1, kbps => do
    let a ← exec answers (.set_cd_speed read_kbps kbps)
    if a.rc = ACCUDISC_ERR_SENSE ∧ a.last_sense.key = 0x05 ∧ a.last_sense.asc = 0x24 ∧
      kbps + 177 ≤ 0xffff then
      climb_write_speed answers read_kbps climb (kbps + 177)
    else pure a.rc

/-- `set_write_speed`: its code, and what the drive then says, when it says something. -/
def set_write_speed (answers : Nat → DriveAnswer) (speed_x : Nat) : BurnM (Int × Option Nat) := do
  let read_kbps :=
    match ← accudisc_get_speed answers with
    | .ok cur => if 0 < cur then cur else 0xffff
    | .error _ => 0xffff
  let rc ← climb_write_speed answers read_kbps SPEED_CLIMB_MAX (adsc_cd_speed_kbps speed_x)
  if rc ≠ ACCUDISC_OK then pure (rc, none)
  else do
    let cur ← adsc_dev_cur_write_kbps answers
    pure (ACCUDISC_OK, cur.toOption)

/-- `adsc_disc_info`, what the burn reads of it. -/
structure DiscInfo where
  status : BitVec 8
  leadin_m : BitVec 8
  leadin_s : BitVec 8
  leadin_f : BitVec 8
  leadin_len : Nat

def adsc_leadin_len_from_msf (m s f : BitVec 8) : Nat :=
  let start := (m.toNat * 60 + s.toNat) * 75 + f.toNat
  if 360000 ≤ start ∧ start < 450000 then 450000 - start else 4500

/-- The length that READ DISC INFORMATION reports, within the 34 bytes asked for. -/
def disc_info_len (data : Mem) : Nat := min (be16 data + 2) 34

/-- The two bits of the disc status. -/
def disc_status (data : Mem) : BitVec 8 := data 2 &&& 0x03

def adsc_write_read_disc_info (answers : Nat → DriveAnswer) : BurnM (Except Int DiscInfo) := do
  let a ← exec answers .read_disc_info
  if a.rc ≠ ACCUDISC_OK then pure (.error a.rc)
  else if disc_info_len a.data < 7 then pure (.error ACCUDISC_ERR_SHORT)
  else if 20 ≤ disc_info_len a.data then
    pure (.ok ⟨disc_status a.data, a.data 17, a.data 18, a.data 19,
      adsc_leadin_len_from_msf (a.data 17) (a.data 18) (a.data 19)⟩)
  else pure (.ok ⟨disc_status a.data, 0, 0, 0, 4500⟩)

/-! ## The layout -/

/-- `adsc_write_track`. -/
structure WriteTrack where
  audio : Bool
  preemphasis : Bool
  copy : Bool
  isrc : List (BitVec 8)
  index1_lba : Nat
  pregap : Nat
  sectors : Nat
  file_offset : Nat

/-- `adsc_write_toc`. -/
structure WriteToc where
  mcn : List (BitVec 8)
  leadout_lba : Nat
  track : List WriteTrack
  cdtext : Option (Mem × Nat)

/-- A track as the lines of the `.toc` file left it, and whether it has a FILE line. -/
structure ScannedTrack where
  track : WriteTrack
  have_file : Bool

/-- The second pass of `adsc_toc_parse_cue`: the tracks from `cum` on, and the lead-out. -/
def toc_layout : Nat → List ScannedTrack → Except Int (List WriteTrack × Nat)
  | cum, [] => .ok ([], cum)
  | cum, t :: ts =>
    if t.track.audio = false then .error ACCUDISC_ERR_INVAL
    else if t.have_file = false then .error ACCUDISC_ERR_INVAL
    else if t.track.sectors < t.track.pregap then .error ACCUDISC_ERR_INVAL
    else
      (toc_layout (u32 (cum + t.track.sectors)) ts).map fun rest =>
        ({ t.track with index1_lba := u32 (cum + t.track.pregap) } :: rest.1, rest.2)

def ADSC_CUE_MAX_ENTRIES : Nat := 400
def ADSC_CUE_DF_AUDIO_GEN : BitVec 8 := 0x01
def ADSC_CUE_DF_AUDIO_PW : BitVec 8 := 0x41

/-- The MSF of an absolute frame count. -/
def put_msf (frames : Int) : List (BitVec 8) :=
  let frames := if frames < 0 then 0 else frames
  [BitVec.ofInt 8 (frames / (60 * 75)), BitVec.ofInt 8 (frames / 75 % 60), BitVec.ofInt 8 (frames % 75)]

/-- Two entries of a text: its first `k` characters and the rest, after the bytes `hd`. -/
def cue_text (hd text : List (BitVec 8)) (k : Nat) : List (List (BitVec 8)) :=
  [(hd ++ text.take k ++ List.replicate 8 0).take 8, (hd ++ text.drop k ++ List.replicate 8 0).take 8]

/-- The entries of track `i`. -/
def cue_track (i : Nat) (t : WriteTrack) : List (List (BitVec 8)) :=
  let nr := BitVec.ofNat 8 (i + 1)
  let ctl : BitVec 8 := (if t.copy then 0x20 else 0) ||| (if t.preemphasis then 0x10 else 0)
  let point (index : BitVec 8) (frames : Int) : List (BitVec 8) :=
    [ctl ||| 0x01, nr, index, 0, 0] ++ put_msf frames
  (if t.isrc = [] then [] else cue_text [ctl ||| 0x03, nr] t.isrc 6) ++
  (if i = 0 then [point 0 0]
    else if 0 < t.pregap then [point 0 (int32 (sub32 t.index1_lba t.pregap) + 150)] else []) ++
  [point 1 (int32 t.index1_lba + 150)]

/-- The cue sheet, entry by entry. -/
def adsc_cuesheet_build (toc : WriteToc) (di : DiscInfo) : Except Int (List (List (BitVec 8))) :=
  if toc.track = [] ∨ 99 < toc.track.length then .error ACCUDISC_ERR_INVAL
  else
    let leadin : List (BitVec 8) :=
      match toc.cdtext with
      | some (_, len) =>
        if len ≠ 0 then [0x01, 0, 0, ADSC_CUE_DF_AUDIO_PW, 0, di.leadin_m, di.leadin_s, di.leadin_f]
        else [0x01, 0, 0, ADSC_CUE_DF_AUDIO_GEN, 0, 0, 0, 0]
      | none => [0x01, 0, 0, ADSC_CUE_DF_AUDIO_GEN, 0, 0, 0, 0]
    let entries :=
      (if toc.mcn = [] then [] else cue_text [0x02] toc.mcn 7) ++ [leadin] ++
      toc.track.zipIdx.flatMap (fun ti => cue_track ti.2 ti.1) ++
      [[0x01, 0xaa, 1, ADSC_CUE_DF_AUDIO_GEN, 0] ++ put_msf (int32 toc.leadout_lba + 150)]
    if ADSC_CUE_MAX_ENTRIES < entries.length then .error ACCUDISC_ERR_SHORT else .ok entries

/-! ## Writing -/

/-- `adsc_mmc_write10`; an answer without a command when the request is refused. -/
def adsc_mmc_write10 (answers : Nat → DriveAnswer) (lba : Int) (n block_bytes : Nat) (buf : Mem) :
    BurnM DriveAnswer :=
  if n = 0 ∨ 0xffff < n ∨ block_bytes = 0 then pure ⟨ACCUDISC_ERR_INVAL, fun _ => 0, 0, fun _ => 0⟩
  else exec answers (.write10 lba n block_bytes buf)

/-- Not ready, long write in progress: the buffer of the drive is full. -/
def DriveAnswer.buffer_full (a : DriveAnswer) : Bool :=
  a.rc = ACCUDISC_ERR_SENSE ∧ a.last_sense.key = 0x02 ∧ a.last_sense.asc = 0x04 ∧ a.last_sense.ascq = 0x08

/-- WRITE(10) of one chunk, again while the drive says that its buffer is full, for at most `waits`
waits. -/
def write_chunk (answers : Nat → DriveAnswer) (lba : Int) (n block_bytes : Nat) (buf : Mem) :
    Nat → BurnM Unit
  | 0 => do
    let a ← adsc_mmc_write10 answers lba n block_bytes buf
    check_rc a.rc
  | waits + 1 => do
    let a ← adsc_mmc_write10 answers lba n block_bytes buf
    if a.buffer_full then write_chunk answers lba n block_bytes buf waits else check_rc a.rc

def STALL_WAITS : Nat := STALL_CAP_MS / STALL_POLL_MS

/-- The zero sectors of the gap from `lba` on, `left` of them; `turns` is at least `left`. -/
def write_gap (answers : Nat → DriveAnswer) : Nat → Int → Nat → BurnM Unit
  | 0, _, _ => pure ()
  | turns + 1, lba, left =>
    if left = 0 then pure ()
    else do
      let n := if left < CHUNK then left else CHUNK
      write_chunk answers lba n SECTOR (fun _ => 0) STALL_WAITS
      write_gap answers turns (lba + n) (left - n)

/-- Copy the next block of the ring to place `i` of a transfer. -/
def leadin_copy (blocks : Mem) (nblocks : Nat) (st : Mem × Nat) (i : Nat) : Mem × Nat :=
  (memcpy st.1 (i * ADSC_RW_BLOCK_BYTES) blocks (st.2 * ADSC_RW_BLOCK_BYTES) ADSC_RW_BLOCK_BYTES,
    if nblocks ≤ st.2 + 1 then 0 else st.2 + 1)

/-- The blocks of the lead-in from `lba` on, `left` of them; `turns` is at least `left`, and `scp` is the
place in the ring. -/
def write_leadin (answers : Nat → DriveAnswer) (blocks : Mem) (nblocks : Nat) :
    Nat → Mem → Nat → Int → Nat → BurnM Unit
  | 0, _, _, _, _ => pure ()
  | turns + 1, xfer, scp, lba, left =>
    if left = 0 then pure ()
    else do
      let n := if left < CDT_CHUNK then left else CDT_CHUNK
      let st := (List.range n).foldl (leadin_copy blocks nblocks) (xfer, scp)
      write_chunk answers lba n ADSC_RW_BLOCK_BYTES st.1 STALL_WAITS
      write_leadin answers blocks nblocks turns st.1 st.2 (lba + n) (left - n)

/-- What an `adsc_wfifo_pop` gives: sectors, 0 at the end of the stream or an error, the bytes, and
whether the ring was empty. -/
structure PopAnswer where
  got : Int
  data : Mem
  was_empty : Bool

/-- Everything around the burn: the drive, the memory, the FIFO and the file. -/
structure BurnEnv where
  answers : Nat → DriveAnswer
  cdtext_alloc : Bool
  alloc : Bool
  fifo_start : Int
  fifo_prefill : Int
  fifo_stop : Int
  pops : Nat → PopAnswer
  file : BinFile
  trace : Bool

inductive BurnProof where
  | AUTO | OFF | ON

/-- `adsc_burn_opts`. -/
structure BurnOpts where
  simulate : Bool
  byteswap : Bool
  speed : Nat
  burnproof : BurnProof
  fifo_bytes : Nat

def write_cdtext_leadin (env : BurnEnv) (cdtext : Mem) (len : Nat) (di : DiscInfo) : BurnM Unit :=
  let npacks := (len - 4) / ADSC_CDTEXT_PACK_BYTES
  let nblocks := adsc_cdtext_rw_block_count npacks
  if npacks = 0 ∨ nblocks = 0 ∨ di.leadin_len = 0 then Exit.leave (some ACCUDISC_ERR_INVAL)
  else if env.cdtext_alloc = false then Exit.leave (some ACCUDISC_ERR_NOMEM)
  else do
    let blocks ← check (adsc_cdtext_encode_rw (ptr cdtext 4) npacks fun _ => 0)
    write_leadin env.answers blocks nblocks di.leadin_len (fun _ => 0) 0 (-LEADIN_GAP - di.leadin_len)
      di.leadin_len

/-- Whether `adsc_mmc_read_buffer_capacity` is good. -/
def capacity_ok (a : DriveAnswer) : Bool :=
  let total := be16 (ptr a.data 4) <<< 16 ||| be16 (ptr a.data 6)
  let blank := be16 (ptr a.data 8) <<< 16 ||| be16 (ptr a.data 10)
  a.rc = ACCUDISC_OK ∧ 10 ≤ be16 a.data ∧ total ≠ 0 ∧ blank ≤ total

/-- READ BUFFER CAPACITY, which the polls of the buffer hang on. -/
def poll_capacity (answers : Nat → DriveAnswer) : BurnM Unit := do
  let a ← exec answers .read_buffer_capacity
  Exit.update fun s => { s with cap_live := capacity_ok a }

/-- Sample the drive's buffer; one refusal disarms it. -/
def buf_sample (answers : Nat → DriveAnswer) : BurnM Unit := do
  let live ← Exit.read Burn.cap_live
  if live then poll_capacity answers else pure ()

/-- The tracks as the source of the payload. -/
def WriteToc.segs (toc : WriteToc) : List WfifoSeg := toc.track.map fun t => ⟨t.file_offset, t.sectors⟩

/-- The next chunk of the payload: its sectors and its bytes, or none at the end. -/
def next_chunk (env : BurnEnv) (toc : WriteToc) (opts : BurnOpts) (burnproof : Bool) (k done_sec : Nat) :
    Except Int (Option (Nat × Mem)) :=
  if opts.fifo_bytes ≠ 0 then
    let p := env.pops k
    if p.got < 0 then .error p.got
    else if p.got = 0 then .ok none
    else if p.was_empty = true ∧ burnproof = false then .error ACCUDISC_ERR_IO
    else .ok (some (p.got.toNat, p.data))
  else if toc.leadout_lba ≤ done_sec then .ok none
  else
    let c := find_track toc.segs 0 done_sec (min (toc.leadout_lba - done_sec) CHUNK)
    if env.file.readable c.off (c.n * SECTOR) then
      let chunk := memcpy (fun _ => 0) 0 env.file.bytes c.off (c.n * SECTOR)
      .ok (some (c.n, if opts.byteswap then byteswap16 chunk (c.n * SECTOR) else chunk))
    else .error ACCUDISC_ERR_IO

/-- The poll before a chunk. -/
def poll_buffer (answers : Nat → DriveAnswer) (done_sec : Nat) : BurnM Unit :=
  if done_sec / CHUNK % ADSC_BUF_POLL_EVERY = 0 then buf_sample answers else pure ()

/-- The payload loop, for at most `fuel` turns. -/
def payload (env : BurnEnv) (toc : WriteToc) (opts : BurnOpts) (burnproof : Bool) :
    Nat → Nat → Int → Nat → BurnM Unit
  | 0, _, _, _ => Exit.leave none
  | fuel + 1, k, lba, done_sec =>
    match next_chunk env toc opts burnproof k done_sec with
    | .error rc => Exit.leave (some rc)
    | .ok none => pure ()
    | .ok (some (n, src)) => do
      poll_buffer env.answers done_sec
      write_chunk env.answers lba n SECTOR src STALL_WAITS
      payload env toc opts burnproof fuel (k + 1) (lba + n) (u32 (done_sec + n))

/-! ## The burn -/

/-- The CD-Text to write, when there is a header and a pack at least. -/
def WriteToc.text (toc : WriteToc) : Option (Mem × Nat) := toc.cdtext.filter fun x => 22 ≤ x.2

/-- Whether the drive claims BURN-Proof. -/
def adsc_probe_cd_mastering (a : DriveAnswer) : Bool :=
  a.rc = ACCUDISC_OK ∧ be16 (ptr a.data 8) = ADSC_FEATURE_CD_MASTERING ∧ (a.data 12).getLsbD 6

def burnproof_wanted (opts : BurnOpts) (claimed : Bool) : Bool :=
  match opts.burnproof with
  | .OFF => false
  | .ON => true
  | .AUTO => claimed

/-- The write speed, asked for and read back; its failure stops nothing. -/
def write_speed (env : BurnEnv) (opts : BurnOpts) : BurnM Unit :=
  if 0 < opts.speed then do
    let _ ← set_write_speed env.answers opts.speed
    pure ()
  else do
    let _ ← adsc_dev_cur_write_kbps env.answers
    pure ()

/-- From the write parameters to the blank check. -/
def burn_checks (env : BurnEnv) (toc : WriteToc) (opts : BurnOpts) : BurnM (WpPage × Bool × DiscInfo) := do
  let caps ← exec env.answers (.get_configuration ADSC_FEATURE_CD_MASTERING)
  let burnproof := burnproof_wanted opts (adsc_probe_cd_mastering caps)
  let programmed ← wp_program env.answers ⟨opts.simulate, burnproof, toc.text.isSome⟩
  let sent ← check programmed
  write_speed env opts
  let held ← check_write_params env.answers sent
  check held
  let info ← adsc_write_read_disc_info env.answers
  let di ← check info
  if di.status ≠ 0 then Exit.leave (some ACCUDISC_ERR_NOT_BLANK) else pure (sent, burnproof, di)

/-- SEND OPC; a drive that does not know it does not need it. -/
def send_opc (env : BurnEnv) : BurnM Unit := do
  let a ← exec env.answers .send_opc
  if a.rc = ACCUDISC_ERR_SENSE ∧ a.last_sense.key = 0x05 ∧ a.last_sense.asc = 0x20 then pure ()
  else check_rc a.rc

/-- Power calibration of a live burn, and the second read-back. -/
def burn_calibrate (env : BurnEnv) (opts : BurnOpts) (sent : WpPage) : BurnM Unit :=
  if opts.simulate then pure ()
  else do
    send_opc env
    let held ← check_write_params env.answers sent
    check held

def send_cue (env : BurnEnv) (toc : WriteToc) (di : DiscInfo) : BurnM Unit := do
  let entries ← check (adsc_cuesheet_build toc di)
  let a ← exec env.answers
    (.send_cue_sheet (fun i => entries.flatten.getD i 0) (8 * entries.length))
  check_rc a.rc

/-- From here the drive holds an open session, and is not waited for. -/
def open_session : BurnM Unit :=
  Exit.update fun s => { s with session_open := true, dev := { s.dev with ready_wait_off := true } }

/-- The CD-Text lead-in, when there is CD-Text. -/
def write_text (env : BurnEnv) (toc : WriteToc) (di : DiscInfo) : BurnM Unit :=
  match toc.text with
  | some (cdtext, len) => write_cdtext_leadin env cdtext len di
  | none => pure ()

/-- The two buffers. -/
def alloc_buffers (env : BurnEnv) : BurnM Unit :=
  if env.alloc = false then Exit.leave (some ACCUDISC_ERR_NOMEM) else pure ()

/-- Start the FIFO and fill it, when one is asked for. -/
def start_fifo (env : BurnEnv) (opts : BurnOpts) : BurnM Unit :=
  if opts.fifo_bytes ≠ 0 then do
    check_rc env.fifo_start
    Exit.update fun s => { s with fifo_live := true }
    check_rc env.fifo_prefill
  else pure ()

/-- The lead-in, the gap and the payload. -/
def burn_write (env : BurnEnv) (toc : WriteToc) (opts : BurnOpts) (burnproof : Bool) (di : DiscInfo)
    (fuel : Nat) : BurnM Unit := do
  write_text env toc di
  alloc_buffers env
  poll_capacity env.answers
  write_gap env.answers LEADIN_GAP (-LEADIN_GAP) LEADIN_GAP
  start_fifo env opts
  payload env toc opts burnproof fuel 0 0 0

/-- What the drive says it wrote, for the trace. -/
def trace_disc_info (env : BurnEnv) : BurnM Unit :=
  if env.trace then do
    let _ ← adsc_write_read_disc_info env.answers
    pure ()
  else pure ()

def sync_cache (env : BurnEnv) : BurnM Unit := do
  let a ← exec env.answers .sync_cache
  check_rc a.rc

/-- A good close leaves no session open. -/
def close_session : BurnM Unit := Exit.update fun s => { s with session_open := false }

def burn_body (env : BurnEnv) (toc : WriteToc) (opts : BurnOpts) (fuel : Nat) : BurnM Unit := do
  let (sent, burnproof, di) ← burn_checks env toc opts
  burn_calibrate env opts sent
  send_cue env toc di
  open_session
  burn_write env toc opts burnproof di fuel
  sync_cache env
  close_session
  trace_disc_info env

/-- Wait for readiness again. -/
def wait_ready_again (s : Burn) : Burn := { s with dev := { s.dev with ready_wait_off := false } }

/-- Release the session that the drive holds. -/
def abort_session (env : BurnEnv) (s : Burn) : Burn :=
  if s.session_open then s.send env.answers .sync_cache else s

/-- The way out, where the FIFO is stopped too. -/
def burn_done (env : BurnEnv) (ret : Int) (s : Burn) : Int × Burn :=
  (if s.fifo_live = true ∧ ret = ACCUDISC_OK then env.fifo_stop else ret,
    abort_session env (wait_ready_again s))

/-- `adsc_write_run`: its code and the device after it; no code when `fuel` turns of the payload loop are
not enough, and then the device is as the last turn left it. -/
def adsc_write_run (env : BurnEnv) (toc : WriteToc) (opts : BurnOpts) (fuel : Nat) : Option Int × Burn :=
  match Exit.out (burn_body env toc opts fuel) {} with
  | (.ok (), s) => (burn_done env ACCUDISC_OK s).map some id
  | (.error (some rc), s) => (burn_done env rc s).map some id
  | (.error none, s) => (none, s)

end Accudisc
