import Accudisc.Cdda.SubQ
import Accudisc.Lib.Loop
import Accudisc.Read.Sector

/-!
# The table of contents (`toc.c`, `fulltoc.c`)

The parsers of the cooked TOC and of the raw lead-in, and the extents that both give their tracks.
-/

namespace Accudisc

/-- `accudisc_track`. -/
structure AccuTrack where
  number : BitVec 8 := 0
  adr_ctrl : BitVec 8 := 0
  session : BitVec 8 := 0
  lba : Nat := 0
  sectors : Nat := 0
  pregap : Nat := 0
deriving DecidableEq

/-- `ACCUDISC_TRACK_IS_AUDIO`. -/
def AccuTrack.is_audio (t : AccuTrack) : Bool := t.adr_ctrl &&& 0x04 = 0

/-- `accudisc_session`. -/
structure AccuSession where
  number : BitVec 8 := 0
  first_track : BitVec 8 := 0
  last_track : BitVec 8 := 0
  audio_tracks : BitVec 8 := 0
  data_tracks : BitVec 8 := 0
  leadout_lba : Nat := 0
deriving DecidableEq

def ACCUDISC_TOC_ANOM_LBA_ORDER : Nat := 1 <<< 0
def ACCUDISC_TOC_ANOM_OVERLAP : Nat := 1 <<< 1
def ACCUDISC_TOC_ANOM_LEADOUT_BEFORE : Nat := 1 <<< 2
def ACCUDISC_TOC_ANOM_PAST_LEADOUT : Nat := 1 <<< 3
def ACCUDISC_TOC_ANOM_EMPTY_TRACK : Nat := 1 <<< 4
def ACCUDISC_TOC_ANOM_NEGATIVE_LBA : Nat := 1 <<< 5
def ACCUDISC_TOC_ANOM_BAD_TRACK_NUM : Nat := 1 <<< 6
def ACCUDISC_TOC_ANOM_RANGE_MISMATCH : Nat := 1 <<< 7
def ACCUDISC_TOC_ANOM_BAD_SESSION : Nat := 1 <<< 8

def ACCUDISC_TOC_ANOM_UNTRUSTED_GEOMETRY : Nat :=
  ACCUDISC_TOC_ANOM_LBA_ORDER ||| ACCUDISC_TOC_ANOM_OVERLAP ||| ACCUDISC_TOC_ANOM_LEADOUT_BEFORE

/-- `accudisc_toc`; its counts are the lengths of its lists. -/
structure AccuToc where
  first_track : BitVec 8 := 0
  last_track : BitVec 8 := 0
  leadout_lba : Nat := 0
  tracks : List AccuTrack := []
  sessions : List AccuSession := []
  sessions_total : BitVec 8 := 0
  anomalies : Nat := 0
deriving DecidableEq

def be32 (p : Mem) : Nat :=
  (p 0).toNat <<< 24 ||| (p 1).toNat <<< 16 ||| (p 2).toNat <<< 8 ||| (p 3).toNat

/-! ## Extents -/

def session_leadout (t : AccuToc) (session : BitVec 8) : Nat :=
  match t.sessions.find? (·.number = session) with
  | some s => s.leadout_lba
  | none => t.leadout_lba

/-- The successor of `t` by address in its session. No track lies past itself, so `j == i` needs
no test of its own. -/
def next_by_address (out : AccuToc) (t : AccuTrack) : Option AccuTrack :=
  Loop.firstMin (fun u => u.session = t.session ∧ t.lba < u.lba) (·.lba) out.tracks

def track_next (out : AccuToc) (t : AccuTrack) : Nat :=
  match next_by_address out t with
  | some u => u.lba
  | none => session_leadout out t.session

def track_sectors (out : AccuToc) (t : AccuTrack) : Nat :=
  if t.lba < track_next out t then sub32 (track_next out t) t.lba else 0

/-- A loop that sets the bit when one of its turns finds what the bit reports. -/
def anomaly (found : Bool) (bit : Nat) : Nat := if found then bit else 0

/-- Numbers ascend and addresses do not. -/
def lba_order (out : AccuToc) : Bool :=
  (List.range out.tracks.length).any fun i =>
    match out.tracks[i]?, out.tracks[i + 1]? with
    | some t, some u => u.session = t.session ∧ u.lba ≤ t.lba
    | _, _ => false

/-- The lowest address among the tracks. -/
def lowest_lba (tracks : List AccuTrack) : Option Nat :=
  (Loop.firstMin (fun _ => true) (·.lba) tracks).map (·.lba)

/-- A lead-out at or before the lowest track of its session, or of the disc when there is no
session table. -/
def leadout_before (out : AccuToc) : Bool :=
  out.sessions.any (fun ss =>
    match lowest_lba (out.tracks.filter (·.session = ss.number)) with
    | none => false
    | some lowest => ss.leadout_lba ≤ lowest) ||
  out.sessions.isEmpty &&
    match lowest_lba out.tracks with
    | none => false
    | some lowest => out.leadout_lba ≤ lowest

/-- The index of the first track of lowest address in session 1, or where the session is unknown. -/
def lowest_track (tracks : List AccuTrack) : Option Nat :=
  Loop.firstMin (fun i => tracks[i]?.any (·.session ≤ 1)) (fun i => (tracks[i]?.map (·.lba)).getD 0)
    (List.range tracks.length)

/-- The pregap of the first track: the program area begins at LBA 0. -/
def fill_pregap (tracks : List AccuTrack) : List AccuTrack :=
  match lowest_track tracks with
  | none => tracks
  | some i => tracks.modify i fun t => if t.lba ≠ 0 then { t with pregap := t.lba } else t

/-- The start and the end of a track's full extent. -/
def AccuTrack.start (t : AccuTrack) : Nat := sub32 t.lba t.pregap
def AccuTrack.stop (t : AccuTrack) : Nat := u32 (t.lba + t.sectors)

def overlap (tracks : List AccuTrack) : Bool :=
  (List.range tracks.length).any fun i =>
    match tracks[i]? with
    | none => false
    | some a =>
      a.sectors ≠ 0 && (tracks.drop (i + 1)).any fun b =>
        b.sectors ≠ 0 && decide (a.start < b.stop ∧ b.start < a.stop)

def toc_fill_extents (out : AccuToc) : AccuToc :=
  let filled := out.tracks.map fun t => { t with sectors := track_sectors out t }
  let tracks := fill_pregap filled
  { out with
    tracks := tracks
    anomalies := out.anomalies |||
      anomaly (lba_order out) ACCUDISC_TOC_ANOM_LBA_ORDER |||
      anomaly (out.tracks.any fun t => session_leadout out t.session ≤ t.lba)
        ACCUDISC_TOC_ANOM_PAST_LEADOUT |||
      anomaly (filled.any (·.sectors = 0)) ACCUDISC_TOC_ANOM_EMPTY_TRACK |||
      anomaly (leadout_before out) ACCUDISC_TOC_ANOM_LEADOUT_BEFORE |||
      anomaly (overlap tracks) ACCUDISC_TOC_ANOM_OVERLAP }

/-! ## The cooked TOC -/

/-- What the descriptors say: the lead-out, if there is one, and the tracks. -/
structure TocScan where
  leadout : Option Nat := none
  tracks : List AccuTrack := []

/-- One descriptor, at `d`. -/
def toc_descriptor (s : TocScan) (d : Mem) : TocScan :=
  let track := d 2
  let lba := be32 (ptr d 4)
  if track = 0xAA then { s with leadout := some lba }
  else if 1 ≤ track ∧ track ≤ 99 ∧ s.tracks.length < 99 then
    { s with tracks := s.tracks ++ [{ number := track, adr_ctrl := d 1, lba := lba }] }
  else s

/-- The end of the descriptors in a response of `len` bytes. -/
def toc_end (buf : Mem) (len : Nat) : Nat := min (((buf 0).toNat <<< 8 ||| (buf 1).toNat) + 2) len

/-- The tracks and the lead-out, before their extents. -/
def toc_place (buf : Mem) (len : Nat) : Except Int AccuToc :=
  if len < 4 then .error ACCUDISC_ERR_SHORT
  else
    let scan := (List.range ((toc_end buf len - 4) / 8)).foldl
      (fun s k => toc_descriptor s (ptr buf (4 + 8 * k))) {}
    match scan.leadout with
    | none => .error ACCUDISC_ERR_SHORT
    | some leadout =>
      .ok { first_track := buf 2, last_track := buf 3, leadout_lba := leadout, tracks := scan.tracks }

def adsc_toc_parse (buf : Mem) (len : Nat) : Except Int AccuToc :=
  (toc_place buf len).map toc_fill_extents

/-! ## The raw lead-in -/

/-- `accudisc_fulltoc_entry`, with what the TOC reads of it. -/
structure FulltocEntry where
  session : BitVec 8
  adr_ctrl : BitVec 8
  point : BitVec 8
  min : BitVec 8
  sec : BitVec 8
  frame : BitVec 8
  pmin : BitVec 8
  psec : BitVec 8
  pframe : BitVec 8
deriving DecidableEq

structure AccuFulltoc where
  first_session : BitVec 8
  last_session : BitVec 8
  entries : List FulltocEntry
deriving DecidableEq

def FULLTOC_ENTRIES : Nat := 136

def fulltoc_entry (d : Mem) : FulltocEntry :=
  ⟨d 0, d 1, d 3, d 4, d 5, d 6, d 8, d 9, d 10⟩

def accudisc_fulltoc_parse (raw : Mem) (len : Nat) : Except Int AccuFulltoc :=
  if len < 4 then .error ACCUDISC_ERR_SHORT
  else
    let n := (toc_end raw len - 4) / 11
    if FULLTOC_ENTRIES < n then .error ACCUDISC_ERR_SHORT
    else if n = 0 then .error ACCUDISC_ERR_SHORT
    else .ok ⟨raw 2, raw 3, (List.range n).map fun k => fulltoc_entry (ptr raw (4 + 11 * k))⟩

/-- The accumulators of the walk over the lead-in's entries. -/
structure FulltocScan where
  slot : Nat → Option AccuTrack := fun _ => none
  sess : Nat → Option AccuSession := fun _ => none
  first_track : BitVec 8 := 0
  last_track : BitVec 8 := 0
  disc_type : BitVec 8 := 0
  first_session : BitVec 8 := 0
  last_session : BitVec 8 := 0
  leadout : Option Nat := none
  anomalies : Nat := 0

/-- Sessions are numbered 1 to 99. -/
def session_ok (n : BitVec 8) : Bool := 1 ≤ n && n ≤ 99

/-- The session bounds and the session's accumulator. -/
def fulltoc_session (s : FulltocScan) (e : FulltocEntry) : FulltocScan :=
  let s := { s with
    first_session := if s.first_session = 0 ∨ e.session < s.first_session then e.session
      else s.first_session
    last_session := if s.last_session < e.session then e.session else s.last_session }
  if session_ok e.session then
    match s.sess e.session.toNat with
    | none => { s with sess := Function.update s.sess e.session.toNat (some { number := e.session }) }
    | some _ => s
  else { s with anomalies := s.anomalies ||| ACCUDISC_TOC_ANOM_BAD_SESSION }

/-- A field of the accumulator of a session in range. -/
def FulltocScan.setSess (s : FulltocScan) (n : BitVec 8) (f : AccuSession → AccuSession) : FulltocScan :=
  { s with sess := Function.update s.sess n.toNat ((s.sess n.toNat).map f) }

/-- A track start. -/
def fulltoc_track (s : FulltocScan) (e : FulltocEntry) (lba : Int) : FulltocScan :=
  if lba < 0 then { s with anomalies := s.anomalies ||| ACCUDISC_TOC_ANOM_NEGATIVE_LBA }
  else match s.slot e.point.toNat with
    | some _ => s
    | none => { s with
        slot := Function.update s.slot e.point.toNat (some
          { number := e.point, adr_ctrl := e.adr_ctrl, session := e.session, lba := lba.toNat }) }

def fulltoc_a0 (s : FulltocScan) (e : FulltocEntry) : FulltocScan :=
  if e.pmin < 1 ∨ 99 < e.pmin then { s with anomalies := s.anomalies ||| ACCUDISC_TOC_ANOM_BAD_TRACK_NUM }
  else if session_ok e.session then
    let s := s.setSess e.session fun x => { x with first_track := e.pmin }
    { s with
      first_track := if s.first_track = 0 ∨ e.session ≤ s.first_session then e.pmin else s.first_track
      disc_type := if s.disc_type = 0 ∨ e.session ≤ s.first_session then e.psec else s.disc_type }
  else s

def fulltoc_a1 (s : FulltocScan) (e : FulltocEntry) : FulltocScan :=
  if e.pmin < 1 ∨ 99 < e.pmin then { s with anomalies := s.anomalies ||| ACCUDISC_TOC_ANOM_BAD_TRACK_NUM }
  else if session_ok e.session then
    let s := s.setSess e.session fun x => { x with last_track := e.pmin }
    { s with
      last_track := if s.last_track = 0 ∨ s.last_session ≤ e.session then e.pmin else s.last_track }
  else s

/-- A lead-out; the disc's is that of the highest session. -/
def fulltoc_a2 (s : FulltocScan) (e : FulltocEntry) (lba : Int) : FulltocScan :=
  let s := if session_ok e.session then s.setSess e.session fun x =>
    { x with leadout_lba := lba.toNat } else s
  if s.leadout.isNone ∨ s.last_session ≤ e.session then { s with leadout := some lba.toNat } else s

def fulltoc_point (s : FulltocScan) (e : FulltocEntry) : FulltocScan :=
  let lba := accudisc_msf_to_lba e.pmin e.psec e.pframe
  let s := fulltoc_session s e
  if 0x01 ≤ e.point ∧ e.point ≤ 0x63 then fulltoc_track s e lba
  else if e.point = 0xA0 then fulltoc_a0 s e
  else if e.point = 0xA1 then fulltoc_a1 s e
  else if e.point = 0xA2 ∧ 0 ≤ lba then fulltoc_a2 s e lba
  else s

/-- Count a track in its session. -/
def census (x : AccuSession) (t : AccuTrack) : AccuSession :=
  if t.is_audio then { x with audio_tracks := x.audio_tracks + 1 }
  else { x with data_tracks := x.data_tracks + 1 }

/-- The table entry of a session that says where it ends. -/
def session_entry (tracks : List AccuTrack) (x : AccuSession) : Option AccuSession :=
  if x.leadout_lba = 0 then none
  else
    let own := tracks.filter (·.session = x.number)
    let x := own.foldl census x
    let obs_first := (own.head?.map (·.number)).getD 0
    let obs_last := (own.getLast?.map (·.number)).getD 0
    some { x with
      first_track := if x.first_track = 0 then obs_first else x.first_track
      last_track := if x.last_track = 0 then obs_last else x.last_track }

/-- What the A0 and A1 pointers claim against the tracks observed. -/
def range_mismatch (s : FulltocScan) (n : Nat) (obs_first obs_last : BitVec 8) : Bool :=
  if s.first_track ≠ 0 ∧ s.first_track ≠ obs_first ∨ s.last_track ≠ 0 ∧ s.last_track ≠ obs_last then true
  else s.last_track ≠ 0 ∧ s.first_track ≠ 0 ∧ s.first_track ≤ s.last_track ∧
    (n : Int) ≠ s.last_track.toNat - s.first_track.toNat + 1

/-- `accudisc_toc_info`, as the lead-in fills it. -/
structure TocInfo where
  first_session : BitVec 8
  last_session : BitVec 8
  disc_type : BitVec 8
deriving DecidableEq

/-- The tracks, the session table and the lead-out, before the extents. -/
def fulltoc_place (ft : AccuFulltoc) : Except Int (AccuToc × TocInfo) :=
  let s := ft.entries.foldl fulltoc_point {}
  let tracks := (List.range' 1 99).filterMap s.slot
  match s.leadout, tracks.head?, tracks.getLast? with
  | some leadout, some first, some last =>
    .ok ({ first_track := if s.first_track ≠ 0 then s.first_track else first.number
           last_track := if s.last_track ≠ 0 then s.last_track else last.number
           leadout_lba := leadout
           tracks := tracks
           sessions := (List.range' 1 99).filterMap fun n => (s.sess n).bind (session_entry tracks)
           anomalies := s.anomalies ||| anomaly (range_mismatch s tracks.length first.number last.number)
             ACCUDISC_TOC_ANOM_RANGE_MISMATCH },
      ⟨s.first_session, s.last_session, s.disc_type⟩)
  | _, _, _ => .error ACCUDISC_ERR_SHORT

def adsc_toc_from_fulltoc (ft : AccuFulltoc) : Except Int (AccuToc × TocInfo) :=
  (fulltoc_place ft).map fun x => (toc_fill_extents x.1, x.2)

end Accudisc
