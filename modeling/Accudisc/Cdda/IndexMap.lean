import Accudisc.Cdda.SubQ
import Accudisc.Toc.Toc

/-!
# The index and pregap map (`index_map.c`)

Each track's boundary, from a scan of the raw subcode of the sectors from `base_lba` on. Addresses are
`int32_t`, within which the code's sums of them stay.
-/

namespace Accudisc

def PREGAP_SCAN_FRAMES : Nat := 400
def CLEAN_WINDOW_FRAMES : Nat := 150

inductive PregapState where
  | NO_DATA | NONE | PRESENT | UNKNOWN
deriving DecidableEq

/-- `accudisc_index_map`. -/
structure IndexMap where
  track : BitVec 8
  pregap_state : PregapState := .NO_DATA
  max_index : BitVec 8 := 0
  index1_lba : Int
  q_index1_lba : Int := -1
  index0_lba : Int := -1
  pregap_frames : Nat := 0
  crc_ok : Nat := 0
  crc_bad : Nat := 0
deriving DecidableEq

def rel_frames (q : AccuQ) : Nat := (q.rel_m.toNat * 60 + q.rel_s.toNat) * 75 + q.rel_f.toNat

/-- The Q frame of sector `lba`. -/
def scan_q (raw : Mem) (base_lba lba : Int) : AccuQ :=
  (accudisc_q_parse (accudisc_sub_extract_q (ptr raw ((lba - base_lba).toNat * 96)))).1

/-- The entry of a track, with what the walk up to the boundary keeps beside it. -/
structure ApproachScan where
  m : IndexMap
  pregap_seen : Bool := false
  max_rel : Nat := 0

/-- One frame of the walk up to the boundary. -/
def approach_frame (s : ApproachScan) (lba : Int) (q : AccuQ) : ApproachScan :=
  let L := s.m.index1_lba
  let in_clean : Bool := L - CLEAN_WINDOW_FRAMES ≤ lba ∧ lba < L
  if !q.crc_ok then
    { s with m := { s.m with crc_bad := if in_clean then s.m.crc_bad + 1 else s.m.crc_bad } }
  else
    let s := { s with m := { s.m with crc_ok := if in_clean then s.m.crc_ok + 1 else s.m.crc_ok } }
    if q.adr ≠ ACCUDISC_Q_POSITION then s
    else if q.tno = s.m.track then
      let s := { s with m := { s.m with
        max_index := if s.m.max_index < q.index then q.index else s.m.max_index } }
      if q.index = 0 ∧ lba < L then
        { s with
          pregap_seen := true
          max_rel := if s.max_rel < rel_frames q then rel_frames q else s.max_rel }
      else if q.index = 1 then
        { s with m := { s.m with
          q_index1_lba := if s.m.q_index1_lba < 0 ∨ lba < s.m.q_index1_lba then lba
            else s.m.q_index1_lba } }
      else s
    else s

/-- The walk over `[L - 400, L]`, where the scan has the sector. -/
def approach_scan (raw : Mem) (base_lba scan_end : Int) (m : IndexMap) : ApproachScan :=
  (List.range (PREGAP_SCAN_FRAMES + 1)).foldl (fun s (k : Nat) =>
    let lba := m.index1_lba - PREGAP_SCAN_FRAMES + (k : Int)
    if lba < base_lba ∨ scan_end ≤ lba then s
      else approach_frame s lba (scan_q raw base_lba lba)) { m := m }

/-- The walk down from `lba` over `n` sectors: past the MCN and ISRC frames. -/
def approach_state (raw : Mem) (base_lba : Int) : Nat → Int → PregapState
  | 0, _ => .UNKNOWN
  | n + 1, lba =>
    if lba < base_lba then .UNKNOWN
    else
      let q := scan_q raw base_lba lba
      if !q.crc_ok then .UNKNOWN
      else if q.adr ≠ ACCUDISC_Q_POSITION then approach_state raw base_lba n (lba - 1)
      else .NONE

/-- The entry of a track. -/
def index_map_entry (raw : Mem) (base_lba scan_end : Int) (trk : AccuTrack) : IndexMap :=
  let L := int32 trk.lba
  let m : IndexMap := { track := trk.number, index1_lba := L }
  if L - 1 < base_lba ∨ scan_end ≤ L - 1 then m
  else
    let s := approach_scan raw base_lba scan_end m
    if s.pregap_seen ∧ 0 < s.max_rel then
      { s.m with pregap_state := .PRESENT, pregap_frames := s.max_rel, index0_lba := L - s.max_rel }
    else { s.m with pregap_state := approach_state raw base_lba PREGAP_SCAN_FRAMES (L - 1) }

/-- The entries written. -/
def accudisc_index_map_decode (raw : Mem) (base_lba : Int) (count : Nat) (toc : AccuToc) (max_out : Nat) :
    List IndexMap :=
  (toc.tracks.take max_out).map (index_map_entry raw base_lba (base_lba + int32 count))

end Accudisc
