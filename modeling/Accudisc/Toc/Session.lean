import Accudisc.Toc.Toc

/-!
# The audio-range guard (`session.c`) and the TOC of a drive (`toc.c`)
-/

namespace Accudisc

inductive RangeReason where
  | OK | DATA_TRACK | NOT_IN_TRACK | CROSSES_SESSION | BEYOND_LEADOUT | NO_SESSION_INFO
  | SESSION_UNMAPPED | EMPTY | TOC_UNTRUSTED
deriving DecidableEq

/-- `accudisc_range_check`. -/
structure AccuRangeCheck where
  ok : Bool
  reason : RangeReason
  session : BitVec 8
  track : BitVec 8
  first_bad_lba : Nat
deriving DecidableEq

/-- The first track whose full extent, pregap included, has the sector. -/
def track_at (toc : AccuToc) (lba : Nat) : Option AccuTrack :=
  toc.tracks.find? fun t => t.start ≤ lba ∧ lba < t.stop

def reject (reason : RangeReason) (session track : BitVec 8) (bad : Nat) : Int × AccuRangeCheck :=
  (ACCUDISC_ERR_UNSUPPORTED, ⟨false, reason, session, track, bad⟩)

/-- The walk over the range, a whole track at a time, for at most `fuel` turns. -/
def range_walk (toc : AccuToc) (stop : Nat) : Nat → Nat → BitVec 8 → Option (Int × AccuRangeCheck)
  | 0, _, _ => none
  | fuel + 1, p, session =>
    if p < stop then
      match track_at toc p with
      | none => some (reject .NOT_IN_TRACK session 0 p)
      | some t =>
        if !t.is_audio then some (reject .DATA_TRACK t.session t.number p)
        else if session ≠ 0 ∧ t.session ≠ session then
          some (reject .CROSSES_SESSION session t.number p)
        else
          -- `p = t->lba + t->sectors - 1`, and the `p++` of the loop
          range_walk toc stop fuel (u32 (sub32 (u32 (t.lba + t.sectors)) 1 + 1))
            (if session = 0 then t.session else session)
    else some (ACCUDISC_OK, ⟨true, .OK, session, 0, 0⟩)

def accudisc_check_audio_range (fuel : Nat) (toc : AccuToc) (lba count : Nat) :
    Option (Int × AccuRangeCheck) :=
  if count = 0 then some (reject .EMPTY 0 0 lba)
  else if toc.anomalies &&& ACCUDISC_TOC_ANOM_UNTRUSTED_GEOMETRY ≠ 0 then
    some (reject .TOC_UNTRUSTED 0 0 lba)
  else if toc.leadout_lba ≤ lba ∨ sub32 toc.leadout_lba lba < count then
    some (reject .BEYOND_LEADOUT 0 0 (if lba < toc.leadout_lba then toc.leadout_lba else lba))
  else if toc.sessions = [] ∧ 1 < toc.sessions_total then some (reject .SESSION_UNMAPPED 0 0 lba)
  else
    match (if toc.sessions = [] then toc.tracks.find? (fun t => !t.is_audio) else none) with
    | some t => some (reject .NO_SESSION_INFO 0 t.number lba)
    | none => range_walk toc (u32 (lba + count)) fuel lba 0

/-! ## The TOC of a drive -/

inductive TocSource where
  | FULLTOC | TOC
deriving DecidableEq

inductive TocDegrade where
  | NONE | LEADIN_UNREADABLE | LEADIN_ABSENT | LEADIN_MALFORMED
deriving DecidableEq

/-- `accudisc_toc_info`. -/
structure TocSrcInfo extends TocInfo where
  source : TocSource
  degrade : TocDegrade
  degrade_err : Int
  session_count : BitVec 8

/-- A command's answer: the bytes and their length, or an error. -/
abbrev Answer := Except Int (Mem × Nat)

/-- The drive's count of sessions, 0 when it does not say. -/
def disc_session_count (info : Answer) : BitVec 8 :=
  match info with
  | .error _ => 0
  | .ok (buf, len) => if len < 5 then 0 else buf 4

def accudisc_read_toc (cooked : Answer) : Except Int AccuToc :=
  cooked.bind fun x => adsc_toc_parse x.1 x.2

/-- One session has every track, and its lead-out is the disc's. -/
def one_session (out : AccuToc) : AccuToc :=
  let tracks := out.tracks.map fun t => { t with session := 1 }
  { out with
    tracks := tracks
    sessions :=
      [tracks.foldl census
        { number := 1
          first_track := (out.tracks.head?.map (·.number)).getD 0
          last_track := (out.tracks.getLast?.map (·.number)).getD 0
          leadout_lba := out.leadout_lba }] }

/-- The cooked TOC, after the lead-in failed. -/
def read_toc_degraded (cooked info : Answer) (degrade : TocDegrade) (err : Int) :
    Except Int (AccuToc × TocSrcInfo) :=
  (accudisc_read_toc cooked).map fun out =>
    let count := disc_session_count info
    let out := { out with sessions_total := count }
    (if count = 1 ∧ out.tracks ≠ [] then one_session out else out,
      ⟨⟨0, 0, 0⟩, .TOC, degrade, err, count⟩)

/-- The answers of the drive to READ TOC, formats 2 and 0, and to READ DISC INFORMATION. -/
def accudisc_read_toc_src (full cooked info : Answer) : Except Int (AccuToc × TocSrcInfo) :=
  match full with
  | .ok (raw, len) =>
    match (accudisc_fulltoc_parse raw len).bind adsc_toc_from_fulltoc with
    | .ok (out, i) =>
      .ok ({ out with sessions_total := i.last_session }, ⟨i, .FULLTOC, .NONE, 0, i.last_session⟩)
    | .error prc => read_toc_degraded cooked info .LEADIN_MALFORMED prc
  | .error rc =>
    read_toc_degraded cooked info
      (if rc = ACCUDISC_ERR_NOTFOUND then .LEADIN_ABSENT else .LEADIN_UNREADABLE) rc

end Accudisc
