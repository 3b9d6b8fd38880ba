import Accudisc.Toc.Session

/-!
# Ranges by name (`session.c`)

The span of a session, of its audio and of a run of tracks. A span is its first sector and its count.
-/

namespace Accudisc

def find_session (toc : AccuToc) (n : BitVec 8) : Option AccuSession := toc.sessions.find? (·.number = n)

def accudisc_toc_default_audio_session (toc : AccuToc) : Except Int (BitVec 8) :=
  if toc.sessions = [] then .error ACCUDISC_ERR_INVAL
  else
    match toc.sessions.filter (·.audio_tracks ≠ 0) with
    | [] => .error ACCUDISC_ERR_NOTFOUND
    | [s] => .ok s.number
    | _ => .error ACCUDISC_ERR_UNSUPPORTED

def accudisc_toc_session_range (toc : AccuToc) (session : BitVec 8) : Except Int (Nat × Nat) :=
  match find_session toc session with
  | none => .error ACCUDISC_ERR_NOTFOUND
  | some s =>
    match lowest_lba (toc.tracks.filter (·.session = session)) with
    | none => .error ACCUDISC_ERR_NOTFOUND
    | some start =>
      if s.leadout_lba ≤ start then .error ACCUDISC_ERR_SHORT else .ok (start, sub32 s.leadout_lba start)

/-- The first and the last audio track of a session, as the walk over the tracks keeps them. -/
structure AudioSpan where
  first : Option AccuTrack := none
  last : Option AccuTrack := none

/-- One track of the walk: the audio of the session is not to be split by data. -/
def audio_span_track (session : BitVec 8) (s : AudioSpan) (t : AccuTrack) : Except Int AudioSpan :=
  if t.session ≠ session then .ok s
  else if !t.is_audio then if s.first.isSome then .error ACCUDISC_ERR_UNSUPPORTED else .ok s
  else .ok ⟨if s.first.isNone then some t else s.first, some t⟩

def accudisc_toc_session_audio_range (toc : AccuToc) (session : BitVec 8) : Except Int (Nat × Nat) :=
  match find_session toc session with
  | none => .error ACCUDISC_ERR_NOTFOUND
  | some _ =>
    match toc.tracks.foldlM (audio_span_track session) {} with
    | .error rc => .error rc
    | .ok ⟨some first, some last⟩ =>
      if last.sectors = 0 then .error ACCUDISC_ERR_SHORT
      else
        let lba := sub32 first.lba first.pregap
        .ok (lba, sub32 (u32 (last.lba + last.sectors)) lba)
    | .ok _ => .error ACCUDISC_ERR_NOTFOUND

/-- The last of the tracks that have the number. -/
def track_numbered (toc : AccuToc) (n : BitVec 8) : Option AccuTrack := toc.tracks.findRev? (·.number = n)

def accudisc_toc_track_range (toc : AccuToc) (first last : BitVec 8) : Except Int (Nat × Nat) :=
  if last < first then .error ACCUDISC_ERR_INVAL
  else
    match track_numbered toc first, track_numbered toc last with
    | some a, some b =>
      if a.session ≠ b.session then .error ACCUDISC_ERR_UNSUPPORTED
      else if b.sectors = 0 ∨ u32 (b.lba + b.sectors) ≤ a.lba then .error ACCUDISC_ERR_SHORT
      else
        let lba := sub32 a.lba a.pregap
        .ok (lba, sub32 (u32 (b.lba + b.sectors)) lba)
    | _, _ => .error ACCUDISC_ERR_NOTFOUND

end Accudisc
