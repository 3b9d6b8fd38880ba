import Accudisc.Write.Burn
import Mathlib.Algebra.GroupWithZero.Nat

/-!
# The cue sheet in its buffer (`cuesheet.c`)

`adsc_cuesheet_build` writes entry after entry and leaves at the first that does not fit. `cue_decode` is
what the drive makes of a payload.
-/

namespace Accudisc

/-- The buffer and the entries in it. -/
structure CueOut where
  out : Mem
  n : Nat := 0

abbrev CueM := Exit CueOut Int

/-- `ENTRY`, and the bytes that the entry gets. -/
def cue_entry (cap : Nat) (e : List (BitVec 8)) : CueM Unit := do
  let n ← Exit.read (·.n)
  if cap < u32 ((n + 1) * 8) then Exit.leave ACCUDISC_ERR_SHORT
  else Exit.update fun s => ⟨memcpy s.out (s.n * 8) (fun i => e.getD i 0) 0 8, s.n + 1⟩

def cue_entries (cap : Nat) : List (List (BitVec 8)) → CueM Unit
  | [] => pure ()
  | e :: es => do
    cue_entry cap e
    cue_entries cap es

/-- The lead-in: where it starts, when the host is to send its CD-Text. -/
def cue_leadin (toc : WriteToc) (di : Option DiscInfo) : List (BitVec 8) :=
  match toc.cdtext, di with
  | some (_, len), some di =>
    if len ≠ 0 then [0x01, 0, 0, ADSC_CUE_DF_AUDIO_PW, 0, di.leadin_m, di.leadin_s, di.leadin_f]
    else [0x01, 0, 0, ADSC_CUE_DF_AUDIO_GEN, 0, 0, 0, 0]
  | _, _ => [0x01, 0, 0, ADSC_CUE_DF_AUDIO_GEN, 0, 0, 0, 0]

def cue_leadout (toc : WriteToc) : List (BitVec 8) :=
  [0x01, 0xaa, 1, ADSC_CUE_DF_AUDIO_GEN, 0] ++ put_msf (int32 toc.leadout_lba + 150)

/-- The tracks from the `i`-th on. -/
def cue_tracks (cap : Nat) : Nat → List WriteTrack → CueM Unit
  | _, [] => pure ()
  | i, t :: ts => do
    cue_entries cap (cue_track i t)
    cue_tracks cap (i + 1) ts

/-- `adsc_cuesheet_build` with the capacity of its caller: the length of the payload. -/
def adsc_cuesheet_build_cap (cap : Nat) (toc : WriteToc) (di : Option DiscInfo) : CueM Nat :=
  if toc.track = [] ∨ 99 < toc.track.length then Exit.leave ACCUDISC_ERR_INVAL
  else do
    if toc.mcn = [] then pure () else cue_entries cap (cue_text [0x02] toc.mcn 7)
    cue_entries cap [cue_leadin toc di]
    cue_tracks cap 0 toc.track
    cue_entries cap [cue_leadout toc]
    let n ← Exit.read (·.n)
    pure (u32 (n * 8))

/-- The build into the buffer `m`: its outcome, and what the buffer then holds. -/
def cue_build (cap : Nat) (toc : WriteToc) (di : Option DiscInfo) (m : Mem) : Except Int Nat × CueOut :=
  Exit.out (adsc_cuesheet_build_cap cap toc di) ⟨m, 0⟩

/-- The entries of a payload. -/
def cue_payload (out : Mem) (len : Nat) : List (List (BitVec 8)) :=
  (List.range (len / 8)).map fun k => (List.range 8).map fun i => out (8 * k + i)

/-! ## What the drive is told -/

/-- A track as the cue sheet gives it. -/
structure CueTrack where
  number : BitVec 8
  isrc : List (BitVec 8)
  copy : Bool
  preemphasis : Bool
  pregap_start : Option Int
  index1_lba : Int
deriving DecidableEq

structure CueImage where
  mcn : List (BitVec 8)
  tracks : List CueTrack
  leadout_lba : Int
deriving DecidableEq

/-- What the entries so far say; the ISRC and the pregap are of the track that comes. -/
structure CueScan where
  mcn : List (BitVec 8) := []
  isrc : List (BitVec 8) := []
  pregap_start : Option Int := none
  tracks : List CueTrack := []
  leadout_lba : Int := 0

def cue_adr (e : List (BitVec 8)) : BitVec 8 := e.getD 0 0 &&& 0x0f
def cue_number (e : List (BitVec 8)) : BitVec 8 := e.getD 1 0

/-- The frames of an entry's MSF. -/
def cue_frames (e : List (BitVec 8)) : Nat :=
  ((e.getD 5 0).toNat * 60 + (e.getD 6 0).toNat) * 75 + (e.getD 7 0).toNat

/-- The characters before the first NUL. -/
def c_string (text : List (BitVec 8)) : List (BitVec 8) := text.takeWhile (· ≠ 0)

/-- One entry, by its ADR: 2 for the catalogue number, 3 for an ISRC, and 1 for a position. -/
def cue_read (s : CueScan) (e : List (BitVec 8)) : CueScan :=
  if cue_adr e = 2 then { s with mcn := s.mcn ++ e.drop 1 }
  else if cue_adr e = 3 then { s with isrc := s.isrc ++ e.drop 2 }
  else if cue_number e = 0 then s
  else if cue_number e = 0xaa then { s with leadout_lba := cue_frames e - 150 }
  else if e.getD 2 0 = 0 then
    { s with pregap_start := if cue_number e = 1 then none else some (cue_frames e - 150) }
  else
    { s with
      isrc := []
      pregap_start := none
      tracks := s.tracks ++ [{
        number := cue_number e
        isrc := c_string s.isrc
        copy := e.getD 0 0 &&& 0x20 ≠ 0
        preemphasis := e.getD 0 0 &&& 0x10 ≠ 0
        pregap_start := s.pregap_start
        index1_lba := cue_frames e - 150 }] }

def cue_decode (es : List (List (BitVec 8))) : CueImage :=
  let s := es.foldl cue_read {}
  ⟨c_string s.mcn, s.tracks, s.leadout_lba⟩

/-- The positions that the entries give, in their order. -/
def cue_positions (es : List (List (BitVec 8))) : List Nat :=
  es.filterMap fun e => if cue_adr e = 1 ∧ cue_number e ≠ 0 then some (cue_frames e) else none

/-! ## The layout it is to tell -/

/-- Track `i` of the layout. -/
def WriteTrack.cue (i : Nat) (t : WriteTrack) : CueTrack :=
  { number := BitVec.ofNat 8 (i + 1)
    isrc := t.isrc
    copy := t.copy
    preemphasis := t.preemphasis
    pregap_start := if i ≠ 0 ∧ 0 < t.pregap then some ((t.index1_lba : Int) - t.pregap) else none
    index1_lba := t.index1_lba }

def WriteToc.cue (toc : WriteToc) : CueImage :=
  ⟨toc.mcn, toc.track.zipIdx.map fun ti => ti.1.cue ti.2, toc.leadout_lba⟩

/-- The entries of a track, and of the layout. -/
def WriteTrack.cue_count (i : Nat) (t : WriteTrack) : Nat :=
  (if t.isrc = [] then 0 else 2) + (if i = 0 ∨ 0 < t.pregap then 1 else 0) + 1

def WriteToc.cue_count (toc : WriteToc) : Nat :=
  (if toc.mcn = [] then 0 else 2) + 1 + (toc.track.zipIdx.map fun ti => ti.1.cue_count ti.2).sum + 1

/-- A text of at most `n` characters, none of them NUL. -/
def Text (n : Nat) (text : List (BitVec 8)) : Prop := text.length ≤ n ∧ 0 ∉ text

/-- Tracks in order from `lo` on: the index 1 of one lies at or before the start of the next, the last one's
at or before `hi`. -/
def TracksInOrder (hi : Nat) : Nat → List WriteTrack → Prop
  | lo, [] => lo ≤ hi
  | lo, t :: ts => lo + t.pregap ≤ t.index1_lba ∧ TracksInOrder hi t.index1_lba ts

/-- The write TOCs: their counts and texts are within what the structure holds. -/
structure WriteToc.Valid (toc : WriteToc) : Prop where
  tracks : toc.track ≠ [] ∧ toc.track.length ≤ 99
  leadout : toc.leadout_lba + 150 < 256 * 4500
  mcn : Text 13 toc.mcn
  isrc : ∀ t ∈ toc.track, Text 12 t.isrc

end Accudisc
