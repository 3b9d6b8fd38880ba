import Accudisc.Write.Burn
import Mathlib.Algebra.Group.Int.Defs
import Mathlib.Data.List.Infix

/-!
# The `.toc` parser (`tocparse.c`)

A pointer into the text is the text from there on, and its end is the NUL. The numbers are read by
`strtol` and go through `long` and `uint32_t`; `Arith` is what these do to them, so that the same scan can
be made in exact numbers.
-/

namespace Accudisc

/-- A text, or what is left of it. -/
abbrev CText := List (BitVec 8)

def chars (cs : List Char) : CText := cs.map fun c => BitVec.ofNat 8 c.toNat

def NL : BitVec 8 := 0x0a
def QUOTE : BitVec 8 := 0x22
def COLON : BitVec 8 := 0x3a

def kw_CATALOG : CText := chars ['C', 'A', 'T', 'A', 'L', 'O', 'G']
def kw_TRACK : CText := chars ['T', 'R', 'A', 'C', 'K']
def kw_AUDIO : CText := chars ['A', 'U', 'D', 'I', 'O']
def kw_ISRC : CText := chars ['I', 'S', 'R', 'C']
def kw_NO : CText := chars ['N', 'O']
def kw_PRE_EMPHASIS : CText := chars ['P', 'R', 'E', '_', 'E', 'M', 'P', 'H', 'A', 'S', 'I', 'S']
def kw_COPY : CText := chars ['C', 'O', 'P', 'Y']
def kw_FILE : CText := chars ['F', 'I', 'L', 'E']
def kw_AUDIOFILE : CText := chars ['A', 'U', 'D', 'I', 'O', 'F', 'I', 'L', 'E']
def kw_START : CText := chars ['S', 'T', 'A', 'R', 'T']

/-! ## Characters -/

def is_blank (c : BitVec 8) : Bool := c = 0x20 || c = 0x09

/-- `isspace` in the C locale. -/
def is_space (c : BitVec 8) : Bool := c = 0x20 || 0x09 ≤ c && c ≤ 0x0d

def is_digit (c : BitVec 8) : Bool := 0x30 ≤ c && c ≤ 0x39

def skipws (p : CText) : CText := p.dropWhile is_blank

/-- The line, without its end. -/
def line_of (p : CText) : CText := p.takeWhile (· ≠ NL)

/-- A keyword, and then a blank or the end of the line. -/
def kw (p k : CText) : Bool :=
  p.take k.length = k && match p.drop k.length with
    | [] => true
    | c :: _ => c = 0x20 || c = 0x09 || c = 0x0d || c = NL

/-- `strstr`, as a test. -/
def strstr (p k : CText) : Bool := decide (k <:+: p)

/-! ## Numbers -/

/-- What the types do to a number: `strtol` saturates, `long` wraps and `uint32_t` keeps the low bits. -/
structure Arith where
  strtol : Int → Int
  long : Int → Int
  uint32 : Int → Nat
  uint64 : Int → Nat

def LONG_MAX : Int := 2 ^ 63 - 1

/-- The arithmetic of the code. An overflow of `long` is left undefined by C; it is taken to wrap. -/
def machine : Arith where
  strtol n := max (-LONG_MAX - 1) (min n LONG_MAX)
  long n := (BitVec.ofInt 64 n).toInt
  uint32 n := (n % 2 ^ 32).toNat
  uint64 n := (n % 2 ^ 64).toNat

/-- The numbers as they are written. -/
def written : Arith where
  strtol n := n
  long n := n
  uint32 n := n.toNat
  uint64 n := n.toNat

/-- The value of decimal digits. -/
def digits_value (ds : CText) : Nat := ds.foldl (fun n d => n * 10 + (d.toNat - 0x30)) 0

/-- `strtol` in base 10: the number and what follows it, or nothing when there is no number. -/
def strtol (ar : Arith) (p : CText) : Option (Int × CText) :=
  let q := p.dropWhile is_space
  let neg : Bool := q.head? = some 0x2d
  let d := if neg ∨ q.head? = some 0x2b then q.drop 1 else q
  let ds := d.takeWhile is_digit
  if ds = [] then none
  else some (ar.strtol (if neg then -(digits_value ds : Int) else digits_value ds), d.drop ds.length)

/-- A number that a colon follows. -/
def strtol_colon (ar : Arith) (p : CText) : Option (Int × CText) :=
  match strtol ar p with
  | some (n, c :: e) => if c = COLON then some (n, e) else none
  | _ => none

def parse_msf (ar : Arith) (p : CText) : Option (Int × CText) :=
  match strtol_colon ar (skipws p) with
  | none => none
  | some (mm, p) =>
    match strtol_colon ar p with
    | none => none
    | some (ss, p) =>
      match strtol ar p with
      | none => none
      | some (ff, e) =>
        if mm < 0 ∨ ss < 0 ∨ 59 < ss ∨ ff < 0 ∨ 74 < ff then none
        else some (ar.long (ar.long (ar.long (ar.long (mm * 60) + ss) * 75) + ff), e)

/-- Bytes as they are written, or frames of `SECTOR_BYTES`. -/
def parse_file_start (ar : Arith) (p : CText) : Option (Int × CText) :=
  match strtol ar (skipws p) with
  | none => none
  | some (n, e) =>
    if n < 0 then none
    else if e.head? ≠ some COLON then some (n, e)
    else
      match parse_msf ar p with
      | none => none
      | some (frames, e) => if frames < 0 then none else some (ar.long (frames * SECTOR), e)

/-- A quoted string of at most `cap - 1` characters, and what follows it. -/
def parse_qstr (p : CText) (cap : Nat) : Option (CText × CText) :=
  match skipws p with
  | [] => none
  | c :: p =>
    if c ≠ QUOTE then none
    else
      let s := p.takeWhile fun c => c ≠ QUOTE && c ≠ NL
      match p.drop s.length with
      | [] => none
      | c :: e => if c = QUOTE then some (s.take (cap - 1), e) else none

/-! ## The lines -/

/-- The model so far: the tracks behind the current one, and it. -/
structure TocText where
  mcn : List (BitVec 8) := []
  before : List ScannedTrack := []
  cur : Option ScannedTrack := none

def TocText.tracks (st : TocText) : List ScannedTrack := st.before ++ st.cur.toList

def catalog (st : TocText) (ls : CText) : TocText :=
  match parse_qstr (ls.drop 7) 32 with
  | none => st
  | some (m, _) =>
    let mcn := (m.filter is_digit).take 13
    { st with mcn := if mcn.length = 13 then mcn else [] }

def track_isrc (t : ScannedTrack) (ls : CText) : ScannedTrack :=
  match parse_qstr (ls.drop 4) 32 with
  | none => t
  | some (s, _) => if s.length = 12 then { t with track := { t.track with isrc := s } } else t

def track_no (t : ScannedTrack) (ls : CText) : ScannedTrack :=
  if strstr ls kw_PRE_EMPHASIS then { t with track := { t.track with preemphasis := false } }
  else if strstr ls kw_COPY then { t with track := { t.track with copy := false } }
  else t

/-- The start and the length of a FILE line, in bytes and in frames. -/
def file_fields (ar : Arith) (ls : CText) : Option (Int × Int) :=
  match parse_qstr (ls.drop (if ls.head? = some 0x41 then 9 else 4)) 1 with
  | none => none
  | some (_, q) =>
    match parse_file_start ar q with
    | none => none
    | some (fstart, q) =>
      if fstart < 0 then none
      else
        match parse_msf ar q with
        | none => none
        | some (flen, _) => if flen < 0 then none else some (fstart, flen)

def track_file (ar : Arith) (t : ScannedTrack) (ls : CText) : Except Int ScannedTrack :=
  match file_fields ar ls with
  | none => .error ACCUDISC_ERR_INVAL
  | some (fstart, flen) =>
    .ok ⟨{ t.track with file_offset := ar.uint64 fstart, sectors := ar.uint32 flen }, true⟩

/-- The pregap of a START line: none where the line gives no MM:SS:FF. -/
def start_pregap (ar : Arith) (ls : CText) : Nat :=
  match parse_msf ar (ls.drop 5) with
  | none => 0
  | some (g, _) => if 0 < g then ar.uint32 g else 0

/-- A line of the current track. -/
def track_line (ar : Arith) (t : ScannedTrack) (ls : CText) : Except Int ScannedTrack :=
  if kw ls kw_ISRC then .ok (track_isrc t ls)
  else if kw ls kw_NO then .ok (track_no t ls)
  else if kw ls kw_PRE_EMPHASIS then .ok { t with track := { t.track with preemphasis := true } }
  else if kw ls kw_COPY then .ok { t with track := { t.track with copy := true } }
  else if kw ls kw_FILE || kw ls kw_AUDIOFILE then track_file ar t ls
  else if kw ls kw_START then .ok { t with track := { t.track with pregap := start_pregap ar ls } }
  else .ok t

/-- A track as its TRACK line begins it. -/
def new_track (ls : CText) : ScannedTrack :=
  ⟨{ audio := strstr ls kw_AUDIO && (line_of ls).length < 64
     preemphasis := false, copy := false, isrc := [], index1_lba := 0, pregap := 0, sectors :=
       0, file_offset := 0 },
   false⟩

/-- The line at `p`. A string does not span lines, so its quotes are even. -/
def cue_line (ar : Arith) (st : TocText) (p : CText) : Except Int TocText :=
  let ls := skipws p
  if (line_of ls).count QUOTE % 2 = 1 then .error ACCUDISC_ERR_INVAL
  else if kw ls kw_CATALOG then .ok (catalog st ls)
  else if kw ls kw_TRACK then
    if 99 ≤ st.tracks.length then .error ACCUDISC_ERR_INVAL
    else .ok { st with before := st.tracks, cur := some (new_track ls) }
  else
    match st.cur with
    | none => .ok st
    | some t => (track_line ar t ls).map fun t => { st with cur := some t }

/-- Where the lines of the text begin; `start` says whether one begins here. -/
def line_starts : Bool → CText → List CText
  | _, [] => []
  | start, c :: p => (if start then [c :: p] else []) ++ line_starts (c = NL) p

/-- The first pass: line by line. -/
def toc_scan (ar : Arith) (text : CText) : Except Int TocText :=
  (line_starts true text).foldlM (cue_line ar) {}

def adsc_toc_parse_cue (text : CText) : Except Int WriteToc :=
  match toc_scan machine text with
  | .error rc => .error rc
  | .ok st =>
    if st.tracks = [] then .error ACCUDISC_ERR_INVAL
    else (toc_layout 0 st.tracks).map fun r => ⟨st.mcn, r.2, r.1, none⟩

end Accudisc
