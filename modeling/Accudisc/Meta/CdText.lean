import Accudisc.Meta.CdTextBlob

/-!
# CD-Text decode (`cdtext.c`)

A string of the text is the bytes before its NUL. An assembler carries the strings of its type, which it
alone writes.
-/

namespace Accudisc

def ACCUDISC_TEXT_MAX : Nat := 160
def TAB : BitVec 8 := 0x09

inductive TextType where
  | title | performer | songwriter | code
deriving DecidableEq

/-- The type by its byte in a pack. -/
def text_type (b : BitVec 8) : Option TextType :=
  if b = 0x80 then some .title
  else if b = 0x81 then some .performer
  else if b = 0x82 then some .songwriter
  else if b = 0x8e then some .code
  else none

/-- `assembler`, with the strings of its type: that of the album at 0, then those of the tracks. -/
structure Assembler where
  text : Nat → List (BitVec 8) := fun _ => []
  track : Int := -1
  buf : List (BitVec 8) := []

/-- The field of a track. -/
def field_for (track : Int) : Option Nat := if track < 0 ∨ 99 < track then none else some track.toNat

/-- What goes into the field when the string is complete; a TAB alone stands for that of the
track before. -/
def Assembler.commit (a : Assembler) : List (BitVec 8) :=
  if a.buf = [TAB] ∧ 1 ≤ a.track then
    match field_for (a.track - 1) with
    | some prev => a.text prev
    | none => []
  else a.buf

def put_char (a : Assembler) (c : BitVec 8) : Assembler :=
  if c ≠ 0 then { a with buf := if a.buf.length < ACCUDISC_TEXT_MAX - 1 then a.buf ++ [c] else a.buf }
  else
    { text :=
        match field_for a.track with
        | some t => Function.update a.text t a.commit
        | none => a.text
      track := a.track + 1
      buf := [] }

/-- The type of a pack that is decoded. -/
def pack_type (p : Mem) : Option TextType :=
  if adsc_crc16 p 16 ≠ ~~~(stored_crc p) then none
  else if p 1 &&& 0x80 ≠ 0 then none
  else if p 3 &&& 0x80 ≠ 0 then none
  else if (p 3 >>> 4) &&& 0x07 ≠ 0 then none
  else text_type (p 0)

structure TextDecoder where
  asm : TextType → Assembler := fun _ => {}
  used : Nat := 0

/-- One turn over the packs. -/
def decode_pack (raw : Mem) (d : TextDecoder) (i : Nat) : TextDecoder :=
  let p := ptr raw (4 + i * ADSC_CDTEXT_PACK_BYTES)
  match pack_type p with
  | none => d
  | some ty =>
    let a := { d.asm ty with track := (p 1 &&& 0x7f).toNat }
    { asm := Function.update d.asm ty ((List.range 12).foldl (fun a i => put_char a (p (4 + i))) a)
      used := d.used + 1 }

/-- `accudisc_cdtext`, type by type and track by track. -/
abbrev CdText := TextType → Nat → List (BitVec 8)

/-- The text of a blob of `len` bytes, below the 2 ^ 32 - 18 at which the offset would wrap. -/
def accudisc_cdtext_decode (raw : Mem) (len : Nat) (alloc : Bool) : Except Int CdText :=
  if len < 4 + ADSC_CDTEXT_PACK_BYTES then .error ACCUDISC_ERR_SHORT
  else if alloc = false then .error ACCUDISC_ERR_NOMEM
  else
    let d := (List.range ((len - 4) / ADSC_CDTEXT_PACK_BYTES)).foldl (decode_pack raw) {}
    if d.used = 0 then .error ACCUDISC_ERR_SHORT else .ok fun ty => (d.asm ty).text

end Accudisc
