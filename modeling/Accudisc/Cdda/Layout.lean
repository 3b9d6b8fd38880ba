import Accudisc.Read.Sector

/-!
# The record order of a combined read (`layout.c`)

Which of the two fields behind the audio, C2 or subchannel, a drive delivers first, and whether the
records sit at the stride that was asked for: a vote of the Q frames whose CRC verifies.
-/

namespace Accudisc

abbrev ADSC_LAYOUT_UNKNOWN : Nat := 0
abbrev ADSC_LAYOUT_MMC : Nat := 1
abbrev ADSC_LAYOUT_SUB_FIRST : Nat := 2

abbrev MISFRAME_SPAN : Nat := 16
abbrev MISFRAME_MIN_SECTORS : Nat := 4

def q_valid (sub : Mem) (sub_len : Nat) : Bool :=
  (accudisc_q_parse (if sub_len = ACCUDISC_BYTES_SUB_RAW then accudisc_sub_extract_q sub else sub)).1.crc_ok

def sub_len_ok (sub_len : Nat) : Bool :=
  sub_len = ACCUDISC_BYTES_SUB_RAW ∨ sub_len = ACCUDISC_BYTES_SUB_Q

/-- The loop of `adsc_layout_q_hits` from record `s` on, `n` records to go. -/
def q_hits_loop (buf : Mem) (buf_len stride sub_off sub_len s : Nat) : Nat → Nat → Nat
  | 0, hits => hits
  | n + 1, hits =>
    if s * stride + sub_off + sub_len > buf_len then hits
    else q_hits_loop buf buf_len stride sub_off sub_len (s + 1) n
      (u32 (hits + (q_valid (ptr buf (s * stride + sub_off)) sub_len).toNat))

def adsc_layout_q_hits (buf : Mem) (buf_len nsec stride sub_off sub_len : Nat) : Nat :=
  if !sub_len_ok sub_len then 0 else q_hits_loop buf buf_len stride sub_off sub_len 0 nsec 0

/-- One position wins when it has hits and the other at most a third as many. -/
def winner (mmc sub : Nat) : Nat :=
  if mmc > 0 ∧ u32 (sub * 3) ≤ mmc then ADSC_LAYOUT_MMC
  else if sub > 0 ∧ u32 (mmc * 3) ≤ sub then ADSC_LAYOUT_SUB_FIRST
  else ADSC_LAYOUT_UNKNOWN

/-- `adsc_layout_verdict`. -/
structure LayoutVerdict where
  layout : Nat := 0
  hits_mmc : Nat := 0
  hits_sub : Nat := 0
  misframed : Nat := 0

/-- Do the records after the first explain a stride and an order. -/
def misframed_at (buf : Mem) (nsec sector_len c2_len sub_len stride order : Nat) : Bool :=
  let off := if order ≠ 0 then ACCUDISC_BYTES_AUDIO else ACCUDISC_BYTES_AUDIO + c2_len
  let h := sub32 (adsc_layout_q_hits buf (u32 (nsec * sector_len)) nsec stride off sub_len)
    (q_valid (ptr buf off) sub_len).toNat
  u32 (h * 2) ≥ nsec - 1 ∧ h ≥ 2

/-- The first stride of the search that is explained. -/
def misframe_search (buf : Mem) (nsec sector_len c2_len sub_len : Nat) : Option Nat :=
  ((List.range MISFRAME_SPAN).map (sector_len + 1 + ·)).find? fun stride =>
    (List.range 2).any (misframed_at buf nsec sector_len c2_len sub_len stride)

def adsc_layout_inspect (buf : Mem) (nsec sector_len c2_len : Nat) : LayoutVerdict :=
  if sector_len < ACCUDISC_BYTES_AUDIO + c2_len then {}
  else
    let sub_len := sector_len - ACCUDISC_BYTES_AUDIO - c2_len
    if !sub_len_ok sub_len then {}
    else
      let len := u32 (nsec * sector_len)
      let hits_mmc := adsc_layout_q_hits buf len nsec sector_len ( ACCUDISC_BYTES_AUDIO + c2_len) sub_len
      let hits_sub := adsc_layout_q_hits buf len nsec sector_len ACCUDISC_BYTES_AUDIO sub_len
      let v : LayoutVerdict := { layout := winner hits_mmc hits_sub, hits_mmc, hits_sub }
      let best := if hits_mmc > hits_sub then hits_mmc else hits_sub
      if nsec < MISFRAME_MIN_SECTORS ∨ u32 (best * 2) ≥ nsec then v
      else
        match misframe_search buf nsec sector_len c2_len sub_len with
        | some stride => { v with misframed := stride, layout := ADSC_LAYOUT_UNKNOWN }
        | none => v

/-- One record: the subchannel is kept aside, C2 moved up to the audio. -/
def record_to_mmc (sector_len c2_len sub_len : Nat) (buf : Mem) (s : Nat) : Mem :=
  let rec' := s * sector_len + ACCUDISC_BYTES_AUDIO
  memcpy (memcpy buf rec' buf (rec' + sub_len) c2_len) (rec' + c2_len) buf rec' sub_len

def adsc_layout_to_mmc (buf : Mem) (nsec sector_len c2_len : Nat) : Mem :=
  if sector_len < ACCUDISC_BYTES_AUDIO + c2_len then buf
  else
    let sub_len := sector_len - ACCUDISC_BYTES_AUDIO - c2_len
    if !sub_len_ok sub_len then buf
    else (List.range nsec).foldl (record_to_mmc sector_len c2_len sub_len) buf

end Accudisc
