import Accudisc.Cdda.SubQ

/-!
# Sectors of the read engine (`engine.c`)

The pure functions of one sector: the map bytes, the Q health of a frame, and the comparisons of two
audio payloads. A pointer is the memory from it on.
-/

namespace Accudisc

abbrev ACCUDISC_BYTES_AUDIO : Nat := 2352
abbrev ACCUDISC_BYTES_C2 : Nat := 294
abbrev ACCUDISC_BYTES_C2_BEB : Nat := 296
abbrev ACCUDISC_BYTES_SUB_RAW : Nat := 96
abbrev ACCUDISC_BYTES_SUB_Q : Nat := 16

def ACCUDISC_MAP_OK : BitVec 8 := 1
def ACCUDISC_MAP_C2 : BitVec 8 := 2
def ACCUDISC_MAP_HARD : BitVec 8 := 3
def ACCUDISC_MAP_RECOVERED : BitVec 8 := 4
def ACCUDISC_MAP_SUSPECT : BitVec 8 := 5

/-- `ACCUDISC_MAP_STATE`. -/
def map_state (b : BitVec 8) : BitVec 8 := b &&& 0x0f

def ACCUDISC_SUBQ_OK : BitVec 8 := 1
def ACCUDISC_SUBQ_BAD : BitVec 8 := 2
def ACCUDISC_SUBQ_NO_POSITION : BitVec 8 := 3
def ACCUDISC_SUBQ_NO_AUDIO : BitVec 8 := 4
def ACCUDISC_SUBQ_MISPOSITION : BitVec 8 := 5

/-- `uint32_t` arithmetic. -/
def u32 (n : Nat) : Nat := n % 2 ^ 32

/-- `a - b` in `uint32_t`. -/
def sub32 (a b : Nat) : Nat := (a + (2 ^ 32 - b % 2 ^ 32)) % 2 ^ 32

/-- `(int32_t)n`. -/
def int32 (n : Nat) : Int := (BitVec.ofNat 32 n).toInt

/-- The pointer `m + a`. -/
def ptr (m : Mem) (a : Nat) : Mem := fun i => m (a + i)

/-! ## Map bytes -/

/-- The loop of `sev_log2`: the bits of `v`, at most `fuel` of them. -/
def sev_loop : Nat → Nat → Nat
  | 0, _ => 0
  | fuel + 1, v => if v = 0 then 0 else sev_loop fuel (v >>> 1) + 1

def sev_log2 (v : Nat) : BitVec 8 :=
  let sev := sev_loop 32 v
  BitVec.ofNat 8 (if sev > 15 then 15 else sev)

def adsc_map_c2_byte (c2_bits : Nat) : BitVec 8 := ACCUDISC_MAP_C2 ||| (sev_log2 c2_bits <<< 4)

def adsc_map_recovered_byte (attempts : Nat) : BitVec 8 :=
  ACCUDISC_MAP_RECOVERED ||| (BitVec.ofNat 8 (if attempts > 15 then 15 else attempts) <<< 4)

def adsc_map_suspect_byte (diff_bytes : Nat) : BitVec 8 :=
  ACCUDISC_MAP_SUSPECT ||| (sev_log2 diff_bytes <<< 4)

/-! ## The Q frame -/

def adsc_q_position_lba (q : AccuQ) : Int := accudisc_msf_to_lba q.abs_m q.abs_s q.abs_f

def adsc_subq_byte (q : AccuQ) (expect_lba : Nat) : BitVec 8 :=
  if !q.crc_ok then ACCUDISC_SUBQ_BAD
  else if q.adr ≠ ACCUDISC_Q_POSITION then ACCUDISC_SUBQ_NO_POSITION
  else if adsc_q_position_lba q ≠ int32 expect_lba then ACCUDISC_SUBQ_MISPOSITION
  else ACCUDISC_SUBQ_OK

/-- The frame in the raw subcode at a pointer. -/
def sub_q (sub : Mem) : AccuQ := (accudisc_q_parse (accudisc_sub_extract_q sub)).1

/-! ## Two audio payloads -/

/-- `memcmp(a, b, n) == 0`. -/
def memeq (a b : Mem) (n : Nat) : Bool := (List.range n).all fun i => a i == b i

def adsc_audio_diff (a b : Mem) : Nat :=
  if memeq a b ACCUDISC_BYTES_AUDIO then 0
  else (List.range ACCUDISC_BYTES_AUDIO).countP fun i => a i != b i

abbrev ADSC_SHIFT_MAX : Nat := 588
abbrev ADSC_ANCHOR_BYTES : Nat := 64

/-- Is `b` the copy `a` read `d` samples on: the anchor, then the whole overlap. -/
def shift_at (a b : Mem) (d : Int) : Bool :=
  let center : Int := ACCUDISC_BYTES_AUDIO / 2
  let off := center + d * 4
  if d = 0 ∨ off < 0 ∨ off + ADSC_ANCHOR_BYTES > ( ACCUDISC_BYTES_AUDIO : Int) then false
  else if !memeq (ptr a center.toNat) (ptr b off.toNat) ADSC_ANCHOR_BYTES then false
  else
    let bd := d * 4
    memeq (ptr a (-bd).toNat) (ptr b bd.toNat) ( ACCUDISC_BYTES_AUDIO - bd.natAbs)

/-- The shift in samples, if there is one. -/
def adsc_shift_find (a b : Mem) : Option Int :=
  let anchor := ptr a ( ACCUDISC_BYTES_AUDIO / 2)
  if !(List.range ADSC_ANCHOR_BYTES).any fun i => anchor i != anchor 0 then none
  else ((List.range (2 * ADSC_SHIFT_MAX + 1)).map fun k : Nat => (k : Int) - ADSC_SHIFT_MAX).find?
    (shift_at a b)

/-- Not constant, and not itself shifted. -/
def alignment_signal (a : Mem) : Bool :=
  if (List.range ACCUDISC_BYTES_AUDIO).all fun i => a i == a 0 then false
  else (adsc_shift_find a a).isNone

def popcount (b : BitVec 8) : Nat := (List.range 8).countP fun i => b.getLsbD i

def popcount_buf (p : Mem) (n : Nat) : Nat := (List.range n).foldl (fun bits i => bits + popcount (p i)) 0

end Accudisc
