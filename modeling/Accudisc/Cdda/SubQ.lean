import Accudisc.Err
import Accudisc.Mem

/-!
# The Q subchannel (`subq.c`, `crc16.c`)

Extraction of a Q frame from the raw subcode and its decoding. A frame and a text are bytes by index.
-/

namespace Accudisc

def ACCUDISC_Q_POSITION : BitVec 8 := 1
def ACCUDISC_Q_MCN : BitVec 8 := 2
def ACCUDISC_Q_ISRC : BitVec 8 := 3

/-- `accudisc_q`. -/
structure AccuQ where
  adr : BitVec 8
  control : BitVec 8
  crc_ok : Bool
  tno : BitVec 8 := 0
  index : BitVec 8 := 0
  rel_m : BitVec 8 := 0
  rel_s : BitVec 8 := 0
  rel_f : BitVec 8 := 0
  abs_m : BitVec 8 := 0
  abs_s : BitVec 8 := 0
  abs_f : BitVec 8 := 0
  mcn : List (BitVec 8) := []
  isrc : List (BitVec 8) := []

def accudisc_msf_to_lba (m s f : BitVec 8) : Int := (m.toNat * 60 + s.toNat : Int) * 75 + f.toNat - 150

def crc16_bit (crc : BitVec 16) : BitVec 16 :=
  if crc &&& 0x8000#16 ≠ 0#16 then (crc <<< 1) ^^^ 0x1021#16 else crc <<< 1

def crc16_byte (crc : BitVec 16) (b : BitVec 8) : BitVec 16 :=
  (List.range 8).foldl (fun crc _ => crc16_bit crc) (crc ^^^ (b.setWidth 16 <<< 8))

def adsc_crc16 (data : Mem) (len : Nat) : BitVec 16 :=
  (List.range len).foldl (fun crc i => crc16_byte crc (data i)) 0

/-- Bit 6 of each of the 96 bytes, most significant first. -/
def accudisc_sub_extract_q (raw : Mem) : Mem :=
  (List.range 96).foldl
    (fun q i => Function.update q (i >>> 3) ((q (i >>> 3) <<< 1) ||| ((raw i >>> 6) &&& 1))) (fun _ => 0)

def bcd (v : BitVec 8) : BitVec 8 := (v >>> 4) * 10 + (v &&& 0x0f)

def isrc_char (v : BitVec 8) : BitVec 8 := v + 0x30

/-- The nibble `i` from byte `b` on, as a digit. -/
def q_digit (q : Mem) (b i : Nat) : BitVec 8 :=
  0x30 + if i % 2 = 1 then q (b + i / 2) &&& 0x0f else q (b + i / 2) >>> 4

def accudisc_q_parse (q : Mem) : AccuQ × Int :=
  let out : AccuQ :=
    { control := q 0 >>> 4
      adr := q 0 &&& 0x0f
      crc_ok := adsc_crc16 q 10 = ~~~((q 10).setWidth 16 <<< 8 ||| (q 11).setWidth 16) }
  if !out.crc_ok then (out, ACCUDISC_ERR_CRC)
  else if out.adr = ACCUDISC_Q_POSITION then
    ({ out with
      tno := bcd (q 1), index := bcd (q 2)
      rel_m := bcd (q 3), rel_s := bcd (q 4), rel_f := bcd (q 5)
      abs_m := bcd (q 7), abs_s := bcd (q 8), abs_f := bcd (q 9) }, ACCUDISC_OK)
  else if out.adr = ACCUDISC_Q_MCN then
    ({ out with mcn := (List.range 13).map (q_digit q 1) }, ACCUDISC_OK)
  else if out.adr = ACCUDISC_Q_ISRC then
    ({ out with
      isrc :=
        [isrc_char (q 1 >>> 2), isrc_char ((q 1 &&& 0x03) <<< 4 ||| q 2 >>> 4),
          isrc_char ((q 2 &&& 0x0f) <<< 2 ||| q 3 >>> 6), isrc_char (q 3 &&& 0x3f),
          isrc_char (q 4 >>> 2)] ++ (List.range 7).map (q_digit q 5) }, ACCUDISC_OK)
  else (out, ACCUDISC_OK)

end Accudisc
