import Accudisc.Drive.Offsets

/-!
# The write offset (`write_offset.c`)

The signal that is burnt, and where it is found again in what is read back. PCM is pairs of `int16_t`;
indices are `int64_t`, within which they stay.
-/

namespace Accudisc

def ACCUDISC_WOFF_SAMPLES : Nat := 3307500
def ACCUDISC_WOFF_PULSE_A : Nat := 44100
def ACCUDISC_WOFF_PULSE_B : Nat := 2646000
def ACCUDISC_WOFF_PULSE_LEN : Nat := 588
def ACCUDISC_WOFF_SEARCH : Nat := 8820
def ACCUDISC_WOFF_F_INCONSISTENT : BitVec 8 := 0x01

def WOFF_THRESHOLD : Int := 500
def WOFF_RUN_LEN : Nat := 16
def WOFF_RUN_MIN : Nat := 8

/-- Left and right. -/
abbrev PcmPair := BitVec 16 × BitVec 16

/-! ## The signal -/

def woff_rand (x : BitVec 32) : BitVec 32 :=
  let x := x ^^^ (x <<< 13)
  let x := x ^^^ (x >>> 17)
  x ^^^ (x <<< 5)

/-- The generator after `k` draws. -/
def woff_state : Nat → BitVec 32
  | 0 => 0x9E3779B9
  | k + 1 => woff_rand (woff_state k)

/-- `(int16_t)(woff_rand(&st) >> 17) - 16384`. -/
def woff_draw (k : Nat) : BitVec 16 := (woff_state k >>> 17).setWidth 16 - 16384

/-- The burst, its leading edge forced to full scale. -/
def woff_burst (i : Nat) : PcmPair := if i = 0 then (32767, -32768)
    else (woff_draw (2 * i + 1), woff_draw (2 * i + 2))

/-- Silence with the two bursts. -/
def woff_signal (i : Nat) : PcmPair :=
  if ACCUDISC_WOFF_PULSE_B ≤ i ∧ i < ACCUDISC_WOFF_PULSE_B + ACCUDISC_WOFF_PULSE_LEN then
    woff_burst (i - ACCUDISC_WOFF_PULSE_B)
  else if ACCUDISC_WOFF_PULSE_A ≤ i ∧ i < ACCUDISC_WOFF_PULSE_A + ACCUDISC_WOFF_PULSE_LEN then
    woff_burst (i - ACCUDISC_WOFF_PULSE_A)
  else (0, 0)

/-- `pcm` says whether there is a buffer; the value is what it holds. -/
def accudisc_write_offset_signal (pcm : Bool) (samples : Nat) : Except Int (Nat → PcmPair) :=
  if !pcm then .error ACCUDISC_ERR_INVAL
  else if samples ≠ ACCUDISC_WOFF_SAMPLES then .error ACCUDISC_ERR_INVAL
  else .ok woff_signal

/-! ## The locator -/

def woff_loud (p : PcmPair) : Bool :=
  let al := if p.1.toInt < 0 then -p.1.toInt else p.1.toInt
  let ar := if p.2.toInt < 0 then -p.2.toInt else p.2.toInt
  WOFF_THRESHOLD < al ∨ WOFF_THRESHOLD < ar

/-- The loud pairs of the run at `raw`, which ends with the buffer. -/
def woff_hits (pcm : Nat → PcmPair) (samples raw : Nat) : Nat :=
  let stop := if samples < raw + WOFF_RUN_LEN then samples else raw + WOFF_RUN_LEN
  (List.range (stop - raw)).countP fun j => woff_loud (pcm (raw + j))

/-- Corrected index `i` starts a run. -/
def woff_starts (pcm : Nat → PcmPair) (samples : Nat) (read_offset i : Int) : Bool :=
  let raw := i + read_offset
  if raw < 0 ∨ (samples : Int) ≤ raw then false
  else if !woff_loud (pcm raw.toNat) then false
  else WOFF_RUN_MIN ≤ woff_hits pcm samples raw.toNat

/-- The first index of `[lo, hi)` that starts a run, or -1. -/
def woff_find (pcm : Nat → PcmPair) (samples : Nat) (read_offset lo hi : Int) : Int :=
  match (List.range (hi - lo).toNat).find? fun k : Nat => woff_starts pcm samples read_offset (lo + k) with
  | some k => lo + k
  | none => -1

/-- `accudisc_write_offset_info` after its size. -/
structure WriteOffsetInfo where
  write_offset : Int := ACCUDISC_OFFSET_NONE
  offset_a : Int := 0
  offset_b : Int := 0
  found_a : Int := ACCUDISC_OFFSET_NONE
  found_b : Int := ACCUDISC_OFFSET_NONE
  flags : BitVec 8 := 0
deriving DecidableEq

def sizeof_write_offset_info : Nat := 28

section
variable (pcm : Nat → PcmPair) (samples : Nat) (read_offset : Int)

/-- Where the burst of the pulse at `pos` is found. -/
def woff_pulse (pos : Nat) : Int :=
  let lo := (pos : Int) - ACCUDISC_WOFF_SEARCH
  woff_find pcm samples read_offset (if lo < 0 then 0 else lo) (pos + ACCUDISC_WOFF_SEARCH)

def woff_distance (pos : Nat) : Int :=
  if woff_pulse pcm samples read_offset pos < 0 then 0 else woff_pulse pcm samples read_offset pos - pos

/-- `args` says whether both pointers are there. -/
def accudisc_write_offset_locate (args : Bool) (size : Nat) : Int × WriteOffsetInfo :=
  if !args then (ACCUDISC_ERR_INVAL, {})
  else if size = 0 ∨ sizeof_write_offset_info < size then (ACCUDISC_ERR_ABI, {})
  else if samples < ACCUDISC_WOFF_SAMPLES then (ACCUDISC_ERR_INVAL, {})
  else
    let a := woff_pulse pcm samples read_offset ACCUDISC_WOFF_PULSE_A
    let b := woff_pulse pcm samples read_offset ACCUDISC_WOFF_PULSE_B
    let out : WriteOffsetInfo :=
      { offset_a := woff_distance pcm samples read_offset ACCUDISC_WOFF_PULSE_A
        offset_b := woff_distance pcm samples read_offset ACCUDISC_WOFF_PULSE_B
        found_a := if a < 0 then ACCUDISC_OFFSET_NONE else a
        found_b := if b < 0 then ACCUDISC_OFFSET_NONE else b }
    if a < 0 ∨ b < 0 then (ACCUDISC_ERR_NOTFOUND, out)
    else if out.offset_a ≠ out.offset_b then
      (ACCUDISC_ERR_AMBIGUOUS, { out with flags := ACCUDISC_WOFF_F_INCONSISTENT })
    else (ACCUDISC_OK, { out with write_offset := out.offset_a })

end

/-! ## The stores into `*out` -/

/-- The fields of `accudisc_write_offset_info`. -/
def WOFF_write_offset : StructWrite := ⟨4, 4⟩
def WOFF_offset_a : StructWrite := ⟨8, 4⟩
def WOFF_offset_b : StructWrite := ⟨12, 4⟩
def WOFF_found_a : StructWrite := ⟨16, 4⟩
def WOFF_found_b : StructWrite := ⟨20, 4⟩
def WOFF_flags : StructWrite := ⟨24, 1⟩

/-- What a call with every argument there stores. -/
def locate_writes (pcm : Nat → PcmPair) (samples : Nat) (read_offset : Int) (size : Nat) :
    List StructWrite :=
  if size = 0 ∨ sizeof_write_offset_info < size then []
  else if samples < ACCUDISC_WOFF_SAMPLES then []
  else
    [clear_struct size, WOFF_write_offset, WOFF_found_b, WOFF_found_a, WOFF_found_a,
      WOFF_found_b, WOFF_offset_a,
      WOFF_offset_b] ++
      if woff_pulse pcm samples read_offset ACCUDISC_WOFF_PULSE_A < 0 ∨
          woff_pulse pcm samples read_offset ACCUDISC_WOFF_PULSE_B < 0 then []
      else if woff_distance pcm samples read_offset ACCUDISC_WOFF_PULSE_A ≠
          woff_distance pcm samples read_offset ACCUDISC_WOFF_PULSE_B then [WOFF_flags]
      else [WOFF_write_offset]

end Accudisc
