import Accudisc.Err
import Accudisc.Lib.Buf
import Accudisc.Read.Sector
import Mathlib.Data.BitVec

/-!
# The C2 lag verdict (`c2lag.c`)

The correlation core of the probe: a sector read twice is scored at each of 17 candidate shifts,
and the verdict is taken from the counters. Shift `idx` stands for a lag of `idx -
ADSC_C2LAG_MAX_SHIFT` sample pairs.
-/

namespace Accudisc

abbrev ADSC_C2LAG_MAX_SHIFT : Nat := 8
abbrev ADSC_C2LAG_NSHIFT : Nat := 2 * ADSC_C2LAG_MAX_SHIFT + 1

def ADSC_C2LAG_MIN_FLAGS : BitVec 64 := 64
def ADSC_C2LAG_MIN_DIFFS : BitVec 64 := 64
def ADSC_C2LAG_MIN_TP : BitVec 64 := 32
def ADSC_C2LAG_MIN_PEAK_MILLI : BitVec 32 := 100
def ADSC_C2LAG_MIN_CONTRAST : BitVec 32 := 3

/-- `struct adsc_c2lag_acc`. -/
structure C2LagAcc where
  tp : Buf (BitVec 64) ADSC_C2LAG_NSHIFT := Buf.zeros _ _
  flags : Buf (BitVec 64) ADSC_C2LAG_NSHIFT := Buf.zeros _ _
  diff_bytes : BitVec 64 := 0
deriving DecidableEq

/-- One read of a sector with its C2 bitmap. -/
structure C2Read where
  audio : Buf (BitVec 8) ACCUDISC_BYTES_AUDIO
  c2 : Buf (BitVec 8) ACCUDISC_BYTES_C2
deriving DecidableEq

/-- `accudisc_c2_lag`. -/
structure C2LagOut where
  lag_pairs : Int := 0
  sectors_active : BitVec 32 := 0
  flags_used : BitVec 32 := 0
  diff_bytes : BitVec 32 := 0
  peak_milli : BitVec 16 := 0
  runner_milli : BitVec 16 := 0
deriving DecidableEq

/-! ## Accumulation -/

/-- `diff[i]`. -/
def c2lag_diff (a b : C2Read) (i : Nat) : BitVec 64 :=
  if Buf.get a.audio i ≠ Buf.get b.audio i then 1 else 0

/-- Whether the bitmap flags audio byte `f`, most significant bit first. -/
def c2_fired (c2 : Buf (BitVec 8) ACCUDISC_BYTES_C2) (f : Nat) : Bool :=
  (Buf.get c2 (f >>> 3) >>> (7 - (f &&& 7))) &&& 1 ≠ 0

/-- The audio byte that flag `f` describes at shift `idx`. -/
def c2lag_target (f idx : Nat) : Int := (f : Int) - 4 * ((idx : Int) - ADSC_C2LAG_MAX_SHIFT)

/-- Score a fired flag at one shift; a target outside the sector counts for nothing. -/
def c2lag_add_shift (diff : Nat → BitVec 64) (f : Nat) (acc : C2LagAcc) (idx : Nat) : C2LagAcc :=
  let t := c2lag_target f idx
  if t < 0 ∨ t ≥ ( ACCUDISC_BYTES_AUDIO : Int) then acc
  else
    { acc with
      flags := Buf.set acc.flags idx (Buf.get acc.flags idx + 1)
      tp := Buf.set acc.tp idx (Buf.get acc.tp idx + diff t.toNat) }

def c2lag_add_flag (diff : Nat → BitVec 64) (c2 : Buf (BitVec 8) ACCUDISC_BYTES_C2) (acc : C2LagAcc)
    (f : Nat) : C2LagAcc :=
  if c2_fired c2 f then (List.range ADSC_C2LAG_NSHIFT).foldl (c2lag_add_shift diff f) acc else acc

def c2lag_add_read (diff : Nat → BitVec 64) (acc : C2LagAcc)
    (c2 : Buf (BitVec 8) ACCUDISC_BYTES_C2) : C2LagAcc :=
  (List.range ACCUDISC_BYTES_AUDIO).foldl (c2lag_add_flag diff c2) acc

def adsc_c2lag_add (acc : C2LagAcc) (a b : C2Read) : C2LagAcc :=
  let diff := c2lag_diff a b
  let acc := { acc with
    diff_bytes := (List.range ACCUDISC_BYTES_AUDIO).foldl (fun n i => n + diff i) acc.diff_bytes }
  [a.c2, b.c2].foldl (c2lag_add_read diff) acc

/-- The pairs of `ps` fed in order to an empty accumulator. -/
def c2lag_run (ps : List (C2Read × C2Read)) : C2LagAcc :=
  ps.foldl (fun acc p => adsc_c2lag_add acc p.1 p.2) {}

/-! ## The verdict -/

/-- `prec[i]`. -/
def c2lag_prec (acc : C2LagAcc) (i : Nat) : BitVec 32 :=
  if Buf.get acc.flags i ≠ 0 then
    (Buf.get acc.tp i * 1000 / Buf.get acc.flags i).setWidth 32
  else 0

def c2lag_best (acc : C2LagAcc) : Nat :=
  (List.range ADSC_C2LAG_NSHIFT).foldl
    (fun best i => if c2lag_prec acc i > c2lag_prec acc best then i else best) 0

def c2lag_runner (acc : C2LagAcc) (best : Nat) : BitVec 32 :=
  (List.range ADSC_C2LAG_NSHIFT).foldl
    (fun runner i => if i ≠ best ∧ c2lag_prec acc i > runner then c2lag_prec acc i else runner) 0

/-- The verdict and what it writes to `out`. -/
def adsc_c2lag_result (acc : C2LagAcc) (out : C2LagOut) : Int × C2LagOut :=
  let best := c2lag_best acc
  let runner := c2lag_runner acc best
  let out := { out with
    lag_pairs := (best : Int) - ADSC_C2LAG_MAX_SHIFT
    flags_used := (Buf.get acc.flags best).setWidth 32
    diff_bytes := if acc.diff_bytes > 0xffffffff then 0xffffffff else acc.diff_bytes.setWidth 32
    peak_milli := (c2lag_prec acc best).setWidth 16
    runner_milli := runner.setWidth 16 }
  if Buf.get acc.flags best < ADSC_C2LAG_MIN_FLAGS ∨ Buf.get acc.tp best < ADSC_C2LAG_MIN_TP ∨
      acc.diff_bytes < ADSC_C2LAG_MIN_DIFFS ∨ c2lag_prec acc best < ADSC_C2LAG_MIN_PEAK_MILLI ∨
      c2lag_prec acc best < ADSC_C2LAG_MIN_CONTRAST * runner then (ACCUDISC_ERR_NOTFOUND, out)
  else (ACCUDISC_OK, out)

end Accudisc
