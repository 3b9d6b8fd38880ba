import Accudisc.Lib.Loop
import Accudisc.Read.Sector

/-!
# The admitted speeds (`speeds.c`)

The verdicts over a probed ladder of speeds, slowest setting first. The ladder is in the caller's order,
so the next rung is searched for each time, and a rung's own verdict marks it as done.
-/

namespace Accudisc

def SPEEDS_ADMIT_NOISE_CX : Nat := 50

/-- `ACCUDISC_RUNG_UNKNOWN` and the others. -/
inductive RungVerdict where
  | UNKNOWN
  | ADMITTED
  | DUPLICATE
  | QUANTIZED
deriving DecidableEq

/-- What `adsc_speeds_admit` uses of `accudisc_speed_rung`. -/
structure SpeedRung where
  requested_x : BitVec 16
  reported_x : BitVec 16 := 0
  measured_cx : BitVec 16 := 0
  min_cx : BitVec 16 := 0
  max_cx : BitVec 16 := 0
  verdict : RungVerdict := .UNKNOWN
  equiv_x : BitVec 16 := 0
deriving DecidableEq

section
variable (n points k : Nat)

def radius_step_cx (r : SpeedRung) : Nat :=
  if points < 2 ∨ n = 0 ∨ r.max_cx ≤ r.min_cx then 0
  else (r.max_cx.toNat - r.min_cx.toNat) / ((points - 1) * n)

/-- What a rung has to exceed `best` by. -/
def speeds_margin (r best : SpeedRung) : Nat :=
  let step := radius_step_cx n points r
  let other := radius_step_cx n points best
  let step := if step < other then other else step
  let margin := u32 (step * k)
  if margin < SPEEDS_ADMIT_NOISE_CX then SPEEDS_ADMIT_NOISE_CX else margin

/-- Settled in this pass. -/
def rung_settled (r : SpeedRung) : Bool := r.verdict ≠ .UNKNOWN ∨ r.equiv_x ≠ 0

/-- The verdict on the rung picked; `best` is the last one admitted. -/
def rung_settle (best : Option SpeedRung) (r : SpeedRung) : SpeedRung :=
  if r.measured_cx = 0 then { r with verdict := .UNKNOWN, equiv_x := 0xffff }
  else if r.reported_x ≠ 0 ∧ r.reported_x < r.requested_x then
    { r with verdict := .QUANTIZED, equiv_x := r.reported_x }
  else
    match best with
    | none => { r with verdict := .ADMITTED }
    | some b =>
      if b.measured_cx < r.measured_cx ∧ speeds_margin n points k r b < r.measured_cx.toNat -
        b.measured_cx.toNat then
        { r with verdict := .ADMITTED }
      else { r with verdict := .DUPLICATE, equiv_x := b.requested_x }

/-- The slowest rung that is not settled. -/
def next_slowest (rungs : Nat → SpeedRung) : Option Nat :=
  Loop.firstMin (fun i => !rung_settled (rungs i)) (fun i => (rungs i).requested_x.toNat) (List.range n)

/-- The walk, with the turns that `done` leaves. What `best` points to is kept as it was admitted: nothing
writes to it any more. -/
def speeds_walk : Nat → (Nat → SpeedRung) → Option SpeedRung → Nat → SpeedRung
  | 0, rungs, _ => rungs
  | left + 1, rungs, best =>
    match next_slowest n rungs with
    | none => rungs
    | some pick =>
      let r := rung_settle n points k best (rungs pick)
      speeds_walk left (Function.update rungs pick r) (if r.verdict = .ADMITTED then some r else best)

def rung_cleared (r : SpeedRung) : SpeedRung := { r with verdict := .UNKNOWN, equiv_x := 0 }

/-- The scan's sentinel is cleared. -/
def rung_unmarked (r : SpeedRung) : SpeedRung := if r.equiv_x = 0xffff then { r with equiv_x := 0 } else r

/-- The `n` rungs of the array, with their verdicts. -/
def adsc_speeds_admit (rungs : Nat → SpeedRung) (i : Nat) : SpeedRung :=
  if n = 0 then rungs i
  else
    let cleared := fun i => if i < n then rung_cleared (rungs i) else rungs i
    if points < 2 then cleared i
    else
      let walked := speeds_walk n points k n cleared none
      if i < n then rung_unmarked (walked i) else walked i

end

end Accudisc
