import Accudisc.Err
import Accudisc.Drive.Speeds

/-!
# Probing the speeds (`speeds.c`)

Every rung of the ladder has a window of its own in each band of the span, and the reads of a window are
timed. The drive answers read `k` with the code `rc k`; `rate w done` is what the clock makes of the
`done` sectors of timed window `w`, zero where no time went by, and `speed i` what the drive reports
after rung `i`.
-/

namespace Accudisc

def SPEEDS_CHUNK : Nat := 27
def SPEEDS_MIN_SECTORS : Nat := 150
def SPEEDS_MAX_SECTORS : Nat := 2250
def SPEEDS_BANDS : Nat := 3
def SPEEDS_ADMIT_K : Nat := 3

/-- What the probe asks of the drive. -/
inductive SpeedCall where
  | READ (lba sectors : Nat)
  | SET_SPEED (x : BitVec 16)
  | GET_SPEED
deriving DecidableEq

/-- The slot and the band, in sectors. -/
def adsc_speeds_layout (count ncand points : Nat) : Except Int (Nat × Nat) :=
  if ncand = 0 then .error ACCUDISC_ERR_INVAL
  else if points ≠ 1 ∧ points ≠ SPEEDS_BANDS then .error ACCUDISC_ERR_INVAL
  else
    let s := count / (points * ncand)
    if s < SPEEDS_MIN_SECTORS + SPEEDS_CHUNK then .error ACCUDISC_ERR_INVAL else .ok (s, s * ncand)

/-- The commands so far, latest first. -/
structure SpeedWire where
  reads : Nat := 0
  log : List SpeedCall := []

def SpeedWire.call (c : SpeedCall) (s : SpeedWire) : SpeedWire := { s with log := c :: s.log }

def SpeedWire.read (lba sectors : Nat) (s : SpeedWire) : SpeedWire :=
  { reads := s.reads + 1, log := .READ lba sectors :: s.log }

section
variable (rc : Nat → Int)

/-- The turns of `stream_span`: the sectors read, and why it stopped. -/
def stream_turns (lba n : Nat) : Nat → Nat → SpeedWire → (Nat × Int) × SpeedWire
  | 0, done, s => ((done, ACCUDISC_OK), s)
  | turns + 1, done, s =>
    if done < n then
      let c := if n - done < SPEEDS_CHUNK then n - done else SPEEDS_CHUNK
      let e := rc s.reads
      let s := s.read (u32 (lba + done)) c
      if e ≠ ACCUDISC_OK then ((done, e), s) else stream_turns lba n turns (done + c) s
    else ((done, ACCUDISC_OK), s)

/-- Every turn reads a sector at least. -/
def stream_span (lba n : Nat) (s : SpeedWire) : (Nat × Int) × SpeedWire := stream_turns rc lba n n 0 s

/-- The sectors to time at the speed `x`. -/
def window_want (x : BitVec 16) (slot : Nat) : Nat :=
  let want := x.toNat * 75
  let want := if want < SPEEDS_MIN_SECTORS then SPEEDS_MIN_SECTORS else want
  let want := if SPEEDS_MAX_SECTORS < want then SPEEDS_MAX_SECTORS else want
  if slot - SPEEDS_CHUNK < want then slot - SPEEDS_CHUNK else want

variable (rate : Nat → Nat → BitVec 16)

/-- The probe between two windows: `cx_band` are the figures of the rung at hand. -/
structure LadderProbe where
  wire : SpeedWire := {}
  timed : Nat := 0
  first_err : Int := ACCUDISC_OK
  read_any : Bool := false
  cx_band : Nat → BitVec 16 := fun _ => 0

/-- Band `b` of a rung: the warm-up, then the window that is timed. -/
def probe_band (wlba want : Nat) (b : Nat) (s : LadderProbe) : LadderProbe :=
  let warm := stream_span rc wlba SPEEDS_CHUNK s.wire
  let r := stream_span rc (u32 (wlba + SPEEDS_CHUNK)) want warm.2
  let done := r.1.1
  { wire := r.2
    timed := s.timed + 1
    first_err := if done = 0 ∧ r.1.2 ≠ ACCUDISC_OK ∧ s.first_err = ACCUDISC_OK then r.1.2 else s.first_err
    read_any := s.read_any || done ≠ 0
    cx_band := if done ≠ 0 then Function.update s.cx_band b (rate s.timed done) else s.cx_band }

/-- The least and the greatest figure of the bands, and whether there is one in every band. -/
def band_range (points : Nat) (cx : Nat → BitVec 16) : BitVec 16 × BitVec 16 × Bool :=
  (List.range points).foldl (fun (lo, hi, complete) b =>
    (if cx b < lo then cx b else lo, if hi < cx b then cx b else hi, complete && cx b ≠ 0))
      (cx 0, cx 0, true)

/-- A rung with its figures; its verdict is not settled here. -/
def rung_measured (x : BitVec 16) (points : Nat) (cx : Nat → BitVec 16) (kbps : Option Nat)
    (r : SpeedRung) : SpeedRung :=
  let range := band_range points cx
  let spread := 1 < points ∧ range.2.2 = true
  { r with
    requested_x := x
    reported_x := match kbps with
      | some k => BitVec.ofNat 16 (k / 176)
      | none => 0
    measured_cx := cx (points / 2)
    min_cx := if spread then range.1 else 0
    max_cx := if spread then range.2.1 else 0 }

variable (speed : Nat → Option Nat) (lba : Nat) (candidates : Nat → BitVec 16)

/-- The table of the caller beside the probe: `bands i b` is figure `b` of rung `i`. -/
structure LadderTable extends LadderProbe where
  rungs : Nat → SpeedRung
  bands : Nat → Nat → BitVec 16

/-- The bands of rung `i`. -/
def probe_bands (points slot band i : Nat) (s : LadderProbe) : LadderProbe :=
  (List.range points).foldl (fun s b =>
    probe_band rc rate (u32 (lba + b * band + i * slot)) (window_want (candidates i) slot) b s) s

/-- Rung `i`. -/
def probe_rung (points slot band i : Nat) (t : LadderTable) : LadderTable :=
  let s := { t.toLadderProbe with wire := t.wire.call (.SET_SPEED (candidates i)), cx_band := fun _ => 0 }
  let s := probe_bands rc rate lba candidates points slot band i s
  { s with
    wire := s.wire.call .GET_SPEED
    rungs := Function.update t.rungs i (rung_measured (candidates i) points s.cx_band (speed i) (t.rungs i))
    bands := Function.update t.bands i s.cx_band }

/-- The rungs of the ladder, with nothing admitted yet. -/
def probe_rungs (points slot band ncand : Nat) (t : LadderTable) : LadderTable :=
  (List.range ncand).foldl (fun t i => probe_rung rc rate speed lba candidates points slot band i t) t

/-- The code, the table, and the commands. `points = 0` is one band. -/
def accudisc_probe_speed_ladder (count ncand points : Nat) (rungs : Nat → SpeedRung) (bands : Nat →
    Nat → BitVec 16) :
    Int × LadderTable :=
  let t : LadderTable := { rungs := rungs, bands := bands }
  if ncand = 0 then (ACCUDISC_ERR_INVAL, t)
  else
    let points := if points = 0 then 1 else points
    match adsc_speeds_layout count ncand points with
    | .error e => (e, t)
    | .ok (slot, band) =>
      let t := probe_rungs rc rate speed lba candidates points slot band ncand t
      if t.read_any = false ∧ t.first_err ≠ ACCUDISC_OK then (t.first_err, t)
      else (ACCUDISC_OK, { t with rungs := adsc_speeds_admit ncand points SPEEDS_ADMIT_K t.rungs })

end

end Accudisc
