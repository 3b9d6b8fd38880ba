import Accudisc.Err
import Accudisc.Read.Sector

/-!
# The counter census (`census.c`)

The span is read a sample at a time with the vendor counters armed. The loop's address is a `uint32_t`, so
the loop is run for a number of turns, and returns if some number of them is enough. Turn `i` is the one
that takes sample `i`.
-/

namespace Accudisc

def ACCUDISC_CENSUS_CADENCE : Nat := 75

/-- The counters of `accudisc_counters` that the census reads. -/
structure Counters where
  c1 : BitVec 32 := 0
  c2 : BitVec 32 := 0
  cu : BitVec 32 := 0
  bler : BitVec 32 := 0
  e31 : BitVec 32 := 0
  e21 : BitVec 32 := 0
  e11 : BitVec 32 := 0
  have_detail : BitVec 8 := 0
deriving DecidableEq

/-- `accudisc_census_sample`. -/
structure CensusSample where
  lba : Nat
  count : Nat
  counters : Counters
  read_err : Int
deriving DecidableEq

/-- `accudisc_census_opts`. -/
structure CensusOpts where
  start : BitVec 32
  end_ : BitVec 32
  cadence : BitVec 32 := 0
  speed_x : BitVec 16 := 0
deriving DecidableEq

/-- `accudisc_census_stats`. -/
structure CensusStats where
  c1 : Nat := 0
  c2 : Nat := 0
  cu : Nat := 0
  peak_c1 : Nat := 0
  peak_c2 : Nat := 0
  peak_cu : Nat := 0
  samples : Nat := 0
  read_errors : Nat := 0
  bler_mismatch : Nat := 0
  bler_checked : Nat := 0
deriving DecidableEq

/-- What the census does to the drive and to the caller. -/
inductive CensusEvent where
  | scan_begin
  | set_speed (speed_x : Nat)
  | read (lba count : Nat)
  | scan_read
  | deliver (s : CensusSample)
  | scan_end
deriving DecidableEq

/-- What the drive and the caller answer. -/
structure CensusEnv where
  scan_begin : Int
  /-- `*opts->cancel` at the top of turn `i`. -/
  cancel : Nat → Bool
  read : Nat → Int
  scan_read : Nat → Int × Counters
  /-- Whether `fn` asks to stop at sample `i`; none for a null `fn`. -/
  fn : Option (Nat → Bool)

structure CensusScan where
  lba : Nat
  st : CensusStats := {}
  samples : List CensusSample := []
  log : List CensusEvent := []

def u64 (n : Nat) : Nat := n % 2 ^ 64

/-- `if (x > peak) peak = x`. -/
def raise_peak (peak : Nat) (x : BitVec 32) : Nat := if peak < x.toNat then x.toNat else peak

/-- The identity `bler == e11 + e21 + e31`. -/
def bler_holds (c : Counters) : Bool := c.bler = c.e11 + c.e21 + c.e31

/-- The statistics with one sample more. -/
def census_account (st : CensusStats) (s : CensusSample) : CensusStats where
  c1 := u64 (st.c1 + s.counters.c1.toNat)
  c2 := u64 (st.c2 + s.counters.c2.toNat)
  cu := u64 (st.cu + s.counters.cu.toNat)
  peak_c1 := raise_peak st.peak_c1 s.counters.c1
  peak_c2 := raise_peak st.peak_c2 s.counters.c2
  peak_cu := raise_peak st.peak_cu s.counters.cu
  samples := u32 (st.samples + 1)
  read_errors := if s.read_err ≠ ACCUDISC_OK then u32 (st.read_errors + 1) else st.read_errors
  bler_checked := if s.counters.have_detail ≠ 0 then u32 (st.bler_checked + 1) else st.bler_checked
  bler_mismatch :=
    if s.counters.have_detail ≠ 0 then
      if bler_holds s.counters then st.bler_mismatch else u32 (st.bler_mismatch + 1)
    else st.bler_mismatch

def census_cadence (o : CensusOpts) : Nat := if o.cadence ≠ 0 then o.cadence.toNat
    else ACCUDISC_CENSUS_CADENCE

section
variable (e : CensusEnv) (o : CensusOpts)

/-- The sample of a turn, once the counters are read. -/
def census_sample (s : CensusScan) : CensusSample :=
  let remain := sub32 o.end_.toNat s.lba
  { lba := s.lba
    count := if remain < census_cadence o then remain else census_cadence o
    counters := (e.scan_read s.samples.length).2
    read_err := e.read s.samples.length }

/-- One turn: the code the loop is left with, or none where it goes on. -/
def census_turn (s : CensusScan) : Option Int × CensusScan :=
  if o.end_.toNat ≤ s.lba then (some ACCUDISC_OK, s)
  else if e.cancel s.samples.length then (some ACCUDISC_ERR_CANCELLED, s)
  else
    let sample := census_sample e o s
    let log := s.log ++ [.read sample.lba sample.count, .scan_read]
    let rc := (e.scan_read s.samples.length).1
    if rc ≠ ACCUDISC_OK then (some rc, { s with log })
    else
      let next : CensusScan :=
        { s with
          st := census_account s.st sample
          samples := s.samples ++ [sample]
          log := if e.fn.isSome then log ++ [.deliver sample] else log }
      if e.fn.any (· s.samples.length) then (some ACCUDISC_ERR_CANCELLED, next)
      else (none, { next with lba := u32 (s.lba + census_cadence o) })

/-- The loop, for `k` turns. -/
def census_loop : Nat → CensusScan → Option Int × CensusScan
  | 0, s => (none, s)
  | k + 1, s =>
    match census_turn e o s with
    | (some ret, s) => (some ret, s)
    | (none, s) => census_loop k s

/-- The scan as the loop finds it. -/
def census_armed : CensusScan :=
  { lba := o.start.toNat
    log := if o.speed_x ≠ 0 then [.scan_begin, .set_speed o.speed_x.toNat] else [.scan_begin] }

/-- `args` says whether the device and the options are there, and `abi` is what the import of the
options answers. -/
def accudisc_counter_census (args : Bool) (abi : Int) (k : Nat) : Option Int × CensusScan :=
  if !args then (some ACCUDISC_ERR_INVAL, { lba := 0 })
  else if abi ≠ ACCUDISC_OK then (some abi, { lba := 0 })
  else if o.end_.toNat ≤ o.start.toNat then (some ACCUDISC_ERR_INVAL, { lba := 0 })
  else if e.scan_begin ≠ ACCUDISC_OK then (some e.scan_begin, { lba := 0, log := [.scan_begin] })
  else
    match census_loop e o k (census_armed o) with
    | (some ret, s) => (some ret, { s with log := s.log ++ [.scan_end] })
    | (none, s) => (none, s)

end

end Accudisc
