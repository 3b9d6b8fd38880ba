import Accudisc.Meta.CdTextBlob
import Accudisc.Write.Burn

/-!
# The entry point of a burn (`write_api.c`, `device.c`)

`accudisc_write` and the budget of live burns. What the files hold and what `adsc_abi_import` makes of the
caller's options come with the call, and the options are those that the burn is given.
-/

namespace Accudisc

def ACCUDISC_ERR_OPEN : Int := -3
def ACCUDISC_ERR_WRITE_BUDGET : Int := -15
def ACCUDISC_WROTE_WITH_CAVEATS : Int := 1

/-- The budget of the device and its count. -/
structure WriteDev where
  wr_budget : BitVec 32 := 0
  wr_live : BitVec 32 := 0

def accudisc_set_write_budget (max_live_writes : BitVec 32) : WriteDev := ⟨max_live_writes, 0⟩

def adsc_write_health_record (dev : WriteDev) : WriteDev := { dev with wr_live := dev.wr_live + 1 }

/-- A call of `accudisc_write`, and all that it meets. -/
structure WriteCall where
  abi : Int
  args : Bool
  toc_alloc : Bool
  /-- The model that the `.toc` file gives. -/
  toc : Except Int WriteToc
  /-- The CD-Text file and its length, when one is named. -/
  cdtext_file : Option (Except Int (Mem × Nat))
  bin_open : Bool
  opts : BurnOpts
  env : BurnEnv
  fuel : Nat

/-- The model to burn, and whether its size information disagrees. -/
def adsc_write_load_model (c : WriteCall) : Except Int (WriteToc × Bool) := do
  let toc ← c.toc
  match c.cdtext_file with
  | none => .ok ({ toc with cdtext := none }, adsc_cdtext_sizeinfo_mismatch {} toc.track.length)
  | some file =>
    let (blob, len) ← file
    match adsc_cdtext_blob_validate blob len with
    | .error (rc, _, _) => .error rc
    | .ok (blob, info) =>
      .ok ({ toc with cdtext := some (blob, len) }, adsc_cdtext_sizeinfo_mismatch info toc.track.length)

/-- From the budget check to the burn. -/
def write_open (c : WriteCall) : Except Int (WriteToc × Bool) :=
  if c.toc_alloc = false then .error ACCUDISC_ERR_NOMEM
  else do
    let m ← adsc_write_load_model c
    if c.bin_open = false then .error ACCUDISC_ERR_OPEN else .ok m

/-- Whether the budget is spent. -/
def over_budget (dev : WriteDev) (c : WriteCall) : Bool :=
  c.opts.simulate = false ∧ dev.wr_budget ≠ 0 ∧ dev.wr_budget ≤ dev.wr_live

/-- What a call leaves: its code, what it sent, and the device. -/
structure WriteReturn where
  rc : Int
  log : List Sent
  dev : WriteDev

/-- `accudisc_write`; none when the fuel of the burn is not enough. A live burn that went well is recorded
on its way out. -/
def accudisc_write (dev : WriteDev) (c : WriteCall) : Option WriteReturn :=
  if c.abi ≠ ACCUDISC_OK then some ⟨c.abi, [], dev⟩
  else if c.args = false then some ⟨ACCUDISC_ERR_INVAL, [], dev⟩
  else if over_budget dev c then some ⟨ACCUDISC_ERR_WRITE_BUDGET, [], dev⟩
  else
    match write_open c with
    | .error rc => some ⟨rc, [], dev⟩
    | .ok (toc, caveat) =>
      let r := adsc_write_run c.env toc c.opts c.fuel
      r.1.map fun rc =>
        ⟨if rc = ACCUDISC_OK ∧ caveat then ACCUDISC_WROTE_WITH_CAVEATS else rc, r.2.log,
          if c.opts.simulate = false ∧ ACCUDISC_OK ≤ rc then adsc_write_health_record dev else dev⟩

/-! ## Calls on one handle -/

inductive WriteApi where
  | set_write_budget (max_live_writes : BitVec 32)
  | write (c : WriteCall)

/-- A call that returned. -/
inductive WriteDone where
  | budget (max_live_writes : BitVec 32)
  | wrote (before : WriteDev) (c : WriteCall) (w : WriteReturn)

/-- The calls, one after the other, from a device. -/
def write_calls (dev : WriteDev) : List WriteApi → Option (List WriteDone)
  | [] => some []
  | .set_write_budget n :: calls =>
    (write_calls (accudisc_set_write_budget n) calls).map (WriteDone.budget n :: ·)
  | .write c :: calls =>
    match accudisc_write dev c with
    | none => none
    | some w => (write_calls w.dev calls).map (WriteDone.wrote dev c w :: ·)

end Accudisc
