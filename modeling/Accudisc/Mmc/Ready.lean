import Accudisc.Mmc.Device
import Accudisc.Read.Sector

/-!
# Waiting for the drive (`ready.c`)

The loop of `adsc_dev_wait_ready` asks until an answer ends it. It has no bound of its own, so it is run for
a number of turns, and returns if some number of them is enough.
-/

namespace Accudisc

/-- The device and what the wait has done: its counter, the milliseconds slept and the note in
`dev->last_io`. -/
structure ReadyWait where
  dev : Dev (BitVec 8)
  waited : Nat := 0
  slept : Nat := 0
  noted : Option (Nat × SenseData) := none

section
variable (answers : Nat → DriveAnswer) (timeout_ms : Nat)

/-- Ask whether the drive is ready. -/
def adsc_mmc_test_unit_ready (dev : Dev (BitVec 8)) : DriveAnswer × Dev (BitVec 8) :=
  adsc_dev_exec answers id 0x00 dev

/-- One turn: the code returned, or none where the loop goes on. -/
def wait_ready_turn (w : ReadyWait) : Option Int × ReadyWait :=
  let r := adsc_mmc_test_unit_ready answers w.dev
  let w := { w with dev := r.2 }
  match adsc_ready_classify r.1.rc w.dev.last_sense with
  | .YES => (some ACCUDISC_OK, w)
  -- the re-ask does not count towards the timeout
  | .RETRY_NOW => (none, w)
  | .NO_MEDIUM => (some r.1.rc, w)
  | .OTHER => (some r.1.rc, w)
  | .WAIT =>
    if timeout_ms ≤ w.waited then
      (some ACCUDISC_ERR_IO, { w with noted := some (w.waited, w.dev.last_sense) })
    else
      (none, { w with
        waited := u32 (w.waited + ADSC_READY_POLL_MS)
        slept := w.slept + ADSC_READY_POLL_MS })

/-- The loop, for `n` turns. -/
def wait_ready_loop : Nat → ReadyWait → Option Int × ReadyWait
  | 0, w => (none, w)
  | n + 1, w =>
    let r := wait_ready_turn answers timeout_ms w
    match r.1 with
    | some rc => (some rc, r.2)
    | none => wait_ready_loop n r.2

def adsc_dev_wait_ready (n : Nat) (dev : Dev (BitVec 8)) : Option Int × ReadyWait :=
  wait_ready_loop answers timeout_ms n { dev := dev }

end

end Accudisc
