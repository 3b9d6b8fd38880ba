import Accudisc.Err
import Accudisc.Mem

/-!
# Sending a command (`device.c`, `ready.c`, `sense.c`)

`adsc_dev_exec` sends a command and sends it again while the drive says that it did not execute it.
The drive answers each transmission from `answers`, whatever they are; the command is whatever the
caller has, with `op` its operation code.
-/

namespace Accudisc

def ADSC_UA_RETRIES : Nat := 3
def ADSC_READY_POLL_MS : Nat := 250
def ADSC_READY_TIMEOUT_MS : Nat := 60000

/-- `accudisc_sense`. -/
structure SenseData where
  valid : Bool := false
  key : BitVec 8 := 0
  asc : BitVec 8 := 0
  ascq : BitVec 8 := 0

def adsc_sense_decode (sense : Mem) (len : Nat) : SenseData :=
  if len < 1 then {}
  else
    let code := sense 0 &&& 0x7f
    if (code = 0x70 ∨ code = 0x71) ∧ 14 ≤ len then ⟨true, sense 2 &&& 0x0f, sense 12, sense 13⟩
    else if (code = 0x72 ∨ code = 0x73) ∧ 4 ≤ len then ⟨true, sense 1 &&& 0x0f, sense 2, sense 3⟩
    else {}

/-- What a transmission leaves: the code of the transport, the sense bytes and the bytes of the buffer. -/
structure DriveAnswer where
  rc : Int
  sense : Mem
  sense_len : Nat
  data : Mem

/-- `dev->last_sense` after an answer. -/
def DriveAnswer.last_sense (a : DriveAnswer) : SenseData :=
  if a.rc = ACCUDISC_OK then {} else adsc_sense_decode a.sense a.sense_len

/-- The device: the next answer, and the transmissions so far with their answers, latest first. -/
structure Dev (κ : Type) where
  taken : Nat := 0
  last_sense : SenseData := {}
  ready_wait_off : Bool := false
  wire : List (κ × DriveAnswer) := []

inductive Readiness where
  | YES | WAIT | RETRY_NOW | NO_MEDIUM | OTHER

def adsc_ready_classify (rc : Int) (s : SenseData) : Readiness :=
  if rc = ACCUDISC_OK then .YES
  else if rc ≠ ACCUDISC_ERR_SENSE ∨ s.valid = false then .OTHER
  else if s.key = 0x06 then
    if s.asc = 0x28 ∨ s.asc = 0x29 then .RETRY_NOW else .OTHER
  else if s.key = 0x02 then
    if s.asc = 0x3a then .NO_MEDIUM else if s.asc = 0x04 then .WAIT else .OTHER
  else .OTHER

/-- The operations that only ask. -/
def adsc_op_repeatable (op : BitVec 8) : Bool :=
  op ∈ ([0x00, 0x03, 0x12, 0x1a, 0x23, 0x25, 0x28, 0x42, 0x43, 0x46, 0x4a, 0x51, 0x52, 0x5a, 0x5c, 0xa8,
    0xac, 0xad, 0xb9, 0xbd, 0xbe] : List (BitVec 8))

section
variable {κ : Type} (answers : Nat → DriveAnswer) (op : κ → BitVec 8) (cmd : κ)

/-- One transmission. -/
def exec_once (dev : Dev κ) : DriveAnswer × Dev κ :=
  let a := answers dev.taken
  (a, { dev with taken := dev.taken + 1, last_sense := a.last_sense, wire := (cmd, a) :: dev.wire })

/-- The loop of `adsc_dev_exec` after the answer `a`, with its two counters. -/
def exec_loop (ua waited : Nat) (a : DriveAnswer) (dev : Dev κ) : DriveAnswer × Dev κ :=
  if a.rc = ACCUDISC_ERR_SENSE ∧ adsc_op_repeatable (op cmd) = true then
    match adsc_ready_classify a.rc dev.last_sense with
    | .RETRY_NOW =>
      if ADSC_UA_RETRIES ≤ ua then (a, dev)
      else
        let r := exec_once answers cmd dev
        exec_loop (ua + 1) waited r.1 r.2
    | .WAIT =>
      -- TEST UNIT READY is the question itself, and is not asked again
      if dev.ready_wait_off = true ∨ op cmd = 0x00 then (a, dev)
      else if ADSC_READY_TIMEOUT_MS ≤ waited then (a, dev)
      else
        let r := exec_once answers cmd dev
        exec_loop ua (waited + ADSC_READY_POLL_MS) r.1 r.2
    | _ => (a, dev)
  else (a, dev)
-- the counters are what ends the loop: each turn raises one that is below its limit
termination_by (ADSC_UA_RETRIES - ua) + (ADSC_READY_TIMEOUT_MS - waited)
decreasing_by
  · omega
  · unfold ADSC_READY_POLL_MS ADSC_READY_TIMEOUT_MS at *
    omega

def adsc_dev_exec (dev : Dev κ) : DriveAnswer × Dev κ :=
  let r := exec_once answers cmd dev
  exec_loop answers op cmd 0 0 r.1 r.2

end

end Accudisc
