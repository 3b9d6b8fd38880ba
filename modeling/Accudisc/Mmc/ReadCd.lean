import Accudisc.Cdda.Layout
import Accudisc.Read.Engine

/-!
# READ CD (`mmc.c`)

One READ CD: the transfer, rounded up to a multiple of 16 into the handle's bounce buffer where that
works, and the record order of what came. `adsc_dev_exec` is the boundary: each command it is given
has an answer. `cmds` and `bytes` are not in the source: they record the commands of the call and what
the transfer left in the caller's buffer.
-/

namespace Accudisc

abbrev UINT32_MAX : Nat := 2 ^ 32 - 1

/-- `adsc_resid_clamp`. -/
def adsc_resid_clamp (raw : Int) (buf_len : Nat) : Nat :=
  if raw ≤ 0 then 0 else min raw.toNat buf_len

/-- `adsc_exec_check_short`. -/
def adsc_exec_check_short (rc : Int) (resid slack : Nat) : Int :=
  if rc = ACCUDISC_OK ∧ resid > slack then ACCUDISC_ERR_SHORT else rc

/-- What `adsc_dev_exec` makes of one command. -/
structure ExecReply where
  rc : Int
  /-- The raw residual. -/
  resid : Int
  driver_status : Nat
  sense : Sense
  /-- What the buffer holds afterwards, all of it. -/
  data : Mem

/-- The transport, and `realloc`: the block it returns, or none. -/
structure MmcEnv where
  exec : Nat → ExecReply
  realloc : Nat → Option Mem

/-- Where a command's data goes. -/
inductive XferDst where
  | caller
  | bounce
deriving DecidableEq

/-- A READ CD as it was issued. -/
structure ReadCdCmd where
  lba : Nat
  nsec : Nat
  sector_type : Nat
  c2 : Nat
  sub : Nat
  dst : XferDst
  /-- `buf_len`. -/
  xfer : Nat
  /-- `xfer_bounce_cap` at that time. -/
  cap : Nat
  reply : ExecReply

/-- `cmd.resid`. -/
def ReadCdCmd.resid (x : ReadCdCmd) : Nat := adsc_resid_clamp x.reply.resid x.xfer

/-- What READ CD uses of a handle. -/
structure MmcDev where
  xfer_bounce : Mem
  xfer_bounce_cap : Nat
  xfer_exact : Int
  layout : Nat → Nat → Nat
  last_sense : Sense
  /-- Commands and reallocations so far, to index the environment's answers. -/
  execs : Nat
  reallocs : Nat

/-- A call's arguments. -/
structure ReadCdCall where
  lba : Nat
  nsec : Nat
  sector_type : Nat
  c2 : Nat
  sub : Nat
  buf : Mem
  sector_len : Nat

def ReadCdCall.exact (q : ReadCdCall) : Nat := q.nsec * q.sector_len

/-- `read_cd_layout`'s lengths of the two fields. -/
def ReadCdCall.sub_len (q : ReadCdCall) : Nat :=
  if q.sub = ACCUDISC_SUB_RAW then ACCUDISC_BYTES_SUB_RAW else ACCUDISC_BYTES_SUB_Q

def ReadCdCall.c2_len (q : ReadCdCall) : Nat := q.sector_len - ACCUDISC_BYTES_AUDIO - q.sub_len

/-- What a call leaves: its code, the handle and the caller's buffer. -/
structure ReadCdResult where
  rc : Int
  dev : MmcDev
  buf : Mem
  cmds : List ReadCdCmd
  bytes : Option Mem

section
variable (env : MmcEnv) (q : ReadCdCall)

/-- `read_cd_once`: its code, whether it timed out, and the handle. -/
def read_cd_once (dev : MmcDev) (dst : XferDst) (exact xfer : Nat) : ReadCdCmd × Int × Bool × MmcDev :=
  let reply := env.exec dev.execs
  let cmd : ReadCdCmd :=
    ⟨q.lba, q.nsec, q.sector_type, q.c2, q.sub, dst, xfer, dev.xfer_bounce_cap, reply⟩
  let rc := adsc_exec_check_short reply.rc cmd.resid (xfer - exact)
  (cmd, rc, rc = ACCUDISC_ERR_IO ∧ reply.driver_status % 16 = 6,
    { dev with
      last_sense := reply.sense
      execs := dev.execs + 1
      xfer_bounce := if dst = .bounce then memcpy dev.xfer_bounce 0 reply.data 0 xfer
        else dev.xfer_bounce })

def rounding_suspect (dev : MmcDev) (rc : Int) : Bool :=
  if rc = ACCUDISC_ERR_IO then true
  else rc = ACCUDISC_ERR_SENSE ∧ dev.last_sense.valid ∧ dev.last_sense.key = 5

/-- The bounce buffer grown to `want`, where `realloc` can. -/
def bounce_grow (dev : MmcDev) (want : Nat) : MmcDev :=
  if dev.xfer_bounce_cap < want then
    match env.realloc dev.reallocs with
    | some nb => { dev with xfer_bounce := nb, xfer_bounce_cap := want, reallocs := dev.reallocs + 1 }
    | none => { dev with reallocs := dev.reallocs + 1 }
  else dev

/-- The exact length rounded up to a multiple of 16. -/
def round16 (n : Nat) : Nat := (n + 15) / 16 * 16

/-- The length and the destination of the first command. -/
def read_cd_shape (dev : MmcDev) (exact : Nat) : Nat × XferDst × MmcDev :=
  if dev.xfer_exact ≠ 1 ∧ exact % 16 ≠ 0 ∧ exact ≤ UINT32_MAX - 15 then
    let dev := bounce_grow env dev (round16 exact)
    if dev.xfer_bounce_cap ≥ round16 exact then (round16 exact, .bounce, dev) else (exact, .caller, dev)
  else (exact, .caller, dev)

/-- `adsc_mmc_read_cd` up to the record order: one command, or two. -/
def read_cd_transfer (dev : MmcDev) : ReadCdResult :=
  let exact := q.exact
  let (xfer, dst, dev) := read_cd_shape env dev exact
  let (cmd, rc, timed_out, dev) := read_cd_once env q dev dst exact xfer
  if xfer ≠ exact ∧ dev.xfer_exact = 0 ∧ rounding_suspect dev rc then
    let (cmd₂, rc₂, _, dev) := read_cd_once env q dev .caller exact exact
    let dev := if rc₂ = ACCUDISC_OK ∧ !timed_out then { dev with xfer_exact := 1 } else dev
    let buf := memcpy q.buf 0 cmd₂.reply.data 0 exact
    ⟨rc₂, dev, buf, [cmd, cmd₂], if rc₂ = ACCUDISC_OK then some buf else none⟩
  else
    let buf := if dst = .caller then memcpy q.buf 0 cmd.reply.data 0 xfer else q.buf
    if rc ≠ ACCUDISC_OK then ⟨rc, dev, buf, [cmd], none⟩
    else if xfer ≠ exact then
      let buf := memcpy buf 0 dev.xfer_bounce 0 exact
      ⟨rc, { dev with xfer_exact := -1 }, buf, [cmd], some buf⟩
    else ⟨rc, dev, buf, [cmd], some buf⟩

/-- The latch after a verdict: more than one agreeing record sets it. -/
def layout_latch (v : LayoutVerdict) (latch : Nat) : Nat :=
  let votes := if v.hits_mmc > v.hits_sub then v.hits_mmc else v.hits_sub
  if v.layout ≠ 0 ∧ votes ≥ 2 ∧ latch ≠ v.layout then v.layout else latch

/-- `read_cd_layout`. -/
def read_cd_layout (dev : MmcDev) (buf : Mem) : Int × MmcDev × Mem :=
  let v := adsc_layout_inspect buf q.nsec q.sector_len q.c2_len
  if v.misframed ≠ 0 then ( ACCUDISC_ERR_IO, dev, buf)
  else
    let latch := layout_latch v (dev.layout q.c2 q.sub)
    let use := if v.layout ≠ 0 then v.layout else latch
    (ACCUDISC_OK,
      { dev with
        layout := Function.update dev.layout q.c2 (Function.update (dev.layout q.c2) q.sub latch) },
      if use = ADSC_LAYOUT_SUB_FIRST then adsc_layout_to_mmc buf q.nsec q.sector_len q.c2_len else buf)

def adsc_mmc_read_cd (dev : MmcDev) : ReadCdResult :=
  if q.c2 > ACCUDISC_C2_PTRS_BEB ∨ q.sub > ACCUDISC_SUB_Q ∨
      q.sector_len ≠ adsc_read_cd_sector_len q.c2 q.sub ∨ q.nsec = 0 ∨
      q.nsec > UINT32_MAX / q.sector_len then
    ⟨ACCUDISC_ERR_INVAL, dev, q.buf, [], none⟩
  else
    let x := read_cd_transfer env q dev
    if x.rc ≠ ACCUDISC_OK then x
    else if q.c2 ≠ ACCUDISC_C2_NONE ∧ q.sub ≠ ACCUDISC_SUB_NONE then
      let (rc, dev, buf) := read_cd_layout q x.dev x.buf
      { x with rc, dev, buf }
    else x

end

/-! ## The calls on one handle -/

/-- A handle and the calls made on it, the last first. -/
structure MmcSys where
  dev : MmcDev
  calls : List (ReadCdCall × ReadCdResult)

/-- One more call. -/
def MmcSys.step (env : MmcEnv) (s : MmcSys) (q : ReadCdCall) : Option MmcSys :=
  let x := adsc_mmc_read_cd env q s.dev
  some ⟨x.dev, (q, x) :: s.calls⟩

/-- A handle as it is opened. -/
def MmcDev.opened : MmcDev :=
  { xfer_bounce := fun _ => 0, xfer_bounce_cap := 0, xfer_exact := 0, layout := fun _ _ => 0,
    last_sense := ⟨false, 0, 0⟩, execs := 0, reallocs := 0 }

end Accudisc
