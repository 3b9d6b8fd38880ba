import Accudisc.Write.WriteApi

/-!
# The write health of a handle (`device.c`)

Every live burn leaves its figures, and the first of a handle is what the later ones are compared with.
The budget and its count are those of `accudisc_write`.
-/

namespace Accudisc

def ACCUDISC_WRITE_ANOMALY_PAYLOAD : BitVec 32 := 0x01
def ACCUDISC_WRITE_ANOMALY_SETTLE : BitVec 32 := 0x02

/-- Ratios in hundredths. -/
def ACCUDISC_WRITE_PAYLOAD_TOL : BitVec 64 := 130
def ACCUDISC_WRITE_SETTLE_TOL : BitVec 64 := 125

/-- What a live burn reports. -/
structure BurnFigures where
  settle_ms : BitVec 32 := 0
  payload_ms : BitVec 32 := 0
  sectors : BitVec 32 := 0
deriving DecidableEq

/-- The `wr_` fields of the device. -/
structure WriteHealth extends WriteDev where
  wr_base : BurnFigures := {}
  wr_last : BurnFigures := {}
  wr_anomaly : BitVec 32 := 0

/-- The rate of the payload, cross-multiplied. -/
def payload_regressed (base last : BurnFigures) : Bool :=
  let lhs := last.payload_ms.setWidth 64 * base.sectors.setWidth 64 * 100
  let rhs := base.payload_ms.setWidth 64 * last.sectors.setWidth 64 * ACCUDISC_WRITE_PAYLOAD_TOL
  last.sectors ≠ 0 ∧ base.sectors ≠ 0 ∧ base.payload_ms ≠ 0 ∧ lhs > rhs

/-- The hold-off is compared as it is: it does not grow with the burn. -/
def settle_regressed (base last : BurnFigures) : Bool :=
  base.settle_ms ≠ 0 ∧ last.settle_ms.setWidth 64 * 100 > base.settle_ms.setWidth 64 *
    ACCUDISC_WRITE_SETTLE_TOL

/-- `adsc_write_health_record` with the figures. -/
def write_health_record (h : WriteHealth) (f : BurnFigures) : WriteHealth :=
  let h := { h with toWriteDev := adsc_write_health_record h.toWriteDev, wr_last := f }
  if h.wr_base.sectors = 0 then { h with wr_base := f, wr_anomaly := 0 }
  else
    let anomaly := if payload_regressed h.wr_base f then ACCUDISC_WRITE_ANOMALY_PAYLOAD else 0
    { h with
      wr_anomaly := anomaly ||| if settle_regressed h.wr_base f then ACCUDISC_WRITE_ANOMALY_SETTLE else 0 }

/-- What happens to the health of a handle. -/
inductive HealthCall where
  | BUDGET (max_live_writes : BitVec 32)
  | BURN (f : BurnFigures)
deriving DecidableEq

/-- The handle after these calls, latest first. -/
def write_health : List HealthCall → WriteHealth
  | [] => {}
  | .BUDGET n :: calls => { write_health calls with toWriteDev := accudisc_set_write_budget n }
  | .BURN f :: calls => write_health_record (write_health calls) f

end Accudisc
