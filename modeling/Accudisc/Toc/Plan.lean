import Accudisc.Toc.Range

/-!
# Planning a read (`plan.c`)

The range that a specification names, before the guard looks at it. What `adsc_abi_import` makes of the
caller's structure is a parameter: its code, and the specification.
-/

namespace Accudisc

/-- `accudisc_range_spec`. -/
structure AccuRangeSpec where
  session : Int := -1
  first_track : Int := -1
  last_track : Int := -1
  start : Int := -1
  count : Int := -1
  force : Bool := false

inductive PlanReason where
  | OK | TRACKS_NOT_FOUND | TRACKS_CROSS_SESSION | TRACKS_NO_EXTENT | MULTIPLE_AUDIO_SESSIONS
  | NO_AUDIO_SESSION | SESSION_SPLIT_BY_DATA | SESSION_NOT_FOUND | START_PAST_LEADOUT | EMPTY_RANGE
  | GUARD_REFUSED | BAD_ARGUMENT
deriving DecidableEq

/-- `accudisc_range_plan`. -/
structure AccuRangePlan where
  lba : Nat := 0
  count : Nat := 0
  resolved_count : Int := 0
  session : BitVec 8 := 0
  plan_reason : PlanReason := .BAD_ARGUMENT
  check : AccuRangeCheck := ⟨false, .OK, 0, 0, 0⟩
deriving DecidableEq

def refuse (out : AccuRangePlan) (why : PlanReason) : Int × AccuRangePlan :=
  (ACCUDISC_ERR_UNSUPPORTED, { out with plan_reason := why })

/-- A `start` and a `count` resolved, and the session chosen. -/
structure PlanSpan where
  start : Int
  count : Int
  session : BitVec 8
deriving DecidableEq

/-- The bounds that the specification leaves are those of the extent. -/
def plan_span (spec : AccuRangeSpec) (lba count : Nat) (session : BitVec 8) : PlanSpan :=
  let start := if 0 ≤ spec.start then spec.start else lba
  ⟨start, if spec.count < 0 then (lba : Int) + count - start else spec.count, session⟩

/-- An `int32_t` as `uint8_t`. -/
def uint8 (n : Int) : BitVec 8 := BitVec.ofInt 8 n

def plan_tracks (toc : AccuToc) (spec : AccuRangeSpec) : Except (Int × AccuRangePlan) PlanSpan :=
  if 99 < spec.first_track ∨ spec.last_track < 1 ∨ 99 < spec.last_track then
    .error (ACCUDISC_ERR_INVAL, {})
  else
    match accudisc_toc_track_range toc (uint8 spec.first_track) (uint8 spec.last_track) with
    | .error rc =>
      if rc = ACCUDISC_ERR_NOTFOUND then .error (refuse {} .TRACKS_NOT_FOUND)
      else if rc = ACCUDISC_ERR_UNSUPPORTED then .error (refuse {} .TRACKS_CROSS_SESSION)
      else .error (refuse {} .TRACKS_NO_EXTENT)
    | .ok (lba, count) =>
      .ok (plan_span spec lba count
        (((toc.tracks.find? (·.number = uint8 spec.first_track)).map (·.session)).getD 0))

/-- The session to read from: the only one with audio, where nothing at all is named. -/
def plan_session (toc : AccuToc) (spec : AccuRangeSpec) : Except (Int × AccuRangePlan) Int :=
  if spec.session < 0 ∧ spec.start < 0 ∧ spec.count < 0 then
    match accudisc_toc_default_audio_session toc with
    | .ok s => .ok (if 0 < s.toNat then s.toNat else spec.session)
    | .error rc =>
      if rc = ACCUDISC_ERR_UNSUPPORTED then .error (refuse {} .MULTIPLE_AUDIO_SESSIONS)
      else if rc = ACCUDISC_ERR_NOTFOUND then .error (refuse {} .NO_AUDIO_SESSION)
      else .ok spec.session
  else .ok spec.session

def plan_audio (toc : AccuToc) (spec : AccuRangeSpec) (session : Int) :
    Except (Int × AccuRangePlan) PlanSpan :=
  if 0 < session then
    match accudisc_toc_session_audio_range toc (uint8 session) with
    | .error rc =>
      if rc = ACCUDISC_ERR_UNSUPPORTED then .error (refuse {} .SESSION_SPLIT_BY_DATA)
      else .error (refuse {} .SESSION_NOT_FOUND)
    | .ok (lba, count) => .ok (plan_span spec lba count (uint8 session))
  else
    let start := if 0 ≤ spec.start then spec.start else 0
    if spec.count < 0 ∧ (toc.leadout_lba : Int) ≤ start then
      .error (refuse { lba := u32 start.toNat } .START_PAST_LEADOUT)
    else .ok (plan_span spec 0 toc.leadout_lba 0)

/-- The narrowing and the guard; the guard's walk has a turn for each sector. -/
def plan_finish (toc : AccuToc) (force : Bool) (sp : PlanSpan) : Option (Int × AccuRangePlan) :=
  let out : AccuRangePlan := { resolved_count := sp.count, session := sp.session }
  if sp.count ≤ 0 then some (refuse { out with lba := u32 sp.start.toNat } .EMPTY_RANGE)
  else if 0xffffffff < sp.start ∨ 0xffffffff < sp.count ∨ 0xffffffff + 1 < sp.start + sp.count then
    some (ACCUDISC_ERR_INVAL, out)
  else
    let out := { out with lba := sp.start.toNat, count := sp.count.toNat }
    if force then some (ACCUDISC_OK, { out with plan_reason := .OK })
    else
      (accudisc_check_audio_range (out.count + 1) toc out.lba out.count).map fun r =>
        if r.1 ≠ ACCUDISC_OK then refuse { out with check := r.2 } .GUARD_REFUSED
        else (ACCUDISC_OK, { out with check := r.2, plan_reason := .OK })

/-- The span that the specification names. -/
def plan_resolve (toc : AccuToc) (spec : AccuRangeSpec) : Except (Int × AccuRangePlan) PlanSpan :=
  if 0 < spec.first_track then plan_tracks toc spec
  else (plan_session toc spec).bind (plan_audio toc spec)

def accudisc_plan_read_range (toc : AccuToc) (abi : Int) (spec : AccuRangeSpec) :
    Option (Int × AccuRangePlan) :=
  if abi ≠ ACCUDISC_OK then some (abi, {})
  else if spec.start < -1 ∨ spec.count < -1 then some (ACCUDISC_ERR_INVAL, {})
  else
    match plan_resolve toc spec with
    | .error r => some r
    | .ok sp => plan_finish toc spec.force sp

end Accudisc
