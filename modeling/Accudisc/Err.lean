/-!
# Error codes (`accudisc.h`)

Fallible functions return `ACCUDISC_OK` or a negative code; some return a count or a positive
state instead, so codes are integers.
-/

namespace Accudisc

def ACCUDISC_OK : Int := 0
def ACCUDISC_ERR_INVAL : Int := -1
def ACCUDISC_ERR_NOMEM : Int := -2
def ACCUDISC_ERR_IO : Int := -4
def ACCUDISC_ERR_SENSE : Int := -5
def ACCUDISC_ERR_SHORT : Int := -6
def ACCUDISC_ERR_UNSUPPORTED : Int := -7
def ACCUDISC_ERR_CANCELLED : Int := -8
def ACCUDISC_ERR_CRC : Int := -9
def ACCUDISC_ERR_NOTFOUND : Int := -10
def ACCUDISC_ERR_ABI : Int := -12
def ACCUDISC_ERR_NOT_BLANK : Int := -13
def ACCUDISC_ERR_WRITE_PARAMS : Int := -16

/-! A chain of checks `if c then .error e else rest`. -/

section
variable {ε α : Type} {c : Prop} [Decidable c] {e rc : ε} {rest : Except ε α} {a : α}

theorem check_eq_ok : (if c then .error e else rest) = .ok a ↔ ¬c ∧ rest = .ok a := by
  by_cases h : c <;> simp [h]

theorem check_error {P : ε → Prop} (h : (if c then .error e else rest) = .error rc) (he : P e)
    (hrest : rest = .error rc → P rc) : P rc := by
  by_cases hc : c
  · rw [if_pos hc] at h
    cases h
    exact he
  · rw [if_neg hc] at h
    exact hrest h

end

end Accudisc
