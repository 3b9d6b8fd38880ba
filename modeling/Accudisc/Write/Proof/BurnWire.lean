import Accudisc.Write.Proof.Burn

/-!
# No write command is sent twice

The commands of a burn that are not on the allowlist of `adsc_dev_exec` stand on the wire exactly as
the burn asked for them.
-/

namespace Accudisc

/-- The commands that may not be repeated, of a list of commands and answers. -/
def unrepeatable (l : List (BurnCmd × DriveAnswer)) : List (BurnCmd × DriveAnswer) :=
  l.filter fun x => !adsc_op_repeatable x.1.op

/-- What was asked for, command by command. -/
def Burn.asked (s : Burn) : List (BurnCmd × DriveAnswer) := s.log.map fun x => (x.cmd, x.answer)

/-- Every transmission that may not be repeated is one that was asked for. -/
def Burn.NoResend (s : Burn) : Prop := unrepeatable s.dev.wire = unrepeatable s.asked

theorem Burn.NoResend.send {s : Burn} {answers : Nat → DriveAnswer} {cmd : BurnCmd} (h : s.NoResend) :
    (s.send answers cmd).NoResend := by
  obtain ⟨tries, hlaw⟩ : ∃ tries, ExecLaw answers BurnCmd.op cmd s.dev
    (adsc_dev_exec answers BurnCmd.op cmd s.dev)
      tries := adsc_dev_exec_law
  unfold Burn.NoResend at h ⊢
  show unrepeatable (adsc_dev_exec answers BurnCmd.op cmd s.dev).2.wire =
    unrepeatable ((cmd, (adsc_dev_exec answers BurnCmd.op cmd s.dev).1) :: s.asked)
  rw [hlaw.wire, hlaw.result]
  unfold unrepeatable at h ⊢
  rw [List.filter_append, h]
  cases hop : adsc_op_repeatable cmd.op with
  | true =>
    rw [List.filter_cons_of_neg (by simp [hop]), List.filter_eq_nil_iff.2, List.nil_append]
    intro x hx
    obtain ⟨i, -, rfl⟩ := List.mem_map.1 hx
    simp [hop]
  | false =>
    obtain rfl := hlaw.once hop
    rw [List.filter_cons_of_pos (by simp [hop])]
    simp [hop]

theorem adsc_write_run_noResend (env : BurnEnv) (toc : WriteToc) (opts : BurnOpts) (fuel : Nat) :
    (adsc_write_run env toc opts fuel).2.NoResend :=
  adsc_write_run_keeps (I := Burn.NoResend) (fun _ _ h => h.send)
    (fun s s' hw hl h => by
      unfold Burn.NoResend Burn.asked at h ⊢
      rw [hw, hl, h]) rfl fuel

theorem op_not_repeatable {cmd : BurnCmd}
    (h : cmd.op = 0x2a ∨ cmd.op = 0x54 ∨ cmd.op = 0x5d ∨ cmd.op = 0x55) :
    adsc_op_repeatable cmd.op = false := by
  rcases h with h | h | h | h <;> rw [h] <;> decide

/-- **Command repetition**: a command is sent again only as `ExecLaw` allows, and no WRITE(10), SEND OPC,
SEND CUE SHEET or MODE SELECT of a burn is on the wire but where the burn asked for it. -/
theorem adsc_dev_exec_repeats :
    (∀ (κ : Type) (answers : Nat → DriveAnswer) (op : κ → BitVec 8) (cmd : κ) (dev : Dev κ),
      ∃ tries, ExecLaw answers op cmd dev (adsc_dev_exec answers op cmd dev) tries) ∧
    ∀ (env : BurnEnv) (toc : WriteToc) (opts : BurnOpts) (fuel : Nat) (p : BurnCmd × DriveAnswer → Bool),
      (∀ x, p x = true → x.1.op = 0x2a ∨ x.1.op = 0x54 ∨ x.1.op = 0x5d ∨ x.1.op = 0x55) →
      (adsc_write_run env toc opts fuel).2.dev.wire.filter p =
        (adsc_write_run env toc opts fuel).2.asked.filter p := by
  refine ⟨fun κ answers op cmd dev => adsc_dev_exec_law, fun env toc opts fuel p hp => ?_⟩
  have hrun := adsc_write_run_noResend env toc opts fuel
  have hsub (l : List (BurnCmd × DriveAnswer)) : l.filter p = (unrepeatable l).filter p := by
    unfold unrepeatable
    rw [List.filter_filter]
    refine List.filter_congr fun x _ => ?_
    cases hx : p x with
    | true => rw [op_not_repeatable (hp x hx)]; rfl
    | false => rfl
  rw [hsub, hsub (Burn.asked _), hrun]

end Accudisc
