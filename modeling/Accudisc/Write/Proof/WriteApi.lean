import Accudisc.Write.Proof.BurnBlocks
import Accudisc.Write.WriteApi

/-!
# The budget of live burns

A live burn is counted when it ended well, so the budget bounds the burns that spend a pass exactly where
each of these ends well (`write_budget_bounds`).
-/

namespace Accudisc

/-- The commands that fire the laser. -/
def BurnCmd.fires : BurnCmd → Bool
  | .send_opc | .write10 .. => true
  | _ => false

/-- The drive took one. -/
def Sent.spends (x : Sent) : Bool := x.cmd.fires && decide (x.answer.rc = ACCUDISC_OK)

def WriteDone.isWrite : WriteDone → Bool
  | .wrote .. => true
  | .budget _ => false

/-- A live burn in which the drive took one. -/
def WriteDone.spends : WriteDone → Bool
  | .wrote _ c w => !c.opts.simulate && w.log.any Sent.spends
  | .budget _ => false

/-- From each budget to the next, no more than its number of calls spend a pass. -/
def Bounded (h : List WriteDone) : Prop :=
  ∀ pre n post, h = pre ++ .budget n :: post → n ≠ 0 →
    (post.takeWhile WriteDone.isWrite).countP WriteDone.spends ≤ n.toNat

/-- A call that comes to a spent budget is refused, and sends nothing. -/
def Refuses (h : List WriteDone) : Prop :=
  ∀ dev c w, .wrote dev c w ∈ h → c.abi = ACCUDISC_OK → c.args = true → over_budget dev c = true →
    w.rc = ACCUDISC_ERR_WRITE_BUDGET ∧ w.log = [] ∧ w.dev = dev

/-- The burn of a call, when the call gets as far. -/
structure WriteCall.Burns (c : WriteCall) (rc : Int) (s : Burn) : Prop where
  abi : c.abi = ACCUDISC_OK
  args : c.args = true
  burn : ∃ m, write_open c = .ok m ∧ adsc_write_run c.env m.1 c.opts c.fuel = (some rc, s)

/-- A live burn in which the drive takes one of those commands ends well. -/
def WriteCall.EndsWell (c : WriteCall) : Prop :=
  c.opts.simulate = false → ∀ rc s, c.Burns rc s → s.log.any Sent.spends = true → ACCUDISC_OK ≤ rc

section
variable {dev : WriteDev} {c : WriteCall} {w : WriteReturn} {n : BitVec 32} {calls : List WriteApi}
  {h : List WriteDone} {rc : Int} {s : Burn}

/-- **What a call can do**: it sends nothing and leaves the count, or it burns. -/
theorem accudisc_write_cases (hw : accudisc_write dev c = some w) :
    (w.log = [] ∧ w.dev = dev) ∨ (over_budget dev c = false ∧ ∃ rc s, c.Burns rc s ∧ w.log = s.log ∧
      w.dev = if c.opts.simulate = false ∧ ACCUDISC_OK ≤ rc then
        adsc_write_health_record dev else dev) := by
  unfold accudisc_write at hw
  by_cases habi : c.abi = ACCUDISC_OK
  case neg =>
    rw [if_pos habi] at hw
    cases hw
    exact .inl ⟨rfl, rfl⟩
  rw [if_neg (not_not.2 habi)] at hw
  cases hargs : c.args with
  | false =>
    rw [if_pos hargs] at hw
    cases hw
    exact .inl ⟨rfl, rfl⟩
  | true =>
    rw [if_neg (by rw [hargs]; decide)] at hw
    cases hover : over_budget dev c with
    | true =>
      rw [if_pos hover] at hw
      cases hw
      exact .inl ⟨rfl, rfl⟩
    | false =>
      rw [if_neg (by rw [hover]; decide)] at hw
      cases hm : write_open c with
      | error rc =>
        rw [hm] at hw
        cases hw
        exact .inl ⟨rfl, rfl⟩
      | ok m =>
        rw [hm] at hw
        rcases hrun : adsc_write_run c.env m.1 c.opts c.fuel with ⟨_ | rc, s⟩ <;>
          simp only [hrun, Option.map_none, Option.map_some] at hw
        · cases hw
        · cases hw
          exact .inr ⟨rfl, rc, s, ⟨habi, hargs, m, hm, hrun⟩, rfl, rfl⟩

/-- The other way: a call that is not over the budget burns. -/
theorem WriteCall.Burns.returns (hb : c.Burns rc s) (hover : over_budget dev c = false) :
    ∃ w, accudisc_write dev c = some w ∧ w.log = s.log ∧
      w.dev = if c.opts.simulate = false ∧ ACCUDISC_OK ≤ rc then adsc_write_health_record dev else dev := by
  obtain ⟨habi, hargs, m, hm, hrun⟩ := hb
  unfold accudisc_write
  rw [if_neg (not_not.2 habi), if_neg (by rw [hargs]; decide), if_neg (by rw [hover]; decide), hm]
  simp only [hrun, Option.map_some]
  exact ⟨_, rfl, rfl, rfl⟩

theorem accudisc_write_refused (habi : c.abi = ACCUDISC_OK) (hargs : c.args = true)
    (hover : over_budget dev c = true) (hw : accudisc_write dev c = some w) :
    w.rc = ACCUDISC_ERR_WRITE_BUDGET ∧ w.log = [] ∧ w.dev = dev := by
  unfold accudisc_write at hw
  rw [if_neg (not_not.2 habi), if_neg (by rw [hargs]; decide), if_pos hover] at hw
  cases hw
  exact ⟨rfl, rfl, rfl⟩

theorem write_calls_budget (hrun : write_calls dev (.set_write_budget n :: calls) = some h) :
    ∃ h', write_calls (accudisc_set_write_budget n) calls = some h' ∧ h = .budget n :: h' := by
  obtain ⟨h', hrun', heq⟩ := Option.map_eq_some_iff.1 hrun
  exact ⟨h', hrun', heq.symm⟩

theorem write_calls_write (hrun : write_calls dev (.write c :: calls) = some h) :
    ∃ w h', accudisc_write dev c = some w ∧ write_calls w.dev calls = some h' ∧
      h = .wrote dev c w :: h' := by
  unfold write_calls at hrun
  cases hw : accudisc_write dev c with
  | none => simp only [hw, reduceCtorEq] at hrun
  | some w =>
    simp only [hw] at hrun
    obtain ⟨h', hrun', heq⟩ := Option.map_eq_some_iff.1 hrun
    exact ⟨w, h', rfl, hrun', heq.symm⟩

/-- **Until the next budget**: what was spent and what was counted before stay within it. -/
theorem budget_segment (hK : ∀ c, .write c ∈ calls → c.EndsWell) (hrun : write_calls dev calls = some h)
    (hn : n ≠ 0) (hbudget : dev.wr_budget = n) (hlive : dev.wr_live ≤ n) :
    (h.takeWhile WriteDone.isWrite).countP WriteDone.spends + dev.wr_live.toNat ≤ n.toNat := by
  induction calls generalizing dev h with
  | nil =>
    cases hrun
    simpa using BitVec.le_def.1 hlive
  | cons call calls ih =>
    have hK' : ∀ c, .write c ∈ calls → c.EndsWell := fun c hc => hK c (List.mem_cons_of_mem _ hc)
    cases call with
    | set_write_budget m =>
      obtain ⟨h', -, rfl⟩ := write_calls_budget hrun
      simpa [WriteDone.isWrite] using BitVec.le_def.1 hlive
    | write c =>
      obtain ⟨w, h', hw, hrun', rfl⟩ := write_calls_write hrun
      rw [List.takeWhile_cons_of_pos (by rfl), List.countP_cons]
      rcases accudisc_write_cases hw with ⟨hlog, hdev⟩ | ⟨hover, rc, s, hburn, hlog, hdev⟩
      · have := ih hK' hrun' (by rw [hdev, hbudget]) (by rwa [hdev])
        rw [hdev] at this
        simpa [WriteDone.spends, hlog] using this
      · by_cases hcount : c.opts.simulate = false ∧ ACCUDISC_OK ≤ rc
        · -- a live burn that was counted had room for one more
          have hroom : dev.wr_live.toNat < n.toNat := by
            simp only [over_budget, hcount.1, hbudget, hn, ne_eq, not_false_eq_true, true_and,
              decide_eq_false_iff_not, BitVec.le_def] at hover
            omega
          rw [if_pos hcount] at hdev
          have hnext : w.dev.wr_live.toNat = dev.wr_live.toNat + 1 := by
            rw [hdev]
            show (dev.wr_live + 1).toNat = _
            rw [BitVec.toNat_add]
            have := n.isLt
            exact Nat.mod_eq_of_lt (show dev.wr_live.toNat + 1 < 2 ^ 32 by omega)
          have := ih hK' hrun' (by rw [hdev]; exact hbudget) (BitVec.le_def.2 (by omega))
          split <;> omega
        · rw [if_neg hcount] at hdev
          have hspends : WriteDone.spends (.wrote dev c w) = false := by
            rw [← Bool.not_eq_true]
            intro hs
            simp only [WriteDone.spends, Bool.and_eq_true, Bool.not_eq_true', hlog] at hs
            exact hcount ⟨hs.1, hK c (List.mem_cons_self ..) hs.1 rc s hburn hs.2⟩
          have := ih hK' hrun' (by rw [hdev, hbudget]) (by rwa [hdev])
          rw [hdev] at this
          simpa [hspends] using this

theorem bounded_of_endsWell (hK : ∀ c, .write c ∈ calls → c.EndsWell)
    (hrun : write_calls dev calls = some h) :
    Bounded h := by
  induction calls generalizing dev h with
  | nil =>
    cases hrun
    rintro pre n post heq -
    simp at heq
  | cons call calls ih =>
    have hK' : ∀ c, .write c ∈ calls → c.EndsWell := fun c hc => hK c (List.mem_cons_of_mem _ hc)
    cases call with
    | set_write_budget m =>
      obtain ⟨h', hrun', rfl⟩ := write_calls_budget hrun
      intro pre n post heq hn
      cases pre with
      | nil =>
        cases heq
        exact budget_segment hK' hrun' hn rfl (BitVec.le_def.2 (Nat.zero_le _))
      | cons x pre =>
        cases heq
        exact ih hK' hrun' pre n post rfl hn
    | write c =>
      obtain ⟨w, h', hw, hrun', rfl⟩ := write_calls_write hrun
      intro pre n post heq hn
      cases pre with
      | nil => cases heq
      | cons x pre =>
        cases heq
        exact ih hK' hrun' pre n post rfl hn

theorem refuses (hrun : write_calls dev calls = some h) : Refuses h := by
  induction calls generalizing dev h with
  | nil =>
    cases hrun
    intro _ _ _ hmem
    exact absurd hmem List.not_mem_nil
  | cons call calls ih =>
    cases call with
    | set_write_budget m =>
      obtain ⟨h', hrun', rfl⟩ := write_calls_budget hrun
      intro dev' c w hmem
      exact ih hrun' dev' c w ((List.mem_cons.1 hmem).resolve_left (by simp))
    | write c =>
      obtain ⟨w, h', hw, hrun', rfl⟩ := write_calls_write hrun
      intro dev' c' w' hmem habi hargs hover
      rcases List.mem_cons.1 hmem with heq | hmem
      · cases heq
        exact accudisc_write_refused habi hargs hover hw
      · exact ih hrun' dev' c' w' hmem habi hargs hover

end

/-- **The write budget** bounds every history of calls of a kind exactly where each live burn of the kind in
which the drive takes a WRITE(10) or SEND OPC ends well; a refused call sends nothing. -/
theorem write_budget_bounds (K : WriteCall → Prop) :
    (∀ calls h, (∀ c, .write c ∈ calls → K c) → write_calls {} calls = some h → Bounded h ∧ Refuses h) ↔
      ∀ c, K c → c.EndsWell := by
  constructor
  · intro hall c hc hlive rc s hburn hspends
    by_contra hbad
    have hunder : over_budget (accudisc_set_write_budget 1) c = false := by
      simp only [over_budget, accudisc_set_write_budget, hlive]
      decide
    obtain ⟨w, hw, hlog, hdev⟩ := hburn.returns hunder
    rw [if_neg fun h => hbad h.2] at hdev
    -- the same burn twice, on a budget of one
    have hrun : write_calls {} [.set_write_budget 1, .write c, .write c] =
        some [.budget 1, .wrote (accudisc_set_write_budget 1) c w,
          .wrote (accudisc_set_write_budget 1) c w] := by
      simp only [write_calls, hw, hdev, Option.map_some]
    have hcalls : ∀ c', WriteApi.write c' ∈ [.set_write_budget 1, .write c, .write c] → K c' := by
      intro c' hc'
      simp only [List.mem_cons, reduceCtorEq, WriteApi.write.injEq, List.not_mem_nil, or_false, false_or,
        or_self] at hc'
      rwa [hc']
    have := (hall _ _ hcalls hrun).1 [] 1 _ rfl (by decide)
    have htwice : WriteDone.spends (.wrote (accudisc_set_write_budget 1) c w) = true := by
      simp only [WriteDone.spends, hlive, hlog, hspends, Bool.not_false, Bool.and_self]
    rw [List.takeWhile_cons_of_pos (by rfl), List.takeWhile_cons_of_pos (by rfl),
      List.countP_cons_of_pos htwice,
      List.countP_cons_of_pos htwice] at this
    exact absurd this (by decide)
  · intro hK calls h hcalls hrun
    exact ⟨bounded_of_endsWell (fun c hc => hK c (hcalls c hc)) hrun, refuses hrun⟩

/-! ## What a burn is given -/

theorem block_count_le (n : Nat) : adsc_cdtext_rw_block_count n ≤ n := by
  unfold adsc_cdtext_rw_block_count
  split
  · exact Nat.zero_le n
  · exact Nat.div_le_self ..

/-- The CD-Text that comes to a burn has passed its check, so its ring of blocks is far from the range of
its 32-bit indices. -/
theorem write_open_fits {c : WriteCall} {m : WriteToc × Bool} {cdtext : Mem} {len : Nat}
    (hm : write_open c = .ok m) (htext : m.1.text = some (cdtext, len)) :
    adsc_cdtext_rw_block_count ((len - 4) / ADSC_CDTEXT_PACK_BYTES) * ADSC_RW_BLOCK_BYTES ≤ 2 ^ 32 := by
  have hlen : len ≤ 0x10001 := by
    unfold write_open adsc_write_load_model at hm
    rw [check_eq_ok] at hm
    obtain ⟨-, hm⟩ := hm
    cases htoc : c.toc with
    | error rc => simp [htoc, bind, Except.bind] at hm
    | ok toc =>
      cases hfile : c.cdtext_file with
      | none =>
        simp only [htoc, hfile, bind, Except.bind] at hm
        split at hm <;> cases hm
        cases htext
      | some file =>
        cases file with
        | error rc => simp [htoc, hfile, bind, Except.bind] at hm
        | ok blob =>
          simp only [htoc, hfile, bind, Except.bind] at hm
          cases hv : adsc_cdtext_blob_validate blob.1 blob.2 with
          | error e => simp [hv] at hm
          | ok st =>
            simp only [hv] at hm
            split at hm <;> cases hm
            simp only [WriteToc.text, Option.filter_some] at htext
            split at htext <;> cases htext
            exact blob_len_le hv
  have hcount := block_count_le ((len - 4) / ADSC_CDTEXT_PACK_BYTES)
  have hpacks := Nat.div_le_div_right (c := ADSC_CDTEXT_PACK_BYTES) (show len - 4 ≤ 0xfffd by omega)
  refine Nat.le_trans (Nat.mul_le_mul_right _ (Nat.le_trans hcount hpacks)) ?_
  decide

open Exit History in
/-- So the CD-Text of an opened call goes out as its ring of blocks, whatever its length and the
drive's answers. -/
theorem write_open_leadin {c : WriteCall} {m : WriteToc × Bool} {cdtext : Mem} {len : Nat}
    (hm : write_open c = .ok m) (htext : m.1.text = some (cdtext, len)) (env : BurnEnv)
      (di : DiscInfo) (s : Burn) :
    let start := -(LEADIN_GAP : Int) - di.leadin_len
    let block := LeadinBlock (ptr cdtext 4) ((len - 4) / ADSC_CDTEXT_PACK_BYTES) start
    let r := out (write_cdtext_leadin env cdtext len di) s
    ∃ newer b, r.2.log = newer ++ s.log ∧ Tiles block start (accepted newer) b ∧
      Always (Tried block start) newer ∧
      b ≤ -(LEADIN_GAP : Int) ∧ (r.1 = .ok () → b = -(LEADIN_GAP : Int)) := by
  intro start block r
  exact wrote_wire (write_cdtext_leadin_tri s.log start env cdtext
    (write_open_fits hm htext) fun _ _ _ _ hblk => hblk)

/-! ## Burns that are not counted -/

/-- A drive that holds the page of a live burn, takes SEND OPC and refuses the cue sheet. -/
def refusing_drive (i : Nat) : DriveAnswer :=
  if i = 12 then ⟨ACCUDISC_ERR_SENSE, fun _ => 0, 0, fun _ => 0⟩
  else ⟨ACCUDISC_OK, fun _ => 0, 0, fun i => [0, 22, 0, 0, 0, 0, 0, 0, 0x05, 14, 0x02].getD i 0⟩

/-- A live burn of one track on it. -/
def refused_burn : WriteCall where
  abi := ACCUDISC_OK
  args := true
  toc_alloc := true
  toc := .ok ⟨[], 300, [⟨true, false, false, [], 0, 0, 300, 0⟩], none⟩
  cdtext_file := none
  bin_open := true
  opts := ⟨false, false, 0, .OFF, 0⟩
  env := ⟨refusing_drive, true, true, ACCUDISC_OK, ACCUDISC_OK, ACCUDISC_OK, fun _ =>
    ⟨0, fun _ => 0, false⟩,
    ⟨fun _ => 0, fun _ _ => true⟩, false⟩
  fuel := 0

-- the run below evaluates the loop
attribute [local semireducible] exec_loop

theorem refused_burn_twice :
    ∃ h, write_calls {} [.set_write_budget 1, .write refused_burn, .write refused_burn] = some h ∧
      ¬Bounded h := by
  refine ⟨_, rfl, fun hb => ?_⟩
  exact absurd (hb [] 1 _ rfl (by decide)) (by decide)

end Accudisc
