import Accudisc.Lib.Lts
import Accudisc.Mmc.ReadCd

/-!
# Transfer shaping of READ CD

What one call can do is said once (`Shaped`, `read_cd_spec`): one command, exact or rounded, or a
rounded one refused and an exact one after it. `read_cd_shaped` is what follows for the calls made on
one handle, whatever the transport answers.
-/

namespace Accudisc

open Lts

/-- A command of the call `q` succeeded: GOOD, and all of the call's bytes came. -/
def ReadCdCmd.Good (q : ReadCdCall) (x : ReadCdCmd) : Prop :=
  x.reply.rc = ACCUDISC_OK ∧ q.exact + x.resid ≤ x.xfer

/-- The transport or the drive refused a command, for a reason that may be its length. -/
def ReadCdCmd.Refused (x : ReadCdCmd) : Prop :=
  (x.reply.rc = ACCUDISC_ERR_IO ∧ x.reply.driver_status % 16 ≠ 6) ∨
  (x.reply.rc = ACCUDISC_ERR_SENSE ∧ x.reply.sense.valid = true ∧ x.reply.sense.key = 5)

/-- The buffer holds what a GOOD command delivered. -/
def ReadCdCmd.Delivers (q : ReadCdCall) (x : ReadCdCmd) (b : Mem) : Prop :=
  x.Good q ∧ ∀ i < q.exact, b i = x.reply.data i

/-- An exact command, into the caller's buffer. -/
def ReadCdCmd.Exact (q : ReadCdCall) (x : ReadCdCmd) : Prop := x.dst = .caller ∧ x.xfer = q.exact

/-- A rounded command, into the bounce buffer, which is large enough. -/
def ReadCdCmd.Rounded (q : ReadCdCall) (x : ReadCdCmd) : Prop :=
  x.dst = .bounce ∧ q.exact < x.xfer ∧ x.xfer ≤ x.cap

/-- What a call on a handle whose `xfer_exact` is `latch` can do. -/
inductive Shaped (q : ReadCdCall) (latch : Int) (x : ReadCdResult) : Prop where
  /-- No command. -/
  | refused : x.cmds = [] → x.bytes = none → x.rc ≠ ACCUDISC_OK → x.dev.xfer_exact = latch →
      Shaped q latch x
  /-- One command that failed. -/
  | failed (cmd : ReadCdCmd) : x.cmds = [cmd] → (cmd.Exact q ∨ cmd.Rounded q ∧ latch ≠ 1 ∧ ¬cmd.Good q) →
      x.bytes = none → x.rc ≠ ACCUDISC_OK → x.dev.xfer_exact = latch → Shaped q latch x
  /-- One exact command. -/
  | exact (cmd : ReadCdCmd) (b : Mem) : x.cmds = [cmd] → cmd.Exact q → x.bytes = some b →
      cmd.Delivers q b → x.dev.xfer_exact = latch → Shaped q latch x
  /-- One rounded command. -/
  | rounded (cmd : ReadCdCmd) (b : Mem) : x.cmds = [cmd] → cmd.Rounded q → latch ≠ 1 → x.bytes = some b →
      cmd.Delivers q b → x.dev.xfer_exact = -1 → Shaped q latch x
  /-- A rounded command that failed before one had succeeded, and an exact one. -/
  | retried (cmd cmd₂ : ReadCdCmd) : x.cmds = [cmd, cmd₂] → cmd.Rounded q → ¬cmd.Good q → cmd₂.Exact q →
      latch = 0 → (x.rc = ACCUDISC_OK → x.bytes ≠ none) → (∀ b, x.bytes = some b → cmd₂.Delivers q b) →
      (x.dev.xfer_exact = 0 ∨ x.dev.xfer_exact = 1 ∧ cmd.Refused ∧ cmd₂.Good q) → Shaped q latch x

section
variable {env : MmcEnv} {q : ReadCdCall} {dev : MmcDev}

theorem exec_check_short_ok {rc : Int} {resid slack : Nat}
    (h : adsc_exec_check_short rc resid slack = ACCUDISC_OK) : rc = ACCUDISC_OK ∧ resid ≤ slack := by
  unfold adsc_exec_check_short at h
  split at h
  · exact absurd h (by decide)
  · rename_i hn
    exact ⟨h, Nat.not_lt.1 fun hr => hn ⟨h, hr⟩⟩

theorem exec_check_short_of {rc : Int} {resid slack : Nat} {e : Int} (he : e ≠ ACCUDISC_ERR_SHORT)
    (h : adsc_exec_check_short rc resid slack = e) : rc = e := by
  unfold adsc_exec_check_short at h
  split at h
  · exact absurd h.symm he
  · exact h

variable (env q dev) in
/-- What `read_cd_once` issues. -/
theorem read_cd_once_cmd (dst : XferDst) (exact xfer : Nat) :
    (read_cd_once env q dev dst exact xfer).1 =
      ⟨q.lba, q.nsec, q.sector_type, q.c2, q.sub, dst, xfer, dev.xfer_bounce_cap, env.exec dev.execs⟩ := rfl

variable (env q dev) in
/-- It succeeds exactly with a GOOD command that delivered the call's bytes. -/
theorem read_cd_once_good (dst : XferDst) {xfer : Nat} (hx : q.exact ≤ xfer) :
    (read_cd_once env q dev dst q.exact xfer).2.1 = ACCUDISC_OK ↔
      (read_cd_once env q dev dst q.exact xfer).1.Good q := by
  constructor
  · intro h
    obtain ⟨hrc, hle⟩ := exec_check_short_ok h
    refine ⟨hrc, ?_⟩
    change (read_cd_once env q dev dst q.exact xfer).1.resid ≤ xfer - q.exact at hle
    show q.exact + (read_cd_once env q dev dst q.exact xfer).1.resid ≤ xfer
    omega
  · rintro ⟨hrc, hle⟩
    show adsc_exec_check_short _ (read_cd_once env q dev dst q.exact xfer).1.resid (xfer - q.exact) = _
    unfold adsc_exec_check_short
    rw [if_neg]
    · exact hrc
    · rintro ⟨-, hlt⟩
      have : (read_cd_once env q dev dst q.exact xfer).1.xfer = xfer := rfl
      omega

theorem bounce_grow_xfer_exact (want : Nat) : (bounce_grow env dev want).xfer_exact = dev.xfer_exact := by
  unfold bounce_grow
  split
  · split <;> rfl
  · rfl

theorem round16_lt {n : Nat} (h : n % 16 ≠ 0) : n < round16 n := by
  unfold round16
  omega

variable (env q dev) in
/-- The first command's shape. -/
theorem read_cd_shape_spec :
    let s := read_cd_shape env dev q.exact
    s.2.2.xfer_exact = dev.xfer_exact ∧
    ((s.2.1 = .caller ∧ s.1 = q.exact) ∨
      (s.2.1 = .bounce ∧ q.exact < s.1 ∧ s.1 ≤ s.2.2.xfer_bounce_cap ∧ dev.xfer_exact ≠ 1)) := by
  unfold read_cd_shape
  split
  · rename_i h
    simp only
    split
    · rename_i hcap
      exact ⟨bounce_grow_xfer_exact _, .inr ⟨rfl, round16_lt h.2.1, hcap, h.1⟩⟩
    · exact ⟨bounce_grow_xfer_exact _, .inl ⟨rfl, rfl⟩⟩
  · exact ⟨rfl, .inl ⟨rfl, rfl⟩⟩

variable (env q dev) in
/-- A rounded command under suspicion that did not time out was refused. -/
theorem rounding_suspect_refused (dst : XferDst) (xfer : Nat)
    (h : rounding_suspect (read_cd_once env q dev dst q.exact xfer).2.2.2
      (read_cd_once env q dev dst q.exact xfer).2.1 = true) :
    (read_cd_once env q dev dst q.exact xfer).2.1 ≠ ACCUDISC_OK ∧
    ((read_cd_once env q dev dst q.exact xfer).2.2.1 = false →
      (read_cd_once env q dev dst q.exact xfer).1.Refused) := by
  unfold rounding_suspect at h
  split at h
  · rename_i hio
    rw [hio]
    refine ⟨by decide, fun ht => .inl ⟨exec_check_short_of (by decide) hio, fun h6 => ?_⟩⟩
    have hto : (read_cd_once env q dev dst q.exact xfer).2.2.1 =
        decide ((read_cd_once env q dev dst q.exact xfer).2.1 = ACCUDISC_ERR_IO ∧
          (env.exec dev.execs).driver_status % 16 = 6) := rfl
    rw [hto, decide_eq_false_iff_not] at ht
    exact ht ⟨hio, h6⟩
  · obtain ⟨hse, hv, hk⟩ := of_decide_eq_true h
    rw [hse]
    exact ⟨by decide, fun _ => .inr ⟨exec_check_short_of (by decide) hse, hv, hk⟩⟩

variable (env q dev) in
/-- **One call**, up to the record order. -/
theorem read_cd_transfer_spec : Shaped q dev.xfer_exact (read_cd_transfer env q dev) ∧
    ∀ b, (read_cd_transfer env q dev).bytes = some b →
      (read_cd_transfer env q dev).buf = b ∧ (read_cd_transfer env q dev).rc = ACCUDISC_OK := by
  have hs := read_cd_shape_spec env q dev
  unfold read_cd_transfer
  simp only at hs ⊢
  generalize read_cd_shape env dev q.exact = s at hs ⊢
  obtain ⟨xfer, dst, dev₁⟩ := s
  simp only at hs ⊢
  obtain ⟨hlatch, hshape⟩ := hs
  have hle : q.exact ≤ xfer := by
    rcases hshape with ⟨-, h⟩ | ⟨-, h, -⟩ <;> omega
  have hgood := read_cd_once_good env q dev₁ dst hle
  have hsusp := rounding_suspect_refused env q dev₁ dst xfer
  have hcmd := read_cd_once_cmd env q dev₁ dst q.exact xfer
  have hexact : (read_cd_once env q dev₁ dst q.exact xfer).2.2.2.xfer_exact = dev.xfer_exact := hlatch
  have hbounce : dst = .bounce → (read_cd_once env q dev₁ dst q.exact xfer).2.2.2.xfer_bounce =
      memcpy dev₁.xfer_bounce 0 (env.exec dev₁.execs).data 0 xfer := fun h => if_pos h
  generalize read_cd_once env q dev₁ dst q.exact xfer = y at hgood hsusp hcmd hexact hbounce ⊢
  obtain ⟨cmd, rc, timed_out, dev₂⟩ := y
  simp only at hgood hsusp hcmd hexact hbounce ⊢
  have hdata : cmd.reply.data = (env.exec dev₁.execs).data := by rw [hcmd]
  have hround : xfer ≠ q.exact → dst = .bounce ∧ cmd.Rounded q ∧ dev.xfer_exact ≠ 1 := fun hne => by
    rcases hshape with ⟨-, h⟩ | ⟨hd, hlt, hcap, h1⟩
    · exact absurd h hne
    · exact ⟨hd, ⟨by rw [hcmd, hd], by rw [hcmd]; exact hlt, by rw [hcmd]; exact hcap⟩, h1⟩
  have hcaller : xfer = q.exact → dst = .caller ∧ cmd.Exact q := fun he => by
    rcases hshape with ⟨hd, h⟩ | ⟨-, hlt, -⟩
    · exact ⟨hd, by rw [hcmd, hd], by rw [hcmd]; exact h⟩
    · omega
  by_cases hretry : xfer ≠ q.exact ∧ dev₂.xfer_exact = 0 ∧ rounding_suspect dev₂ rc = true
  · rw [if_pos hretry]
    obtain ⟨hne, h0, hsus⟩ := hretry
    obtain ⟨hbad, href⟩ := hsusp hsus
    obtain ⟨-, hr, -⟩ := hround hne
    have hgood₂ := read_cd_once_good env q dev₂ .caller (Nat.le_refl q.exact)
    have hcmd₂ := read_cd_once_cmd env q dev₂ .caller q.exact q.exact
    have hexact₂ : (read_cd_once env q dev₂ .caller q.exact q.exact).2.2.2.xfer_exact = dev₂.xfer_exact :=
      rfl
    generalize read_cd_once env q dev₂ .caller q.exact q.exact = z at hgood₂ hcmd₂ hexact₂ ⊢
    obtain ⟨cmd₂, rc₂, t₂, dev₃⟩ := z
    simp only at hgood₂ hcmd₂ hexact₂ ⊢
    refine ⟨.retried cmd cmd₂ rfl hr (fun hg => hbad (hgood.2 hg)) ⟨by rw [hcmd₂], by rw [hcmd₂]⟩
      (hexact.symm.trans h0) ?_ ?_ ?_, ?_⟩
    · intro hrc
      simp [show rc₂ = ACCUDISC_OK from hrc]
    · intro b hb
      simp only at hb
      split at hb
      · rename_i hrc
        obtain rfl := Option.some.inj hb
        exact ⟨hgood₂.1 hrc, fun i hi => by
          rw [memcpy_in (Nat.zero_le _) (by omega), Nat.zero_add, Nat.sub_zero]⟩
      · cases hb
    · split
      · rename_i hok
        exact .inr ⟨rfl, href (by simpa using hok.2), hgood₂.1 hok.1⟩
      · exact .inl (hexact₂.trans h0)
    · intro b hb
      split at hb
      · rename_i hrc
        exact ⟨Option.some.inj hb, hrc⟩
      · cases hb
  · rw [if_neg hretry]
    by_cases hrc : rc ≠ ACCUDISC_OK
    · rw [if_pos hrc]
      refine ⟨.failed cmd rfl ?_ rfl hrc hexact, nofun⟩
      by_cases he : xfer = q.exact
      · exact .inl (hcaller he).2
      · exact .inr ⟨(hround he).2.1, (hround he).2.2, fun hg => hrc (hgood.2 hg)⟩
    · rw [if_neg hrc]
      have hg := hgood.1 (not_not.1 hrc)
      by_cases he : xfer = q.exact
      · obtain ⟨hd, hex⟩ := hcaller he
        rw [if_neg (not_not.2 he), if_pos hd]
        refine ⟨.exact cmd _ rfl hex rfl ⟨hg, fun i hi => ?_⟩ hexact, fun b hb =>
          ⟨Option.some.inj hb, not_not.1 hrc⟩⟩
        rw [memcpy_in (Nat.zero_le _) (by omega), Nat.zero_add, Nat.sub_zero]
      · obtain ⟨hd, hr, h1⟩ := hround he
        rw [if_pos he]
        refine ⟨.rounded cmd _ rfl hr h1 rfl ⟨hg, fun i hi => ?_⟩ rfl, fun b hb =>
          ⟨Option.some.inj hb, not_not.1 hrc⟩⟩
        rw [memcpy_in (Nat.zero_le _) (by omega), Nat.zero_add, Nat.sub_zero, hbounce hd,
          memcpy_in (Nat.zero_le _) (by omega), Nat.zero_add, Nat.sub_zero, hdata]

/-- What the record order leaves alone. -/
theorem Shaped.congr {latch : Int} {x x' : ReadCdResult} (h : Shaped q latch x) (hrc : x.rc = ACCUDISC_OK)
    (hc : x'.cmds = x.cmds) (hb : x'.bytes = x.bytes) (hd : x'.dev.xfer_exact = x.dev.xfer_exact) :
    Shaped q latch x' := by
  cases h with
  | refused _ _ h => exact absurd hrc h
  | failed _ _ _ _ h => exact absurd hrc h
  | exact cmd b h₁ h₂ h₃ h₄ h₅ =>
    exact .exact cmd b (hc.trans h₁) h₂ (hb.trans h₃) h₄ (hd.trans h₅)
  | rounded cmd b h₁ h₂ h₃ h₄ h₅ h₆ =>
    exact .rounded cmd b (hc.trans h₁) h₂ h₃ (hb.trans h₄) h₅ (hd.trans h₆)
  | retried cmd cmd₂ h₁ h₂ h₃ h₄ h₅ h₆ h₇ h₈ =>
    exact .retried cmd cmd₂ (hc.trans h₁) h₂ h₃ h₄ h₅ (fun _ => hb ▸ h₆ hrc) (fun b h => h₇ b (hb ▸ h))
      (hd ▸ h₈)

/-- A good call has the bytes of a transfer. -/
theorem Shaped.bytes {latch : Int} {x : ReadCdResult} (h : Shaped q latch x) (hrc : x.rc = ACCUDISC_OK) :
    ∃ b, x.bytes = some b := by
  cases h with
  | refused _ _ h => exact absurd hrc h
  | failed _ _ _ _ h => exact absurd hrc h
  | exact cmd b _ _ h => exact ⟨b, h⟩
  | rounded cmd b _ _ _ h => exact ⟨b, h⟩
  | retried _ _ _ _ _ _ _ h => exact Option.ne_none_iff_exists'.1 (h hrc)

/-- A call's result, in the order the drive delivers or turned to MMC's. -/
def ReadCdCall.Ordered (q : ReadCdCall) (b out : Mem) : Prop :=
  out = b ∨ out = adsc_layout_to_mmc b q.nsec q.sector_len q.c2_len

theorem ReadCdCall.Ordered.ite {b : Mem} {p : Prop} [Decidable p] :
    q.Ordered b (if p then adsc_layout_to_mmc b q.nsec q.sector_len q.c2_len else b) := by
  split
  · exact .inr rfl
  · exact .inl rfl

variable (env q dev) in
/-- **One call.** -/
theorem read_cd_spec : Shaped q dev.xfer_exact (adsc_mmc_read_cd env q dev) ∧
    ((adsc_mmc_read_cd env q dev).rc = ACCUDISC_OK →
      ∃ b, (adsc_mmc_read_cd env q dev).bytes = some b ∧ q.Ordered b (adsc_mmc_read_cd env q dev).buf) := by
  unfold adsc_mmc_read_cd
  split
  · exact ⟨.refused rfl rfl (show ¬ACCUDISC_ERR_INVAL = ACCUDISC_OK by decide) rfl,
      fun h => absurd h (show ¬ACCUDISC_ERR_INVAL = ACCUDISC_OK by decide)⟩
  obtain ⟨hx, hbuf⟩ := read_cd_transfer_spec env q dev
  generalize read_cd_transfer env q dev = x at hx hbuf
  simp only
  by_cases hrc : x.rc ≠ ACCUDISC_OK
  · rw [if_pos hrc]
    exact ⟨hx, fun h => absurd h hrc⟩
  rw [if_neg hrc]
  have hrc : x.rc = ACCUDISC_OK := not_not.1 hrc
  obtain ⟨b, hb⟩ := hx.bytes hrc
  split
  · unfold read_cd_layout
    simp only
    by_cases hm : (adsc_layout_inspect x.buf q.nsec q.sector_len q.c2_len).misframed ≠ 0
    · rw [if_pos hm]
      exact ⟨hx.congr hrc rfl rfl rfl, fun h => absurd h (show ¬ ACCUDISC_ERR_IO = ACCUDISC_OK by decide)⟩
    · rw [if_neg hm]
      refine ⟨hx.congr hrc rfl rfl rfl, fun _ => ⟨b, hb, ?_⟩⟩
      obtain rfl := (hbuf b hb).1
      exact ReadCdCall.Ordered.ite
  · exact ⟨hx, fun _ => ⟨b, hb, .inl (hbuf b hb).1⟩⟩

end

/-! ## The calls on one handle -/

/-- A call in which a rounded transfer succeeded. -/
def RoundedGood (c : ReadCdCall × ReadCdResult) : Prop := ∃ cmd ∈ c.2.cmds, cmd.Rounded c.1 ∧ cmd.Good c.1

/-- What READ CD promises of the calls made on a handle. -/
structure MmcSys.Promise (s : MmcSys) : Prop where
  two : ∀ c ∈ s.calls, c.2.cmds.length ≤ 2
  lengths : ∀ c ∈ s.calls, ∀ cmd ∈ c.2.cmds, cmd.Exact c.1 ∨ cmd.Rounded c.1
  /-- Past the transfer, the bytes are those of one GOOD transfer of the call. -/
  delivered : ∀ c ∈ s.calls, ∀ b, c.2.bytes = some b → ∃ cmd ∈ c.2.cmds, cmd.Delivers c.1 b
  returned : ∀ c ∈ s.calls, c.2.rc = ACCUDISC_OK → ∃ b, c.2.bytes = some b ∧ c.1.Ordered b c.2.buf
  once : s.calls.Pairwise fun later earlier => RoundedGood earlier → later.2.cmds.length ≤ 1
  /-- The handle gives up rounding on a refusal where the exact length succeeded. -/
  switch : s.dev.xfer_exact = 1 → ∃ c ∈ s.calls, ∃ cmd cmd₂, c.2.cmds = [cmd, cmd₂] ∧
    cmd.Rounded c.1 ∧ cmd.Refused ∧ cmd₂.Exact c.1 ∧ cmd₂.Good c.1
  /-- For good. -/
  permanent : s.calls.Pairwise fun later earlier => earlier.2.dev.xfer_exact = 1 →
    later.2.dev.xfer_exact = 1 ∧ ∀ cmd ∈ later.2.cmds, cmd.Exact later.1

/-- The promise, and what the latch remembers of the calls. -/
structure MmcSys.Inv (s : MmcSys) : Prop extends s.Promise where
  proven : ∀ c ∈ s.calls, RoundedGood c → s.dev.xfer_exact = -1
  given_up : ∀ c ∈ s.calls, c.2.dev.xfer_exact = 1 → s.dev.xfer_exact = 1

section
variable {q : ReadCdCall} {latch : Int} {x : ReadCdResult}

theorem ReadCdCmd.Exact.not_rounded {cmd : ReadCdCmd} (h : cmd.Exact q) : ¬cmd.Rounded q :=
  fun hr => absurd (h.1.symm.trans hr.1) (by decide)

theorem Shaped.two (h : Shaped q latch x) : x.cmds.length ≤ 2 ∧ (latch ≠ 0 → x.cmds.length ≤ 1) := by
  cases h <;> simp_all

theorem Shaped.lengths (h : Shaped q latch x) : ∀ cmd ∈ x.cmds, cmd.Exact q ∨ cmd.Rounded q := by
  cases h with
  | refused hc => simp [hc]
  | failed cmd hc hs =>
    rw [hc, List.forall_mem_singleton]
    exact hs.imp_right And.left
  | exact cmd b hc he =>
    rw [hc, List.forall_mem_singleton]
    exact .inl he
  | rounded cmd b hc hr =>
    rw [hc, List.forall_mem_singleton]
    exact .inr hr
  | retried cmd cmd₂ hc hr _ he =>
    rw [hc, List.forall_mem_cons, List.forall_mem_singleton]
    exact ⟨.inr hr, .inl he⟩

theorem Shaped.delivered (h : Shaped q latch x) {b : Mem} (hb : x.bytes = some b) :
    ∃ cmd ∈ x.cmds, cmd.Delivers q b := by
  cases h with
  | refused _ hn => simp [hn] at hb
  | failed _ _ _ hn => simp [hn] at hb
  | exact cmd b' hc _ hb' hd =>
    obtain rfl := Option.some.inj (hb.symm.trans hb')
    exact ⟨cmd, by simp [hc], hd⟩
  | rounded cmd b' hc _ _ hb' hd =>
    obtain rfl := Option.some.inj (hb.symm.trans hb')
    exact ⟨cmd, by simp [hc], hd⟩
  | retried cmd cmd₂ hc _ _ _ _ _ hd => exact ⟨cmd₂, by simp [hc], hd b hb⟩

/-- A rounded transfer that succeeds is remembered. -/
theorem Shaped.proven (h : Shaped q latch x) (hg : RoundedGood (q, x)) : x.dev.xfer_exact = -1 := by
  obtain ⟨c, hm, hr, hgood⟩ := hg
  cases h with
  | refused hc => simp [hc] at hm
  | failed cmd hc hs =>
    obtain rfl : c = cmd := by simpa [hc] using hm
    rcases hs with he | ⟨-, -, hn⟩
    · exact absurd hr he.not_rounded
    · exact absurd hgood hn
  | exact cmd b hc he =>
    obtain rfl : c = cmd := by simpa [hc] using hm
    exact absurd hr he.not_rounded
  | rounded _ _ _ _ _ _ _ hd => exact hd
  | retried cmd cmd₂ hc _ hn he =>
    obtain rfl | rfl : c = cmd ∨ c = cmd₂ := by simpa [hc] using hm
    · exact absurd hgood hn
    · exact absurd hr he.not_rounded

theorem Shaped.keeps (h : Shaped q (-1) x) : x.dev.xfer_exact = -1 := by
  cases h with
  | refused _ _ _ hd | failed _ _ _ _ _ hd | exact _ _ _ _ _ _ hd | rounded _ _ _ _ _ _ _ hd => exact hd
  | retried _ _ _ _ _ _ h0 => cases h0

theorem Shaped.permanent (h : Shaped q 1 x) : x.dev.xfer_exact = 1 ∧ ∀ cmd ∈ x.cmds, cmd.Exact q := by
  cases h with
  | refused hc _ _ hd => exact ⟨hd, by simp [hc]⟩
  | failed cmd hc hs _ _ hd =>
    refine ⟨hd, ?_⟩
    rw [hc, List.forall_mem_singleton]
    exact hs.resolve_right fun h => h.2.1 rfl
  | exact cmd b hc he _ _ hd =>
    refine ⟨hd, ?_⟩
    rw [hc, List.forall_mem_singleton]
    exact he
  | rounded _ _ _ _ h1 => exact absurd rfl h1
  | retried _ _ _ _ _ _ h0 => cases h0

theorem Shaped.switch (h : Shaped q latch x) (hl : latch ≠ 1) (hx : x.dev.xfer_exact = 1) :
    ∃ cmd cmd₂, x.cmds = [cmd, cmd₂] ∧ cmd.Rounded q ∧ cmd.Refused ∧ cmd₂.Exact q ∧ cmd₂.Good q := by
  cases h with
  | refused _ _ _ hd | failed _ _ _ _ _ hd | exact _ _ _ _ _ _ hd => exact absurd (hd.symm.trans hx) hl
  | rounded _ _ _ _ _ _ _ hd => simp [hd] at hx
  | retried cmd cmd₂ hc hr _ he _ _ _ hd =>
    rcases hd with h0 | ⟨-, href, hg⟩
    · simp [h0] at hx
    · exact ⟨cmd, cmd₂, hc, hr, href, he, hg⟩

end

/-- Every call keeps the promise. -/
theorem MmcSys.Inv.call {env : MmcEnv} {s : MmcSys} (h : s.Inv) (q : ReadCdCall) :
    MmcSys.Inv ⟨(adsc_mmc_read_cd env q s.dev).dev, (q, adsc_mmc_read_cd env q s.dev) :: s.calls⟩ := by
  obtain ⟨hx, hret⟩ := read_cd_spec env q s.dev
  generalize adsc_mmc_read_cd env q s.dev = x at hx hret
  have hone : s.dev.xfer_exact = 1 → x.dev.xfer_exact = 1 ∧ ∀ cmd ∈ x.cmds, cmd.Exact q :=
    fun h1 => Shaped.permanent (h1 ▸ hx)
  exact {
    two := List.forall_mem_cons.2 ⟨hx.two.1, h.two⟩
    lengths := List.forall_mem_cons.2 ⟨hx.lengths, h.lengths⟩
    delivered := List.forall_mem_cons.2 ⟨fun b => hx.delivered, h.delivered⟩
    returned := List.forall_mem_cons.2 ⟨hret, h.returned⟩
    once := List.pairwise_cons.2
      ⟨fun c hc hg => hx.two.2 (by rw [h.proven c hc hg]; decide), h.once⟩
    switch := fun h1 => by
      by_cases hl : s.dev.xfer_exact = 1
      · obtain ⟨c, hc, hsw⟩ := h.switch hl
        exact ⟨c, List.mem_cons_of_mem _ hc, hsw⟩
      · exact ⟨(q, x), List.mem_cons_self .., hx.switch hl h1⟩
    permanent := List.pairwise_cons.2 ⟨fun c hc h1 => hone (h.given_up c hc h1), h.permanent⟩
    proven := List.forall_mem_cons.2
      ⟨hx.proven, fun c hc hg => Shaped.keeps (h.proven c hc hg ▸ hx)⟩
    given_up := List.forall_mem_cons.2 ⟨id, fun c hc h1 => (hone (h.given_up c hc h1)).1⟩ }

end Accudisc
