import Accudisc.Drive.SetSpeed
import Accudisc.Mmc.Proof.Cdb

/-!
# A read speed leaves the write rate alone (`device.c`)

A drive obeys the write rate of every descriptor that it takes. `stream_ceiling_write` is one descriptor,
with the rate that the drive reported in it; `SpeedKept` is a program of them, in which a refused SET
STREAMING is not tried again.
-/

namespace Accudisc

open BigEndian

/-! ## The descriptor -/

/-- **Round trip** of the descriptor. -/
theorem StreamDesc.decode_desc {x start_lba end_lba w : Nat} (exact : Bool) (hx : x ≠ 0)
    (hs : start_lba < 2 ^ 32)
    (he : end_lba < 2 ^ 32) (hw : w < 2 ^ 32) :
    StreamDesc.decode (adsc_cdb_set_streaming_desc x start_lba end_lba exact w) = some
      { rdd := false, exact := exact, start_lba := start_lba, end_lba := end_lba
        read_size := u32 (x * 1764) / 10, read_time := 1000, write_size := w, write_time := 1000 } := by
  have hread : u32 (x * 1764) / 10 < 2 ^ 32 := by
    unfold u32
    omega
  have hms : join [byte 1000 3, byte 1000 2, byte 1000 1, byte 1000 0] = 1000 := join_four (by decide)
  cases exact <;>
    simp [adsc_cdb_set_streaming_desc, hx, field, StreamDesc.decode, join_four hs,
      join_four he, join_four hw,
      join_four hread, hms]

section
variable {σ : Type} {host : SpeedHost σ} {write : σ → Nat} {fastest : Nat} {s t : SpeedDev σ}

/-- A drive that reports its write rate, and obeys the descriptors that it takes: 0 is the fastest rate. -/
structure SpeedHostHonest (host : SpeedHost σ) (write : σ → Nat) (fastest : Nat) : Prop where
  rate : ∀ x, 0 < write x ∧ write x < 2 ^ 16
  cur_write : ∀ x, write (host.cur_write_kbps x).2 = write x
  said : ∀ x k, (host.cur_write_kbps x).1 = some k → k = write x
  obeyed : ∀ desc d x, StreamDesc.decode desc = some d → d.rdd = false →
    (host.set_streaming desc x).1.1 = ACCUDISC_OK →
    write (host.set_streaming desc x).2 = if d.write_size = 0 then fastest
      else d.write_size * 1000 / d.write_time
  refused : ∀ desc x, (host.set_streaming desc x).1.1 ≠ ACCUDISC_OK →
    write (host.set_streaming desc x).2 = write x

/-! ## One setting -/

/-- The write rate is the same, unless the drive did not say it or the block layer was asked;
neither is undone. -/
structure WriteKept (write : σ → Nat) (s t : SpeedDev σ) : Prop where
  unsaid : s.unsaid ≤ t.unsaid
  selects : s.selects ≤ t.selects
  rate : t.unsaid = s.unsaid → t.selects = s.selects → write t.drive = write s.drive

theorem WriteKept.refl : WriteKept write s s := ⟨Nat.le_refl _, Nat.le_refl _, fun _ _ => rfl⟩

theorem WriteKept.trans {r : SpeedDev σ} (h : WriteKept write s t) (h' : WriteKept write t r) :
    WriteKept write s r where
  unsaid := Nat.le_trans h.unsaid h'.unsaid
  selects := Nat.le_trans h.selects h'.selects
  rate := by
    intro hu hs
    have h1 := h.unsaid
    have h2 := h'.unsaid
    have h3 := h.selects
    have h4 := h'.selects
    exact (h'.rate (by omega) (by omega)).trans (h.rate (by omega) (by omega))

theorem stream_ceiling_write (hh : SpeedHostHonest host write fastest)
    {x start_lba end_lba : Nat} (exact : Bool)
    (hx : x ≠ 0) (hs : start_lba < 2 ^ 32) (he : end_lba < 2 ^ 32) :
    WriteKept write s (stream_ceiling host x start_lba end_lba exact s).2 := by
  refine ⟨Nat.le_add_right .., Nat.le_refl _, fun hunsaid _ => ?_⟩
  unfold stream_ceiling at hunsaid ⊢
  dsimp only at hunsaid ⊢
  cases hw : (host.cur_write_kbps s.drive).1 with
  | none =>
    rw [hw] at hunsaid
    exact absurd hunsaid (by simp)
  | some k =>
    obtain rfl := hh.said _ _ hw
    have hrate := hh.rate s.drive
    have hdesc := StreamDesc.decode_desc exact hx hs he (show write s.drive < 2 ^ 32 by omega)
    rw [Option.getD_some]
    by_cases hok :
      (host.set_streaming (adsc_cdb_set_streaming_desc x start_lba end_lba exact (write s.drive))
        (host.cur_write_kbps s.drive).2).1.1 = ACCUDISC_OK
    · rw [hh.obeyed _ _ _ hdesc rfl hok, if_neg (show write s.drive ≠ 0 by omega)]
      exact Nat.mul_div_cancel _ (by decide)
    · rw [hh.refused _ _ hok]
      exact hh.cur_write _

/-- The block layer was asked. -/
theorem select_speed_write (x : Nat) : WriteKept write s (select_speed host x s).2 :=
  ⟨Nat.le_refl _, Nat.le_succ _, fun _ hs => absurd hs (Nat.succ_ne_self _)⟩

theorem u32_of_int_lt (lba : Int) : u32_of_int lba < 2 ^ 32 := by
  unfold u32_of_int
  omega

theorem accudisc_set_speed_write (hh : SpeedHostHonest host write fastest) {x : Nat} (hx : x ≠ 0) :
    WriteKept write s (accudisc_set_speed host x s).2 := by
  have hceil : WriteKept write s (stream_ceiling host x 0 0xFFFFFFFF false s).2 :=
    stream_ceiling_write hh false hx (by decide) (by decide)
  have hlatch :
    ∀ l, WriteKept write s { (stream_ceiling host x 0 0xFFFFFFFF false s).2 with streaming := l } :=
    fun l => ⟨hceil.unsaid, hceil.selects, hceil.rate⟩
  unfold accudisc_set_speed
  dsimp only
  by_cases hs : 0 ≤ s.streaming
  · rw [if_pos hs]
    by_cases hok : (stream_ceiling host x 0 0xFFFFFFFF false s).1.1 = ACCUDISC_OK
    · rw [if_pos hok]
      exact hlatch 1
    rw [if_neg hok]
    split
    · exact (hlatch (-1)).trans (select_speed_write x)
    · exact hceil.trans (select_speed_write x)
  · rw [if_neg hs]
    exact select_speed_write x

theorem speed_setting_write (hh : SpeedHostHonest host write fastest) (c : SpeedSetting) (hx : c.x ≠ 0) :
    WriteKept write s (speed_setting host s c) := by
  cases c with
  | SPEED x => exact accudisc_set_speed_write hh hx
  | RANGE x start_lba end_lba exact' =>
    exact stream_ceiling_write hh exact' hx (u32_of_int_lt start_lba) (u32_of_int_lt end_lba)

/-! ## A program of settings -/

def SpeedSetting.ranged : SpeedSetting → Bool
  | SPEED _ => false
  | RANGE _ _ _ _ => true

/-- Once SET STREAMING was found unusable, only a range is still asked for. -/
theorem speed_setting_latched (hl : s.streaming < 0) (c : SpeedSetting) :
    (speed_setting host s c).streaming < 0 ∧
      (speed_setting host s c).descs.length = s.descs.length + if c.ranged then 1 else 0 := by
  cases c with
  | SPEED x =>
    have hx : accudisc_set_speed host x s = select_speed host x s := if_neg (by omega)
    simp only [speed_setting, hx]
    exact ⟨hl, rfl⟩
  | RANGE x start_lba end_lba exact => exact ⟨hl, rfl⟩

/-- What a program of settings keeps. -/
structure SpeedKept (host : SpeedHost σ) (write : σ → Nat) (calls : List SpeedSetting) (s : SpeedDev σ) :
    Prop where
  write : (speed_settings host calls s).unsaid = s.unsaid →
    (speed_settings host calls s).selects = s.selects →
    write (speed_settings host calls s).drive = write s.drive
  latched : s.streaming < 0 → (speed_settings host calls s).streaming < 0 ∧
    (speed_settings host calls s).descs.length = s.descs.length + calls.countP SpeedSetting.ranged

theorem speed_settings_write (hh : SpeedHostHonest host write fastest) (calls : List SpeedSetting)
    (hx : ∀ c ∈ calls, c.x ≠ 0) : WriteKept write s (speed_settings host calls s) := by
  induction calls generalizing s with
  | nil => exact .refl
  | cons c calls ih =>
    obtain ⟨hc, hx⟩ := List.forall_mem_cons.1 hx
    exact (speed_setting_write hh c hc).trans (ih hx)

theorem speed_settings_latched (calls : List SpeedSetting) (hl : s.streaming < 0) :
    (speed_settings host calls s).streaming < 0 ∧
      (speed_settings host calls s).descs.length = s.descs.length + calls.countP SpeedSetting.ranged := by
  induction calls generalizing s with
  | nil => exact ⟨hl, rfl⟩
  | cons c calls ih =>
    obtain ⟨hc, hlen⟩ := @speed_setting_latched σ host s hl c
    obtain ⟨hrun, hrest⟩ := ih hc
    refine ⟨hrun, hrest.trans ?_⟩
    rw [hlen, List.countP_cons]
    omega

/-- **A read speed leaves the write rate alone**, over any program of settings with nonzero speeds in
which the drive reported its write rate each time and took SET STREAMING; and a handle that gave SET
STREAMING up does not try it again. -/
theorem speed_settings_kept (host : SpeedHost σ) (write : σ → Nat) (fastest : Nat)
    (hh : SpeedHostHonest host write fastest) (calls : List SpeedSetting) (hx : ∀ c ∈ calls, c.x ≠ 0)
      (s : SpeedDev σ) :
    SpeedKept host write calls s :=
  ⟨(speed_settings_write hh calls hx).rate, speed_settings_latched calls⟩

/-- Page 2A with a current write speed of 4234 kB/s. -/
def page_24x (i : Nat) : BitVec 8 :=
  if i = 1 then 36 else if i = 8 then 0x2a else if i = 9 then 28 else if i = 36 then 0x10
    else if i = 37 then 0x8a else 0

/-- A drive that writes at 24x only, and refuses a descriptor that asks for another rate. -/
def single_rate_host : SpeedHost Unit where
  mode_sense := fun x => (fun _ => ⟨ACCUDISC_OK, fun _ => 0, 0, page_24x⟩, x)
  set_streaming := fun desc x =>
    (if (StreamDesc.decode desc).map (fun d => (d.rdd, d.write_size, d.write_time)) =
      some (false, 4234, 1000) then
      (ACCUDISC_OK, {}) else (ACCUDISC_ERR_SENSE, { valid := true, key := 0x05 }), x)
  select_speed := fun _ x => (ACCUDISC_OK, x)

theorem single_rate_kbps (x : Unit) : single_rate_host.cur_write_kbps x = (some 4234, x) := by
  cases x
  decide +kernel

theorem single_rate_honest : SpeedHostHonest single_rate_host (fun _ => 4234) 8467 where
  rate := fun _ => by decide
  cur_write := fun _ => rfl
  said := by
    intro x k hk
    rw [single_rate_kbps] at hk
    exact (Option.some.inj hk).symm
  obeyed := by
    intro desc d x hd _ hok
    by_cases ht : (d.rdd, d.write_size, d.write_time) = (false, 4234, 1000)
    · simp only [Prod.mk.injEq] at ht
      rw [ht.2.1, ht.2.2]
      decide
    · unfold single_rate_host at hok
      dsimp only at hok
      rw [hd, Option.map_some, if_neg (fun h => ht (Option.some.inj h))] at hok
      exact absurd hok (by decide)
  refused := fun _ _ _ => rfl

theorem speed_settings_kept_single :
    SpeedKept single_rate_host (fun _ => 4234) [.SPEED 8, .RANGE 4 0 1000 true, .SPEED 40]
    { drive := () } :=
  speed_settings_kept single_rate_host _ 8467 single_rate_honest _ (by decide) _

end

end Accudisc
