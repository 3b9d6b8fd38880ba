import Accudisc.Write.Health
import Mathlib

/-!
# The health of a handle compares rates

After any calls the mask compares the last burn with the first that wrote anything: time for each
sector by the payload's tolerance, hold-off by its own. The code does it in 64 bits; the figures of a
disc do not wrap them.
-/

namespace Accudisc

/-- Milliseconds for each sector. -/
def BurnFigures.rate (f : BurnFigures) : ℚ := f.payload_ms.toNat / f.sectors.toNat

/-- The last burn and the calls before it. -/
def last_burn : List HealthCall → Option (BurnFigures × List HealthCall)
  | [] => none
  | .BUDGET _ :: calls => last_burn calls
  | .BURN f :: calls => some (f, calls)

/-- The first burn that wrote anything. -/
def first_burn : List HealthCall → Option BurnFigures
  | [] => none
  | .BUDGET _ :: calls => first_burn calls
  | .BURN f :: calls => (first_burn calls).or (if f.sectors = 0 then none else some f)

/-- The burns since the budget was set. -/
def live_burns : List HealthCall → Nat
  | [] => 0
  | .BUDGET _ :: _ => 0
  | .BURN _ :: calls => live_burns calls + 1

/-- What the mask says of a burn. -/
structure AnomalyTold (base last : BurnFigures) (mask : BitVec 32) : Prop where
  payload : mask &&& ACCUDISC_WRITE_ANOMALY_PAYLOAD ≠ 0 ↔
    last.sectors ≠ 0 ∧ base.payload_ms ≠ 0 ∧ 1.3 * base.rate < last.rate
  settle : mask &&& ACCUDISC_WRITE_ANOMALY_SETTLE ≠ 0 ↔
    base.settle_ms ≠ 0 ∧ (1.25 : ℚ) * base.settle_ms.toNat < last.settle_ms.toNat
  nothing_else : mask &&& ~~~(ACCUDISC_WRITE_ANOMALY_PAYLOAD ||| ACCUDISC_WRITE_ANOMALY_SETTLE) = 0

/-- **The health after any calls.** -/
structure HealthTold (calls : List HealthCall) : Prop where
  live : (write_health calls).wr_live = BitVec.ofNat 32 (live_burns calls)
  base : ∀ b, first_burn calls = some b → (write_health calls).wr_base = b
  last : ∀ f older, last_burn calls = some (f, older) → (write_health calls).wr_last = f
  quiet : ∀ f older, last_burn calls = some (f, older) → first_burn older = none →
    (write_health calls).wr_anomaly = 0
  anomaly : ∀ f older b, last_burn calls = some (f, older) → first_burn older = some b →
    AnomalyTold b f (write_health calls).wr_anomaly

section
variable {base last : BurnFigures}

theorem product_toNat {a b : BitVec 32} {c : Nat} (hb : b.toNat < 2 ^ 24) (hc : c ≤ 130) :
    (a.setWidth 64 * b.setWidth 64 * BitVec.ofNat 64 c).toNat = a.toNat * b.toNat * c := by
  have ha := a.isLt
  have hab : a.toNat * b.toNat < 2 ^ 32 * 2 ^ 24 := Nat.mul_lt_mul'' ha hb
  have habc : a.toNat * b.toNat * c ≤ 2 ^ 32 * 2 ^ 24 * 130 := Nat.mul_le_mul (Nat.le_of_lt hab) hc
  rw [BitVec.toNat_mul, BitVec.toNat_mul, BitVec.toNat_setWidth, BitVec.toNat_setWidth, BitVec.toNat_ofNat,
    Nat.mod_eq_of_lt (show a.toNat < 2 ^ 64 by omega), Nat.mod_eq_of_lt (show b.toNat < 2 ^ 64 by omega),
    Nat.mod_eq_of_lt (show c < 2 ^ 64 by omega),
      Nat.mod_eq_of_lt (show a.toNat * b.toNat < 2 ^ 64 by omega),
    Nat.mod_eq_of_lt (by omega)]

/-- No product wraps, so the comparison is that of the rates. -/
theorem payload_regressed_iff (hb : base.sectors.toNat < 2 ^ 24) (hl : last.sectors.toNat < 2 ^ 24)
    (hbase : base.sectors ≠ 0) :
    payload_regressed base last = true ↔ last.sectors ≠ 0 ∧ base.payload_ms ≠ 0 ∧
      1.3 * base.rate < last.rate := by
  have hpos : ∀ {s : BitVec 32}, s ≠ 0 → (0 : ℚ) < s.toNat := by
    intro s hs
    have hnat : 0 < s.toNat := Nat.pos_of_ne_zero fun h => hs (BitVec.eq_of_toNat_eq h)
    exact_mod_cast hnat
  have hrates : last.sectors ≠ 0 → (last.payload_ms.setWidth 64 * base.sectors.setWidth 64 * 100 >
      base.payload_ms.setWidth 64 * last.sectors.setWidth 64 * ACCUDISC_WRITE_PAYLOAD_TOL ↔
        1.3 * base.rate < last.rate) := by
    intro hlast
    have hlt : (last.payload_ms.setWidth 64 * base.sectors.setWidth 64 * 100 >
        base.payload_ms.setWidth 64 * last.sectors.setWidth 64 * ACCUDISC_WRITE_PAYLOAD_TOL) ↔
        base.payload_ms.toNat * last.sectors.toNat * 130 < last.payload_ms.toNat *
          base.sectors.toNat * 100 := by
      rw [gt_iff_lt, BitVec.lt_def, ACCUDISC_WRITE_PAYLOAD_TOL]
      have h1 : (base.payload_ms.setWidth 64 * last.sectors.setWidth 64 * (130 : BitVec 64)).toNat = _ :=
        product_toNat hl (by decide : (130 : Nat) ≤ 130)
      have h2 : (last.payload_ms.setWidth 64 * base.sectors.setWidth 64 * (100 : BitVec 64)).toNat = _ :=
        product_toNat hb (by decide : (100 : Nat) ≤ 130)
      rw [h1, h2]
    have hq : (1.3 * base.rate < last.rate) ↔
        (base.payload_ms.toNat * last.sectors.toNat * 130 : ℚ) < last.payload_ms.toNat *
          base.sectors.toNat * 100 := by
      unfold BurnFigures.rate
      rw [← mul_div_assoc, div_lt_div_iff₀ (hpos hbase) (hpos hlast)]
      constructor
      · intro h
        linarith
      · intro h
        linarith
    rw [hlt, hq]
    exact_mod_cast Iff.rfl
  unfold payload_regressed
  rw [decide_eq_true_iff]
  constructor
  · rintro ⟨hlast, -, hpay, h⟩
    exact ⟨hlast, hpay, (hrates hlast).1 h⟩
  · rintro ⟨hlast, hpay, h⟩
    exact ⟨hlast, hbase, hpay, (hrates hlast).2 h⟩

theorem settle_regressed_iff : settle_regressed base last = true ↔
    base.settle_ms ≠ 0 ∧ (1.25 : ℚ) * base.settle_ms.toNat < last.settle_ms.toNat := by
  have htoNat : ∀ (a : BitVec 32) (c : Nat), c ≤ 130 →
    (a.setWidth 64 * BitVec.ofNat 64 c).toNat = a.toNat * c := by
    intro a c hc
    have ha := a.isLt
    have hac : a.toNat * c ≤ 2 ^ 32 * 130 := Nat.mul_le_mul (Nat.le_of_lt ha) hc
    rw [BitVec.toNat_mul, BitVec.toNat_setWidth, BitVec.toNat_ofNat,
      Nat.mod_eq_of_lt (show a.toNat < 2 ^ 64 by omega),
      Nat.mod_eq_of_lt (show c < 2 ^ 64 by omega), Nat.mod_eq_of_lt (by omega)]
  have h1 : (base.settle_ms.setWidth 64 * (125 : BitVec 64)).toNat = _ :=
    htoNat base.settle_ms 125 (by decide)
  have h2 : (last.settle_ms.setWidth 64 * (100 : BitVec 64)).toNat = _ :=
    htoNat last.settle_ms 100 (by decide)
  have hq : (1.25 : ℚ) * base.settle_ms.toNat < last.settle_ms.toNat ↔
      (base.settle_ms.toNat * 125 : ℚ) < last.settle_ms.toNat * 100 := by
    constructor
    · intro h
      linarith
    · intro h
      linarith
  unfold settle_regressed
  rw [decide_eq_true_iff, gt_iff_lt, BitVec.lt_def, ACCUDISC_WRITE_SETTLE_TOL, h1, h2, hq]
  exact_mod_cast Iff.rfl

/-- The two bits are what they were set by. -/
theorem anomaly_bits (p q : Bool) :
    let mask := (if p then ACCUDISC_WRITE_ANOMALY_PAYLOAD else 0) ||| if q then
      ACCUDISC_WRITE_ANOMALY_SETTLE else 0
    (mask &&& ACCUDISC_WRITE_ANOMALY_PAYLOAD ≠ 0 ↔ p = true) ∧
      (mask &&& ACCUDISC_WRITE_ANOMALY_SETTLE ≠ 0 ↔ q = true) ∧
      mask &&& ~~~(ACCUDISC_WRITE_ANOMALY_PAYLOAD ||| ACCUDISC_WRITE_ANOMALY_SETTLE) = 0 := by
  cases p <;> cases q <;> decide

end

/-! ## The calls -/

theorem write_health_base (calls : List HealthCall) :
    (write_health calls).wr_base.sectors = 0 ↔ first_burn calls = none := by
  induction calls with
  | nil => exact ⟨fun _ => rfl, fun _ => rfl⟩
  | cons c calls ih =>
    cases c with
    | BUDGET n => exact ih
    | BURN f =>
      show (write_health_record (write_health calls) f).wr_base.sectors = 0 ↔
        (first_burn calls).or (if f.sectors = 0 then none else some f) = none
      unfold write_health_record
      dsimp only
      by_cases hb : (write_health calls).wr_base.sectors = 0
      · rw [if_pos hb, ih.1 hb, Option.none_or]
        by_cases hf : f.sectors = 0
        · rw [if_pos hf]
          exact ⟨fun _ => rfl, fun _ => hf⟩
        · rw [if_neg hf]
          exact ⟨fun h => absurd h hf, nofun⟩
      · obtain ⟨b, hsome⟩ := Option.ne_none_iff_exists'.1 fun h => hb (ih.2 h)
        rw [if_neg hb, hsome, Option.some_or]
        exact ⟨fun h => absurd h hb, nofun⟩

theorem write_health_first (calls : List HealthCall) (b : BurnFigures) (h : first_burn calls = some b) :
    (write_health calls).wr_base = b ∧ b.sectors ≠ 0 ∧ .BURN b ∈ calls := by
  induction calls with
  | nil => cases h
  | cons c calls ih =>
    cases c with
    | BUDGET n =>
      obtain ⟨hb, hne, hm⟩ := ih h
      exact ⟨hb, hne, List.mem_cons_of_mem _ hm⟩
    | BURN f =>
      change (first_burn calls).or (if f.sectors = 0 then none else some f) = some b at h
      show (write_health_record (write_health calls) f).wr_base = b ∧ _
      unfold write_health_record
      dsimp only
      cases hfirst : first_burn calls with
      | some b' =>
        rw [hfirst, Option.some_or] at h
        cases h
        obtain ⟨hb, hne, hm⟩ := ih hfirst
        rw [if_neg (by rw [hb]; exact hne)]
        exact ⟨hb, hne, List.mem_cons_of_mem _ hm⟩
      | none =>
        rw [hfirst, Option.none_or] at h
        rw [if_pos ((write_health_base calls).2 hfirst)]
        by_cases hf : f.sectors = 0
        · rw [if_pos hf] at h
          cases h
        · rw [if_neg hf] at h
          cases h
          exact ⟨rfl, hf, List.mem_cons_self⟩

/-- **What the health of a handle says**, after any burns of up to 2^24 sectors each and any budgets
between them. -/
theorem write_health_told (calls : List HealthCall) (hsect : ∀ f, .BURN f ∈ calls →
    f.sectors.toNat < 2 ^ 24) :
    HealthTold calls := by
  induction calls with
  | nil => exact ⟨rfl, nofun, nofun, nofun, nofun⟩
  | cons c calls ih =>
    have ih := ih fun f hf => hsect f (List.mem_cons_of_mem _ hf)
    have hbase := fun b hb => (write_health_first (c :: calls) b hb).1
    cases c with
    | BUDGET n => exact ⟨rfl, hbase, ih.last, ih.quiet, ih.anomaly⟩
    | BURN f =>
      have hlast : ∀ {P : BurnFigures → List HealthCall → Prop}, P f calls →
          ∀ g older, last_burn (.BURN f :: calls) = some (g, older) → P g older := by
        intro P hP g older heq
        cases heq
        exact hP
      have hrecord : write_health (.BURN f :: calls) = write_health_record (write_health calls) f := rfl
      constructor
      case live =>
        have hcount : (write_health (.BURN f :: calls)).wr_live = (write_health calls).wr_live + 1 := by
          rw [hrecord, write_health_record]
          dsimp only
          split <;> rfl
        rw [hcount, ih.live, live_burns]
        exact (BitVec.ofNat_add ..).symm
      case base => exact hbase
      case last =>
        refine hlast ?_
        rw [hrecord, write_health_record]
        dsimp only
        split <;> rfl
      case quiet =>
        refine @hlast (fun _ older => first_burn older = none → _) fun hnone => ?_
        rw [hrecord, write_health_record]
        dsimp only
        rw [if_pos ((write_health_base calls).2 hnone)]
      case anomaly =>
        intro g older b heq hb
        cases heq
        obtain ⟨hwr, hne, hmem⟩ := write_health_first calls b hb
        have hpay := payload_regressed_iff (hsect b (List.mem_cons_of_mem _ hmem))
          (hsect f List.mem_cons_self) hne
        obtain ⟨hbit, hbit', hrest⟩ := anomaly_bits (payload_regressed b f) (settle_regressed b f)
        rw [hrecord, write_health_record]
        dsimp only
        rw [hwr, if_neg hne]
        exact ⟨hbit.trans hpay, hbit'.trans settle_regressed_iff, hrest⟩

/-- A third burn that takes half as long again for each sector, after a budget for it. -/
theorem write_health_told_slow :
    HealthTold [.BURN ⟨9000, 45000, 2400⟩, .BUDGET 1, .BURN ⟨8000, 120000, 9600⟩,
      .BURN ⟨8000, 30000, 2400⟩] :=
  write_health_told _ (by
    intro f hf
    simp only [List.mem_cons, HealthCall.BURN.injEq, reduceCtorEq, false_or,
      List.not_mem_nil, or_false] at hf
    rcases hf with rfl | rfl | rfl <;> decide)

end Accudisc
