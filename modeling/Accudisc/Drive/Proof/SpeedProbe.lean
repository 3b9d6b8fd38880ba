import Accudisc.Drive.SpeedProbe
import Accudisc.Drive.Proof.Speeds
import Mathlib.Data.List.Nodup
import Mathlib.Data.List.Range

/-!
# Fresh windows (`speeds.c`)

A sector that is read twice comes from the drive's cache, and its time says nothing. `Spread` says of the
commands that no offset into the span was asked for twice; `probe_band` keeps it because slot `b * ncand +
i` is asked for once.
-/

namespace Accudisc

/-- The sectors that the commands ask for, first to last. -/
def asked_sectors : List SpeedCall → List Nat
  | [] => []
  | .READ lba c :: log => asked_sectors log ++ (List.range c).map fun k => u32 (lba + k)
  | _ :: log => asked_sectors log

/-- A transfer fits the buffer. -/
def SpeedCall.Fits : SpeedCall → Prop
  | .READ _ c => c ≤ SPEEDS_CHUNK
  | _ => True

/-- The offsets asked for are all in `U`, and each was asked for once. -/
structure Spread (lba : Nat) (U : Nat → Prop) (log : List SpeedCall) : Prop where
  offsets : ∃ offs : List Nat, asked_sectors log = offs.map (fun o => u32 (lba + o)) ∧
    offs.Nodup ∧ ∀ o ∈ offs, U o
  fits : ∀ c ∈ log, c.Fits

variable (rc : Nat → Int) (rate : Nat → Nat → BitVec 16) (speed : Nat → Option Nat)
  (candidates : Nat → BitVec 16)
  {lba a n c slot ncand points i b : Nat} {U V : Nat → Prop} {log : List SpeedCall} {s : SpeedWire}

theorem u32_add_left (x y : Nat) : u32 (u32 x + y) = u32 (x + y) := Nat.mod_add_mod x (2 ^ 32) y

/-! ## Reads -/

theorem Spread.start : Spread lba (fun _ => False) [] where
  offsets := ⟨[], rfl, List.nodup_nil, by simp⟩
  fits := by simp

theorem Spread.mono (h : Spread lba U log) (hU : ∀ o, U o → V o) : Spread lba V log where
  offsets := by
    obtain ⟨offs, he, hn, ho⟩ := h.offsets
    exact ⟨offs, he, hn, fun o hm => hU o (ho o hm)⟩
  fits := h.fits

/-- A read at offset `a`, where nothing was asked for yet. -/
theorem Spread.read (h : Spread lba U log) (hc : c ≤ SPEEDS_CHUNK) (hU : ∀ o, a ≤ o → o < a + c → ¬U o) :
    Spread lba (fun o => U o ∨ a ≤ o ∧ o < a + c) (.READ (u32 (lba + a)) c :: log) where
  offsets := by
    obtain ⟨offs, he, hn, ho⟩ := h.offsets
    refine ⟨offs ++ (List.range c).map (a + ·), ?_, ?_, ?_⟩
    · rw [asked_sectors, he, List.map_append, List.map_map]
      congr 1
      apply List.map_congr_left
      intro k _
      simp only [Function.comp_apply]
      rw [u32_add_left, Nat.add_assoc]
    · have hr : ((List.range c).map (a + ·)).Nodup :=
        List.nodup_range.map fun x y hxy => Nat.add_left_cancel hxy
      apply hn.append hr
      intro o hm hm'
      obtain ⟨k, hk, rfl⟩ := List.mem_map.1 hm'
      exact hU _ (by omega) (by have := List.mem_range.1 hk; omega) (ho _ hm)
    · intro o hm
      rcases List.mem_append.1 hm with hm | hm
      · exact .inl (ho o hm)
      · obtain ⟨k, hk, rfl⟩ := List.mem_map.1 hm
        have := List.mem_range.1 hk
        exact .inr ⟨by omega, by omega⟩
  fits := by
    intro x hx
    rcases List.mem_cons.1 hx with rfl | hx
    · exact hc
    · exact h.fits x hx

theorem Spread.set_speed (h : Spread lba U log) (x : BitVec 16) : Spread lba U (.SET_SPEED x :: log) :=
  ⟨h.offsets, List.forall_mem_cons.2 ⟨trivial, h.fits⟩⟩

theorem Spread.get_speed (h : Spread lba U log) : Spread lba U (.GET_SPEED :: log) :=
  ⟨h.offsets, List.forall_mem_cons.2 ⟨trivial, h.fits⟩⟩

/-- A stream asks for what is left of its window at most. -/
theorem Spread.turns (turns done : Nat) (h : Spread lba (fun o => U o ∨ a ≤ o ∧ o < a + done) s.log)
    (hU : ∀ o, a ≤ o → o < a + n → ¬U o) (hd : done ≤ n) :
    Spread lba (fun o => U o ∨ a ≤ o ∧ o < a + n)
      (stream_turns rc (u32 (lba + a)) n turns done s).2.log := by
  induction turns generalizing done s with
  | zero => exact h.mono fun o ho => ho.imp_right (by omega)
  | succ turns ih =>
    rw [stream_turns]
    by_cases hn : done < n
    · rw [if_pos hn]
      have hchunk : (if n - done < SPEEDS_CHUNK then n - done else SPEEDS_CHUNK) ≤ SPEEDS_CHUNK ∧
          (if n - done < SPEEDS_CHUNK then n - done else SPEEDS_CHUNK) ≤ n - done := by
        split <;> omega
      revert hchunk
      generalize (if n - done < SPEEDS_CHUNK then n - done else SPEEDS_CHUNK) = c
      intro hchunk
      have hread := h.read (a := a + done) hchunk.1 (fun o h1 h2 ho => by
        rcases ho with ho | ho
        · exact hU o (by omega) (by omega) ho
        · omega)
      rw [← Nat.add_assoc, ← u32_add_left] at hread
      have hread : Spread lba (fun o => U o ∨ a ≤ o ∧ o < a + (done + c))
        (s.read (u32 (u32 (lba + a) + done)) c).log :=
        hread.mono fun o ho => by
          rcases ho with (ho | ho) | ho
          · exact .inl ho
          · exact .inr (by omega)
          · exact .inr (by omega)
      by_cases he : rc s.reads ≠ ACCUDISC_OK
      · simp only [if_pos he]
        exact hread.mono fun o ho => ho.imp_right (by omega)
      · simp only [if_neg he]
        exact ih (done + c) hread (by omega)
    · rw [if_neg hn]
      exact h.mono fun o ho => ho.imp_right (by omega)

theorem Spread.stream (h : Spread lba U s.log) (hU : ∀ o, a ≤ o → o < a + n → ¬U o) :
    Spread lba (fun o => U o ∨ a ≤ o ∧ o < a + n) (stream_span rc (u32 (lba + a)) n s).2.log :=
  Spread.turns rc n 0 (h.mono fun _ ho => .inl ho) hU (Nat.zero_le n)

/-! ## Windows -/

theorem ite_le_left (m w : Nat) : (if m < w then m else w) ≤ m := by
  split
  · exact Nat.le_refl m
  · omega

theorem window_want_le (x : BitVec 16) (slot : Nat) : window_want x slot ≤ slot - SPEEDS_CHUNK := by
  unfold window_want
  exact ite_le_left _ _

/-- A band asks for sectors of its slot alone. -/
theorem Spread.band {t : LadderProbe} {k : Nat} (x : BitVec 16)
    (h : Spread lba (fun o => V (o / slot)) t.wire.log)
    (hk : ¬V k) (hslot : SPEEDS_CHUNK < slot) :
    Spread lba (fun o => V (o / slot) ∨ o / slot = k)
      (probe_band rc rate (u32 (lba + k * slot)) (window_want x slot) b t).wire.log := by
  have hwant := window_want_le x slot
  have hpos : 0 < slot := by omega
  have hsame : ∀ o, k * slot ≤ o → o < k * slot + slot → o / slot = k := fun o h1 h2 =>
    Nat.div_eq_of_lt_le h1 (by rw [Nat.succ_mul]; exact h2)
  have hwarm := h.stream rc (a := k * slot) (n := SPEEDS_CHUNK) fun o h1 h2 ho =>
    hk (by rwa [hsame o h1 (by omega)] at ho)
  have htimed := hwarm.stream rc (a := k * slot + SPEEDS_CHUNK)
    (n := window_want x slot) fun o h1 h2 ho => by
    rcases ho with ho | ho
    · exact hk (by rwa [hsame o (by omega) (by omega)] at ho)
    · omega
  rw [← Nat.add_assoc, ← u32_add_left] at htimed
  refine htimed.mono fun o ho => ?_
  rcases ho with (ho | ho) | ho
  · exact .inl ho
  · exact .inr (hsame o ho.1 (by omega))
  · exact .inr (hsame o (by omega) (by omega))

/-- The slots behind the probe at band `b` of rung `i`. -/
def Probed (points ncand i b k : Nat) : Prop := k / ncand < points ∧
    (k % ncand < i ∨ k % ncand = i ∧ k / ncand < b)

theorem slot_mod (hi : i < ncand) (b : Nat) : (b * ncand + i) % ncand = i := by
  rw [Nat.mul_comm, Nat.mul_add_mod, Nat.mod_eq_of_lt hi]

theorem slot_div (hi : i < ncand) (b : Nat) : (b * ncand + i) / ncand = b := by
  rw [Nat.mul_comm, Nat.mul_add_div (by omega), Nat.div_eq_of_lt hi, Nat.add_zero]

/-- The bands of rung `i`, each in a slot of its own. -/
theorem Spread.bands {t : LadderProbe}
    (h : Spread lba (fun o => Probed points ncand i 0 (o / slot)) t.wire.log)
    (hi : i < ncand) (hslot : SPEEDS_CHUNK < slot) :
    Spread lba (fun o => Probed points ncand i points (o / slot))
      (probe_bands rc rate lba candidates points slot (slot * ncand) i t).wire.log := by
  unfold probe_bands
  refine Loop.foldl_range_inv
    (fun b (t : LadderProbe) => Spread lba (fun o => Probed points ncand i b (o / slot)) t.wire.log) h
      fun b hb t ht => ?_
  have hk : ¬Probed points ncand i b (b * ncand + i) := by
    unfold Probed
    rw [slot_mod hi, slot_div hi]
    omega
  have hoff : lba + b * (slot * ncand) + i * slot = lba + (b * ncand + i) * slot := by
    rw [Nat.add_mul, Nat.mul_comm slot, Nat.mul_assoc, Nat.add_assoc]
  have hband := ht.band rc rate (b := b) (candidates i) hk hslot
  rw [← hoff] at hband
  refine hband.mono fun o ho => ?_
  rcases ho with ho | ho
  · exact ⟨ho.1, ho.2.imp_right (by omega)⟩
  · rw [ho]
    exact ⟨by rwa [slot_div hi], .inr ⟨slot_mod hi b, by rw [slot_div hi]; omega⟩⟩

theorem Spread.rung {t : LadderTable}
    (h : Spread lba (fun o => Probed points ncand i 0 (o / slot)) t.wire.log)
    (hi : i < ncand) (hslot : SPEEDS_CHUNK < slot) :
    Spread lba (fun o => Probed points ncand (i + 1) 0 (o / slot))
      (probe_rung rc rate speed lba candidates points slot (slot * ncand) i t).wire.log := by
  have hset : Spread lba (fun o => Probed points ncand i 0 (o / slot))
    (t.wire.call (.SET_SPEED (candidates i))).log :=
    h.set_speed (candidates i)
  have hbands := Spread.bands rc rate candidates
    (t := { t.toLadderProbe with wire := t.wire.call (.SET_SPEED (candidates i)), cx_band := fun _ => 0 })
      hset hi hslot
  exact hbands.get_speed.mono fun o ho => ⟨ho.1, .inl (by have := ho.2; omega)⟩

/-- The rungs, each with a slot in every band. -/
theorem Spread.rungs {t : LadderTable} (h : Spread lba (fun _ => False) t.wire.log)
    (hslot : SPEEDS_CHUNK < slot)
    (hn : ncand ≠ 0) :
    Spread lba (fun o => o < points * ncand * slot)
      (probe_rungs rc rate speed lba candidates points slot (slot * ncand) ncand t).wire.log := by
  have hrun := Loop.foldl_range_inv
    (fun i (t : LadderTable) => Spread lba (fun o => Probed points ncand i 0 (o / slot)) t.wire.log)
    (f := fun t i => probe_rung rc rate speed lba candidates points slot (slot * ncand) i t)
    (h.mono fun o ho => ho.elim) fun i hi t ht => ht.rung rc rate speed candidates hi hslot
  refine hrun.mono fun o ho => ?_
  have hlt : o / slot < points * ncand := (Nat.div_lt_iff_lt_mul (by omega)).1 ho.1
  exact (Nat.div_lt_iff_lt_mul (by omega)).1 hlt

/-! ## The probe -/

/-- Every sector asked for is one of the span's and was asked for once, in transfers that fit the buffer. -/
structure FreshProbe (lba count : Nat) (log : List SpeedCall) : Prop where
  once : (asked_sectors log).Nodup
  inside : ∀ x ∈ asked_sectors log, ∃ o < count, x = u32 (lba + o)
  fits : ∀ c ∈ log, c.Fits

theorem Spread.fresh {count : Nat} (h : Spread lba U log) (hU : ∀ o, U o → o < count)
    (hcount : count < 2 ^ 32) :
    FreshProbe lba count log where
  once := by
    obtain ⟨offs, he, hn, ho⟩ := h.offsets
    rw [he]
    refine hn.map_on fun x hx y hy hxy => ?_
    have hx := hU x (ho x hx)
    have hy := hU y (ho y hy)
    unfold u32 at hxy
    omega
  inside := by
    obtain ⟨offs, he, hn, ho⟩ := h.offsets
    intro x hx
    rw [he] at hx
    obtain ⟨o, hm, rfl⟩ := List.mem_map.1 hx
    exact ⟨o, hU o (ho o hm), rfl⟩
  fits := h.fits

theorem adsc_speeds_layout_ok {count : Nat} {l : Nat × Nat}
    (h : adsc_speeds_layout count ncand points = .ok l) :
    l = (count / (points * ncand), count / (points * ncand) * ncand) ∧
      SPEEDS_CHUNK < count / (points * ncand) ∧
      (points = 1 ∨ points = SPEEDS_BANDS) := by
  unfold adsc_speeds_layout at h
  obtain ⟨-, h⟩ := check_eq_ok.1 h
  obtain ⟨hp, h⟩ := check_eq_ok.1 h
  obtain ⟨hs, h⟩ := check_eq_ok.1 h
  cases h
  refine ⟨rfl, ?_, by omega⟩
  unfold SPEEDS_MIN_SECTORS at hs
  omega

/-- **The windows are fresh**: whatever the drive answers, no sector is asked for twice in a whole probe. -/
theorem accudisc_probe_speed_ladder_fresh (rc : Nat → Int) (rate : Nat → Nat → BitVec 16)
    (speed : Nat → Option Nat)
    (lba : Nat) (candidates : Nat → BitVec 16) (count ncand points : Nat) (rungs : Nat → SpeedRung)
    (bands : Nat → Nat → BitVec 16) (hcount : count < 2 ^ 32) :
    FreshProbe lba count
      (accudisc_probe_speed_ladder rc rate speed lba candidates count ncand points rungs
        bands).2.wire.log := by
  have hnone : FreshProbe lba count [] := Spread.start.fresh (fun _ ho => ho.elim) hcount
  unfold accudisc_probe_speed_ladder
  by_cases hn : ncand = 0
  · rw [if_pos hn]
    exact hnone
  rw [if_neg hn]
  dsimp only
  generalize (if points = 0 then 1 else points) = points
  cases hl : adsc_speeds_layout count ncand points with
  | error e => exact hnone
  | ok l =>
    obtain ⟨rfl, hslot, -⟩ := adsc_speeds_layout_ok hl
    have hstart : Spread lba (fun _ => False) ({ rungs := rungs, bands := bands } : LadderTable).wire.log :=
      Spread.start
    have hrun : Spread lba (fun o => o < points * ncand * (count / (points * ncand))) _ :=
      hstart.rungs rc rate speed candidates hslot hn
    have hfresh : FreshProbe lba count _ := hrun.fresh
      (fun o ho =>
        Nat.lt_of_lt_of_le ho (by rw [Nat.mul_comm]; exact Nat.div_mul_le_self count (points * ncand)))
          hcount
    dsimp only
    split
    · exact hfresh
    · exact hfresh

theorem accudisc_probe_speed_ladder_fresh_two : FreshProbe 0 1200
    (accudisc_probe_speed_ladder (fun _ => 0) (fun _ _ => 800) (fun _ => some 1411) 0 (fun i =>
      if i = 0 then 4 else 8)
      1200 2 3 (fun _ => { requested_x := 0 }) fun _ _ => 0).2.wire.log :=
  accudisc_probe_speed_ladder_fresh _ _ _ _ _ _ _ _ _ _ (by decide)

/-! ## The table -/

/-- The figures of a rung are its bands': the middle one, and the range of all where every band has one. -/
structure RungReported (x : BitVec 16) (points : Nat) (cx : Nat → BitVec 16) (r : SpeedRung) : Prop where
  requested : r.requested_x = x
  measured : r.measured_cx = cx (points / 2)
  range : 1 < points → (∀ b < points, cx b ≠ 0) →
    (∃ b < points, r.min_cx = cx b) ∧ (∃ b < points, r.max_cx = cx b) ∧
      ∀ b < points, r.min_cx ≤ cx b ∧ cx b ≤ r.max_cx
  withdrawn : points ≤ 1 ∨ (∃ b < points, cx b = 0) → r.min_cx = 0 ∧ r.max_cx = 0

section
variable {cx : Nat → BitVec 16} {x : BitVec 16} {kbps : Option Nat} {r : SpeedRung}

/-- The search after the bands below `b`. -/
structure BandsTo (cx : Nat → BitVec 16) (points b : Nat) (s : BitVec 16 × BitVec 16 × Bool) : Prop where
  lo : ∃ j < points, s.1 = cx j
  hi : ∃ j < points, s.2.1 = cx j
  within : ∀ j < b, s.1 ≤ cx j ∧ cx j ≤ s.2.1
  complete : s.2.2 = true ↔ ∀ j < b, cx j ≠ 0

theorem BandsTo.next {lo hi : BitVec 16} {whole : Bool} (h : BandsTo cx points b (lo, hi, whole))
    (hb : b < points) :
    BandsTo cx points (b + 1)
      (if cx b < lo then cx b else lo, if hi < cx b then cx b else hi, whole && cx b ≠ 0) where
  lo := by
    by_cases hl : cx b < lo
    · exact ⟨b, hb, if_pos hl⟩
    · obtain ⟨j, hj, he⟩ := h.lo
      exact ⟨j, hj, (if_neg hl).trans he⟩
  hi := by
    by_cases hh : hi < cx b
    · exact ⟨b, hb, if_pos hh⟩
    · obtain ⟨j, hj, he⟩ := h.hi
      exact ⟨j, hj, (if_neg hh).trans he⟩
  within := by
    intro j hj
    rcases Nat.lt_succ_iff_lt_or_eq.1 hj with hj | rfl
    · have hw := h.within j hj
      refine ⟨?_, ?_⟩
      · show (if cx b < lo then cx b else lo) ≤ cx j
        split
        · exact BitVec.le_trans (BitVec.le_of_lt ‹_›) hw.1
        · exact hw.1
      · show cx j ≤ if hi < cx b then cx b else hi
        split
        · exact BitVec.le_trans hw.2 (BitVec.le_of_lt ‹_›)
        · exact hw.2
    · refine ⟨?_, ?_⟩
      · show (if cx j < lo then cx j else lo) ≤ cx j
        split
        · exact BitVec.le_refl _
        · exact BitVec.not_lt.1 ‹_›
      · show cx j ≤ if hi < cx j then cx j else hi
        split
        · exact BitVec.le_refl _
        · exact BitVec.not_lt.1 ‹_›
  complete := by
    have hc : whole = true ↔ ∀ j < b, cx j ≠ 0 := h.complete
    simp only [Bool.and_eq_true, hc, decide_eq_true_eq]
    constructor
    · rintro ⟨h1, h2⟩ j hj
      rcases Nat.lt_succ_iff_lt_or_eq.1 hj with hj | rfl
      · exact h1 j hj
      · exact h2
    · intro h
      exact ⟨fun j hj => h j (by omega), h b (by omega)⟩

theorem band_range_spec (hpoints : 0 < points) : BandsTo cx points points (band_range points cx) := by
  unfold band_range
  refine Loop.foldl_range_inv (BandsTo cx points) ⟨⟨0, hpoints, rfl⟩,
    ⟨0, hpoints, rfl⟩, by simp, by simp⟩ ?_
  rintro b hb ⟨lo, hi, whole⟩ h
  exact h.next hb

theorem rung_measured_reported (hpoints : 0 < points) :
    RungReported x points cx (rung_measured x points cx kbps r) := by
  have hrange : BandsTo cx points points (band_range points cx) := band_range_spec hpoints
  constructor
  case requested => rfl
  case measured => rfl
  case range =>
    intro h1 h0
    have hs : 1 < points ∧ (band_range points cx).2.2 = true := ⟨h1, hrange.complete.2 h0⟩
    simp only [rung_measured, if_pos hs]
    exact ⟨hrange.lo, hrange.hi, hrange.within⟩
  case withdrawn =>
    intro h
    have hs : ¬(1 < points ∧ (band_range points cx).2.2 = true) := by
      rintro ⟨h1, h2⟩
      rcases h with h | ⟨b, hb, h0⟩
      · omega
      · exact hrange.complete.1 h2 b hb h0
    exact ⟨if_neg hs, if_neg hs⟩

/-! The verdicts leave the figures alone. -/

@[simp] theorem rung_cleared_unmarked : rung_cleared (rung_unmarked r) = rung_cleared r := by
  obtain ⟨x, h⟩ := rung_unmarked_eq r
  rw [h]
  rfl

@[simp] theorem rung_cleared_settle {k : Nat} {best : Option SpeedRung} :
    rung_cleared (rung_settle n points k best r) = rung_cleared r := by
  obtain ⟨v, x, h⟩ := rung_settle_eq n points k best r
  rw [h]
  rfl

theorem speeds_walk_kept (n points k turns : Nat) (rungs : Nat → SpeedRung)
    (best : Option SpeedRung) (i : Nat) :
    rung_cleared (speeds_walk n points k turns rungs best i) = rung_cleared (rungs i) := by
  induction turns generalizing rungs best with
  | zero => rfl
  | succ turns ih =>
    rw [speeds_walk]
    cases next_slowest n rungs with
    | none => rfl
    | some p =>
      refine (ih _ _).trans ?_
      by_cases hp : i = p
      · rw [hp, Function.update_self]
        exact rung_cleared_settle
      · rw [Function.update_of_ne hp]

theorem adsc_speeds_admit_kept (n points k : Nat) (rungs : Nat → SpeedRung) (i : Nat) :
    rung_cleared ( adsc_speeds_admit n points k rungs i) = rung_cleared (rungs i) := by
  have hc : rung_cleared (if i < n then rung_cleared (rungs i) else rungs i) = rung_cleared (rungs i) := by
    split <;> rfl
  have hw := speeds_walk_kept n points k n (fun i => if i < n then rung_cleared (rungs i)
    else rungs i) none i
  unfold adsc_speeds_admit
  split
  · rfl
  dsimp only
  split
  · exact hc
  split
  · rw [rung_cleared_unmarked]
    exact hw.trans hc
  · exact hw.trans hc

theorem rung_cleared_eq {α : Type} (f : SpeedRung → α) (hf : ∀ r,
    f (rung_cleared r) = f r) {r r' : SpeedRung}
    (h : rung_cleared r' = rung_cleared r) : f r' = f r := by
  rw [← hf r', h, hf r]

/-- The report is about what `rung_cleared` leaves. -/
theorem RungReported.of_cleared {r' : SpeedRung} (h : RungReported x points cx r)
    (he : rung_cleared r' = rung_cleared r) : RungReported x points cx r' := by
  have hreq : r'.requested_x = r.requested_x := rung_cleared_eq SpeedRung.requested_x (fun _ => rfl) he
  have hmeas : r'.measured_cx = r.measured_cx := rung_cleared_eq SpeedRung.measured_cx (fun _ => rfl) he
  have hmin : r'.min_cx = r.min_cx := rung_cleared_eq SpeedRung.min_cx (fun _ => rfl) he
  have hmax : r'.max_cx = r.max_cx := rung_cleared_eq SpeedRung.max_cx (fun _ => rfl) he
  constructor
  case requested => rw [hreq, h.requested]
  case measured => rw [hmeas, h.measured]
  case range => rw [hmin, hmax]; exact h.range
  case withdrawn => rw [hmin, hmax]; exact h.withdrawn

theorem Ladder.of_cleared {rungs rungs' out : Nat → SpeedRung} {k : Nat} (h : Ladder rungs n points k out)
    (he : ∀ i, rung_cleared (rungs' i) = rung_cleared (rungs i)) : Ladder rungs' n points k out := by
  intro i hi
  obtain ⟨b, hb, hout⟩ := h i hi
  exact ⟨b, hb, by rw [he i]; exact hout⟩

end

/-! ## The figures of a whole probe -/

/-- A table whose first `i` rungs are done: their reports, and a figure only where something was read. -/
structure TableTo (points i : Nat) (t : LadderTable) : Prop where
  reported : ∀ j < i, RungReported (candidates j) points (t.bands j) (t.rungs j)
  read : ∀ j < i, ∀ b, t.bands j b ≠ 0 → t.read_any = true

theorem probe_band_read {wlba want b : Nat} {t : LadderProbe} (h : ∀ j, t.cx_band j ≠ 0 →
    t.read_any = true) (j : Nat)
    (hj : (probe_band rc rate wlba want b t).cx_band j ≠ 0) :
      (probe_band rc rate wlba want b t).read_any = true := by
  simp only [probe_band] at hj ⊢
  split at hj
  · rename_i hdone
    rw [decide_eq_true hdone, Bool.or_true]
  · rw [h j hj, Bool.true_or]

theorem probe_band_mono {wlba want b : Nat} {t : LadderProbe} (h : t.read_any = true) :
    (probe_band rc rate wlba want b t).read_any = true := by
  simp only [probe_band, h, Bool.true_or]

theorem probe_bands_read {points slot band i : Nat} {t : LadderProbe} (h : ∀ j, t.cx_band j ≠ 0 →
    t.read_any = true) :
    ∀ j, (probe_bands rc rate lba candidates points slot band i t).cx_band j ≠ 0 →
      (probe_bands rc rate lba candidates points slot band i t).read_any = true :=
  Loop.foldl_range_inv (fun _ (t : LadderProbe) => ∀ j, t.cx_band j ≠ 0 → t.read_any = true) h
    fun _ _ _ ht => probe_band_read rc rate ht

theorem probe_bands_mono {points slot band i : Nat} {t : LadderProbe} (h : t.read_any = true) :
    (probe_bands rc rate lba candidates points slot band i t).read_any = true :=
  Loop.foldl_range_inv (fun _ (t : LadderProbe) => t.read_any = true) h fun _ _ _ ht =>
    probe_band_mono rc rate ht

variable {candidates} in
theorem TableTo.rung {slot band : Nat} {t : LadderTable} (h : TableTo candidates points i t)
    (hpoints : 0 < points) :
    TableTo candidates points (i + 1) (probe_rung rc rate speed lba candidates points slot band i t) where
  reported := by
    intro j hj
    simp only [probe_rung]
    by_cases hji : j = i
    · subst hji
      rw [Function.update_self, Function.update_self]
      exact rung_measured_reported hpoints
    · rw [Function.update_of_ne hji, Function.update_of_ne hji]
      exact h.reported j (by omega)
  read := by
    intro j hj b
    simp only [probe_rung]
    by_cases hji : j = i
    · subst hji
      rw [Function.update_self]
      exact probe_bands_read rc rate candidates (by simp) b
    · rw [Function.update_of_ne hji]
      exact fun hb => probe_bands_mono rc rate candidates (h.read j (by omega) b hb)

theorem probe_rungs_table {slot band : Nat} (t : LadderTable) (hpoints : 0 < points) :
    TableTo candidates points ncand (probe_rungs rc rate speed lba candidates points slot band ncand t) :=
  Loop.foldl_range_inv (TableTo candidates points) ⟨fun j hj => absurd hj (Nat.not_lt_zero j), fun j hj =>
    absurd hj (Nat.not_lt_zero j)⟩
    fun _ _ _ ht => ht.rung rc rate speed hpoints

/-- What the table of a probe says: each rung's figures are its bands', the code is an error only where no
window gave a figure, and every rung is settled against the last one admitted below it. -/
structure TableReported (ncand points : Nat) (p : Int × LadderTable) : Prop where
  rungs : ∀ i < ncand, RungReported (candidates i) points (p.2.bands i) (p.2.rungs i)
  failed : p.1 ≠ ACCUDISC_OK → ∀ i < ncand, ∀ b, p.2.bands i b = 0
  ladder : p.1 = ACCUDISC_OK → points = SPEEDS_BANDS → DistinctRungs p.2.rungs ncand →
    Ladder p.2.rungs ncand points SPEEDS_ADMIT_K p.2.rungs

/-- **The table of a probe** that the layout lets run. -/
theorem accudisc_probe_speed_ladder_table (rc : Nat → Int) (rate : Nat → Nat → BitVec 16)
    (speed : Nat → Option Nat)
    (lba : Nat) (candidates : Nat → BitVec 16) (count ncand points : Nat) (rungs : Nat → SpeedRung)
    (bands : Nat → Nat → BitVec 16) (l : Nat × Nat)
    (hl : adsc_speeds_layout count ncand (if points = 0 then 1 else points) = .ok l) :
    TableReported candidates ncand (if points = 0 then 1 else points)
      (accudisc_probe_speed_ladder rc rate speed lba candidates count ncand points rungs bands) := by
  unfold accudisc_probe_speed_ladder
  simp only
  generalize (if points = 0 then 1 else points) = points at hl ⊢
  obtain ⟨-, -, hpoints⟩ := adsc_speeds_layout_ok hl
  have hpos : 0 < points := by
    unfold SPEEDS_BANDS at hpoints
    omega
  have hn : ncand ≠ 0 := by
    intro hn
    rw [adsc_speeds_layout, if_pos hn] at hl
    cases hl
  have htable :
    TableTo candidates points ncand (probe_rungs rc rate speed lba candidates points l.1 l.2 ncand _) :=
    probe_rungs_table rc rate speed candidates { rungs := rungs, bands := bands } hpos
  rw [if_neg hn]
  simp only [hl]
  revert htable
  generalize probe_rungs rc rate speed lba candidates points l.1 l.2 ncand
    { rungs := rungs, bands := bands } = t
  intro htable
  by_cases hf : t.read_any = false ∧ t.first_err ≠ ACCUDISC_OK
  · rw [if_pos hf]
    refine ⟨htable.reported, fun _ i hi b => ?_, fun h => absurd h hf.2⟩
    by_contra hb
    exact Bool.false_ne_true (hf.1.symm.trans (htable.read i hi b hb))
  · rw [if_neg hf]
    have hkept := adsc_speeds_admit_kept ncand points SPEEDS_ADMIT_K t.rungs
    refine ⟨fun i hi => (htable.reported i hi).of_cleared (hkept i), fun h =>
      absurd rfl h, fun _ h3 hd => ?_⟩
    have hd' : DistinctRungs t.rungs ncand := by
      intro i hi j hj hij
      have hreq : ∀ i, ( adsc_speeds_admit ncand points SPEEDS_ADMIT_K t.rungs i).requested_x =
        (t.rungs i).requested_x :=
        fun i => rung_cleared_eq SpeedRung.requested_x (fun _ => rfl) (hkept i)
      exact hd i hi j hj (by rw [hreq, hreq, hij])
    exact (adsc_speeds_admit_ladder hd' (by rw [h3]; decide)).of_cleared hkept

/-- Three bands of two rungs, and one band of them, asked for as none. -/
theorem accudisc_probe_speed_ladder_table_two : (TableReported (fun i => if i = 0 then 4 else 8) 2 3
    (accudisc_probe_speed_ladder (fun _ => 0) (fun _ _ => 800) (fun _ => some 1411) 0 (fun i =>
      if i = 0 then 4 else 8)
      1200 2 3 (fun _ => { requested_x := 0 }) fun _ _ => 0)) ∧
    TableReported (fun i => if i = 0 then 4 else 8) 2 1
      (accudisc_probe_speed_ladder (fun _ => 0) (fun _ _ => 800) (fun _ => some 1411) 0
        (fun i => if i = 0 then 4 else 8) 400 2 0 (fun _ => { requested_x := 0 }) fun _ _ => 0) :=
  ⟨accudisc_probe_speed_ladder_table _ _ _ _ _ 1200 2 3 _ _ (200, 400) (by decide),
    accudisc_probe_speed_ladder_table _ _ _ _ _ 400 2 0 _ _ (200, 400) (by decide)⟩

end Accudisc
