import Accudisc.Lib.Lts
import Accudisc.Read.AccuBuf
import Mathlib.Data.List.Nodup

/-!
# Cancellation of the chunk ring

`accubuf_discard_safe`: in a run where no discarding stop takes the lock while the consumer has a
slot taken, the sink is not called after the stop, gets every chunk at most once, and `count` stays a
count of slots. With a slot taken the bookkeeping that follows the call underflows `count`
(`Inv.discard_underflow`), and the stopped consumer calls the sink again.
-/

namespace Accudisc

open Lts

/-- What a cancelled ring promises. -/
structure AccuBufSys.Safe (s : AccuBufSys) : Prop where
  /-- No call begins after the locked section of a discarding stop. -/
  quiet : s.log.Pairwise fun later earlier => earlier = .discard → ∀ k c m, later ≠ .call k c m
  once : (handed s.log).Nodup
  bounded : s.ab.count ≤ s.ab.nslots

/-- A discarding stop takes the lock with no slot taken. -/
def NoneInFlight (s : AccuBufSys) (a : RingAction) : Prop :=
  ∀ d, a = .stop d → d ≠ 0 → s.consumer.inFlight = false

section
variable {l : List RingEvent}

@[simp] theorem pushes_pushed {c : Chunk} {m : Mem} : pushes (.pushed c m :: l) = (c, m) :: pushes l :=
  rfl
@[simp] theorem pushes_refused {rc : Int} : pushes (.refused rc :: l) = pushes l := rfl
@[simp] theorem pushes_discard : pushes (.discard :: l) = pushes l := rfl
@[simp] theorem pushes_call {k : Option Nat} {c : Chunk} {m : Mem} :
    pushes (.call k c m :: l) = pushes l := rfl
@[simp] theorem pushes_ret {rc : Int} : pushes (.ret rc :: l) = pushes l := rfl
@[simp] theorem pushes_stopped {rc : Int} : pushes (.stopped rc :: l) = pushes l := rfl

@[simp] theorem handed_pushed {c : Chunk} {m : Mem} : handed (.pushed c m :: l) = handed l := rfl
@[simp] theorem handed_refused {rc : Int} : handed (.refused rc :: l) = handed l := rfl
@[simp] theorem handed_discard : handed (.discard :: l) = handed l := rfl
@[simp] theorem handed_call {k : Option Nat} {c : Chunk} {m : Mem} :
    handed (.call k c m :: l) = k :: handed l := rfl
@[simp] theorem handed_ret {rc : Int} : handed (.ret rc :: l) = handed l := rfl
@[simp] theorem handed_stopped {rc : Int} : handed (.stopped rc :: l) = handed l := rfl

end

/-! ## The ring -/

theorem ring_ne {n t i j : Nat} (hij : i < j) (hj : j < n) : (t + i) % n ≠ (t + j) % n := by
  intro h
  have hm := Nat.sub_mod_eq_zero_of_mod_eq h.symm
  rw [Nat.mod_eq_of_lt (by omega)] at hm
  omega

theorem ring_succ (n t i : Nat) : ((t + 1) % n + i) % n = (t + (i + 1)) % n := by
  rw [Nat.mod_add_mod, Nat.add_assoc, Nat.add_comm 1 i]

namespace AccuBufSys

/-- What every step of such a run keeps: the `count` slots from `tail` hold the last `count` chunks
pushed, in order, and the sink has had those before them, with the one at `tail` when it is taken. -/
structure Inv (s : AccuBufSys) : Prop where
  nslots : 2 ≤ s.ab.nslots ∧ s.ab.nslots ≤ 4096
  count_le : s.ab.count ≤ s.ab.nslots
  tail_lt : s.ab.tail < s.ab.nslots
  head : s.ab.head = (s.ab.tail + s.ab.count) % s.ab.nslots
  count_pushes : s.ab.count ≤ (pushes s.log).length
  stamps : ∀ i < s.ab.count, s.stamp ((s.ab.tail + i) % s.ab.nslots) =
    some ((pushes s.log).length - s.ab.count + i)
  flight : s.consumer.inFlight = true → 1 ≤ s.ab.count
  handed : ∀ x ∈ handed s.log, ∃ k, x = some k ∧
    k < (pushes s.log).length - s.ab.count + if s.consumer.inFlight then 1 else 0
  once : (Accudisc.handed s.log).Nodup
  quiet : s.log.Pairwise fun later earlier => earlier = .discard → ∀ k c m, later ≠ .call k c m
  discarded : .discard ∈ s.log → s.ab.count = 0 ∧ (s.producer = .joining ∨ s.producer = .stopped)

theorem Inv.safe {s : AccuBufSys} (h : Inv s) : Safe s := ⟨h.quiet, h.once, h.count_le⟩

theorem Inv.init {env : AccuBufEnv} {ab bytes slot_bytes sink : Nat} {b : AccuBuf}
    (h : adsc_accubuf_start env ab bytes slot_bytes sink = .ok b) : Inv (init b) := by
  unfold adsc_accubuf_start at h
  simp only [check_eq_ok, Except.ok.injEq] at h
  obtain ⟨-, -, -, rfl⟩ := h
  have hn : 2 ≤ accubuf_slots bytes slot_bytes ∧ accubuf_slots bytes slot_bytes ≤ 4096 := by
    unfold accubuf_slots ADSC_ACCUBUF_MIN_SLOTS ADSC_ACCUBUF_MAX_SLOTS
    omega
  exact {
    nslots := hn
    count_le := Nat.zero_le _
    tail_lt := Nat.lt_of_lt_of_le Nat.zero_lt_two hn.1
    head := (Nat.zero_mod _).symm
    count_pushes := Nat.zero_le _
    stamps := fun i hi => absurd hi (Nat.not_lt_zero i)
    flight := nofun
    handed := nofun
    once := List.nodup_nil
    quiet := .nil
    discarded := nofun }

variable {s t : AccuBufSys}

/-- A push under the lock, before any stop. -/
theorem Inv.push_step (h : Inv s) {c : Chunk} {src : Mem}
    (hp : s.producer ≠ .joining ∧ s.producer ≠ .stopped) : Inv (s.push_step c src) := by
  have hd : RingEvent.discard ∉ s.log := fun hd => by
    obtain ⟨-, hj | hj⟩ := h.discarded hd
    · exact hp.1 hj
    · exact hp.2 hj
  unfold AccuBufSys.push_step AccuBuf.push_section
  by_cases hfull : s.ab.count = s.ab.nslots ∧ s.ab.sink_rc = 0
  · rw [if_pos hfull]
    exact { h with discarded := fun hm => absurd hm hd }
  rw [if_neg hfull]
  by_cases hrc : s.ab.sink_rc ≠ 0
  · simp only [if_pos hrc]
    exact { h with
      quiet := List.pairwise_cons.2 ⟨by simp, h.quiet⟩
      discarded := fun hm => absurd (by simpa using hm) hd }
  rw [if_neg hrc]
  -- The head slot is not one of the `count` filled ones, and takes the next stamp.
  have hlt : s.ab.count < s.ab.nslots := by have := h.count_le; omega
  have hn := h.nslots
  have htail := h.tail_lt
  have hcp := h.count_pushes
  have hcount : (s.ab.count + 1) % 2 ^ 32 = s.ab.count + 1 := Nat.mod_eq_of_lt (by omega)
  have hhead : s.ab.head < s.ab.nslots := h.head ▸ Nat.mod_lt _ (by omega)
  have hhead' : (s.ab.head + 1) % 2 ^ 32 = s.ab.head + 1 := Nat.mod_eq_of_lt (by omega)
  simp only [hcount, hhead', ne_eq, not_true_eq_false, if_false]
  constructor
  case head =>
    show (s.ab.head + 1) % s.ab.nslots = (s.ab.tail + (s.ab.count + 1)) % s.ab.nslots
    rw [h.head, Nat.mod_add_mod, Nat.add_assoc]
  case stamps =>
    intro i hi
    rw [pushes_pushed, List.length_cons]
    show Function.update s.stamp s.ab.head _ ((s.ab.tail + i) % s.ab.nslots) = _
    rcases Nat.lt_succ_iff_lt_or_eq.1 hi with hi | rfl
    · rw [Function.update_of_ne (h.head ▸ ring_ne hi hlt), h.stamps i hi]
      congr 1
      show _ = (pushes s.log).length + 1 - (s.ab.count + 1) + i
      omega
    · rw [← h.head, Function.update_self]
      congr 1
      show _ = (pushes s.log).length + 1 - (s.ab.count + 1) + s.ab.count
      omega
  case handed =>
    intro x hx
    obtain ⟨k, rfl, hk⟩ := h.handed x (by simpa using hx)
    refine ⟨k, rfl, ?_⟩
    rw [pushes_pushed, List.length_cons]
    show k < (pushes s.log).length + 1 - (s.ab.count + 1) + _
    rwa [Nat.add_sub_add_right]
  case discarded => exact fun hm => absurd (by simpa using hm) hd
  case nslots => exact hn
  case count_le => exact hlt
  case tail_lt => exact htail
  case count_pushes => exact Nat.succ_le_succ hcp
  case flight => exact fun hf => Nat.le_succ_of_le (h.flight hf)
  case once => exact h.once
  case quiet => exact List.pairwise_cons.2 ⟨by simp, h.quiet⟩

/-- A stop under the lock: a discarding one finds no slot taken. -/
theorem Inv.stop_section (h : Inv s) {d : Int} (hp : s.producer = .idle)
    (hd : d ≠ 0 → s.consumer.inFlight = false) :
    Inv { s with
      ab := s.ab.stop_section d
      producer := .joining
      log := if d ≠ 0 then .discard :: s.log else s.log } := by
  unfold AccuBuf.stop_section
  by_cases hz : d ≠ 0
  · have hf := hd hz
    have hn := h.nslots
    simp only [if_pos hz]
    constructor
    case head => exact (Nat.mod_eq_of_lt (h.head ▸ Nat.mod_lt _ (by omega))).symm
    case tail_lt => exact h.head ▸ Nat.mod_lt _ (by omega)
    case handed =>
      intro x hx
      obtain ⟨k, rfl, hk⟩ := h.handed x hx
      refine ⟨k, rfl, ?_⟩
      show k < (pushes s.log).length - 0 + if s.consumer.inFlight = true then 1 else 0
      rw [hf] at hk ⊢
      simp only [Bool.false_eq_true, if_false] at hk ⊢
      omega
    case flight => exact fun hm => absurd (hf.symm.trans hm) Bool.false_ne_true
    case stamps => exact fun i hi => absurd hi (Nat.not_lt_zero i)
    case discarded => exact fun _ => ⟨rfl, .inl rfl⟩
    case nslots => exact hn
    case count_le => exact Nat.zero_le _
    case count_pushes => exact Nat.zero_le _
    case once => exact h.once
    case quiet => exact List.pairwise_cons.2 ⟨by simp, h.quiet⟩
  · simp only [if_neg hz]
    refine { h with discarded := fun hm => ?_ }
    obtain ⟨-, hj | hj⟩ := h.discarded hm <;> simp [hp] at hj

/-- With `count` not 0 the consumer calls the sink, whatever is in the slot at the tail. -/
theorem step_drain_call (hc : s.consumer = .top) (h0 : s.ab.count ≠ 0) :
    s.step .drain = some ({ s with consumer := .calling (s.ab.slot s.ab.tail) }.emit
      (.call (s.stamp s.ab.tail) (s.ab.slot s.ab.tail) s.ab.arena)) := by
  simp only [step, hc, AccuBufSys.drain_step, AccuBuf.take_section, h0, false_and, if_false]
  rfl

/-- The consumer under the lock, before a call. -/
theorem Inv.drain_step (h : Inv s) (hc : s.consumer = .top) : Inv s.drain_step := by
  have hf : s.consumer.inFlight = false := by rw [hc]; rfl
  unfold AccuBufSys.drain_step AccuBuf.take_section
  by_cases hw : s.ab.count = 0 ∧ s.ab.producer_done = false
  · rw [if_pos hw]
    exact h
  rw [if_neg hw]
  by_cases h0 : s.ab.count = 0
  · rw [if_pos h0]
    refine { h with flight := nofun, handed := ?_ }
    rw [show RingConsumer.exited.inFlight = s.consumer.inFlight from hf.symm]
    exact h.handed
  rw [if_neg h0]
  -- The slot at the tail holds the oldest chunk that is still there, which the sink has not had.
  have hstamp : s.stamp s.ab.tail = some ((pushes s.log).length - s.ab.count) := by
    simpa [Nat.mod_eq_of_lt h.tail_lt] using h.stamps 0 (Nat.pos_of_ne_zero h0)
  have hnew : s.stamp s.ab.tail ∉ Accudisc.handed s.log := by
    intro hm
    obtain ⟨k, hk, hlt⟩ := h.handed _ hm
    rw [hstamp] at hk
    rw [hf] at hlt
    obtain rfl := Option.some.inj hk
    exact Nat.lt_irrefl _ hlt
  have hd : RingEvent.discard ∉ s.log := fun hd => h0 (h.discarded hd).1
  refine { h with
    flight := fun _ => Nat.pos_of_ne_zero h0
    handed := ?_
    once := List.nodup_cons.2 ⟨hnew, h.once⟩
    quiet := List.pairwise_cons.2 ⟨fun e he h' => absurd (h' ▸ he) hd, h.quiet⟩
    discarded := fun hm => absurd (by simpa using hm) hd }
  intro x hx
  simp only [handed_call, List.mem_cons] at hx
  rcases hx with rfl | hx
  · exact ⟨_, hstamp, Nat.lt_succ_self _⟩
  · obtain ⟨k, rfl, hk⟩ := h.handed x hx
    rw [hf] at hk
    exact ⟨k, rfl, Nat.lt_succ_of_lt hk⟩

/-- The consumer under the lock, after a call. -/
theorem Inv.drain_finish (h : Inv s) {rc : Int} (hc : s.consumer = .returned rc) :
    Inv { s with
      ab := s.ab.finish_section rc
      consumer := if rc ≠ 0 then .exited else .top } := by
  have hf : s.consumer.inFlight = true := by rw [hc]; rfl
  have hf' : (if rc ≠ 0 then RingConsumer.exited else .top).inFlight = false := by split <;> rfl
  have hpos := h.flight hf
  have hn := h.nslots
  have hle := h.count_le
  have htail := h.tail_lt
  have hcp := h.count_pushes
  have hcount : (s.ab.count + (2 ^ 32 - 1)) % 2 ^ 32 = s.ab.count - 1 := by omega
  have htail' : (s.ab.tail + 1) % 2 ^ 32 = s.ab.tail + 1 := Nat.mod_eq_of_lt (by omega)
  unfold AccuBuf.finish_section
  simp only [hcount, htail']
  constructor
  case head =>
    show s.ab.head = ((s.ab.tail + 1) % s.ab.nslots + (s.ab.count - 1)) % s.ab.nslots
    rw [ring_succ, h.head, Nat.sub_add_cancel hpos]
  case tail_lt => exact Nat.mod_lt _ (by omega)
  case stamps =>
    intro i hi
    show s.stamp (((s.ab.tail + 1) % s.ab.nslots + i) % s.ab.nslots) =
      some ((pushes s.log).length - (s.ab.count - 1) + i)
    have hi : i + 1 < s.ab.count := Nat.lt_sub_iff_add_lt.1 hi
    rw [ring_succ, h.stamps (i + 1) hi, Option.some_inj]
    omega
  case handed =>
    intro x hx
    obtain ⟨k, rfl, hk⟩ := h.handed x hx
    refine ⟨k, rfl, ?_⟩
    show k < (pushes s.log).length - (s.ab.count - 1) + if _ then 1 else 0
    rw [hf] at hk
    rw [hf']
    simp only [if_true, Bool.false_eq_true, if_false] at hk ⊢
    omega
  case flight => exact fun hm => absurd (hf'.symm.trans hm) Bool.false_ne_true
  case discarded => exact fun hm => absurd (h.discarded hm).1 (by omega)
  case nslots => exact hn
  case count_le => exact Nat.le_trans (Nat.sub_le _ _) hle
  case count_pushes => exact Nat.le_trans (Nat.sub_le _ _) hcp
  case once => exact h.once
  case quiet => exact h.quiet

/-- An event that is no push, no call and no discard. -/
theorem Inv.event (h : Inv s) {e : RingEvent} (hq : ∀ k c m, e ≠ .call k c m) (hd : e ≠ .discard)
    (hp : ∀ c m, e ≠ .pushed c m) : Inv (s.emit e) := by
  have hpushes : pushes (e :: s.log) = pushes s.log := by cases e <;> simp_all
  have hhanded : Accudisc.handed (e :: s.log) = Accudisc.handed s.log := by cases e <;> simp_all
  exact { h with
    count_pushes := hpushes ▸ h.count_pushes
    stamps := by simpa only [emit, hpushes] using h.stamps
    handed := by
      show ∀ x ∈ Accudisc.handed (e :: s.log), ∃ k, x = some k ∧
        k < (pushes (e :: s.log)).length - s.ab.count + if s.consumer.inFlight then 1 else 0
      rw [hpushes, hhanded]
      exact h.handed
    once := hhanded ▸ h.once
    quiet := List.pairwise_cons.2 ⟨fun _ _ _ => hq, h.quiet⟩
    discarded := fun hm => h.discarded ((List.mem_cons.1 hm).resolve_left (Ne.symm hd)) }

/-- Every step in which no discarding stop interrupts a call keeps the invariant. -/
theorem Inv.step (h : Inv s) {a : RingAction} (ha : NoneInFlight s a) (hs : s.step a = some t) :
    Inv t := by
  obtain ⟨ab, p, d, stamp, log⟩ := s
  cases a with
  | push c src =>
    cases p <;> simp only [AccuBufSys.step, reduceCtorEq] at hs
    split at hs
    · obtain rfl := Option.some.inj hs
      exact h.event (by simp) (by simp) (by simp)
    · obtain rfl := Option.some.inj hs
      exact h.push_step (by simp)
  | push_wake =>
    cases p <;> simp only [AccuBufSys.step, reduceCtorEq] at hs
    obtain rfl := Option.some.inj hs
    exact h.push_step (by simp)
  | stop discard =>
    cases p <;> simp only [AccuBufSys.step, reduceCtorEq] at hs
    · obtain rfl := Option.some.inj hs
      exact h.stop_section rfl (ha discard rfl)
    · obtain rfl := Option.some.inj hs
      exact h.event (by simp) (by simp) (by simp)
  | join =>
    cases p <;> cases d <;> simp only [AccuBufSys.step, reduceCtorEq] at hs
    obtain rfl := Option.some.inj hs
    refine Inv.event ?_ (by simp) (by simp) (by simp)
    exact { h with discarded := fun hm => ⟨(h.discarded hm).1, .inr rfl⟩ }
  | drain =>
    cases d <;> simp only [AccuBufSys.step, reduceCtorEq] at hs
    obtain rfl := Option.some.inj hs
    exact h.drain_step rfl
  | sink_return rc =>
    cases d <;> simp only [AccuBufSys.step, reduceCtorEq] at hs
    obtain rfl := Option.some.inj hs
    refine Inv.event ?_ (by simp) (by simp) (by simp)
    exact { h with flight := fun _ => h.flight rfl, handed := h.handed }
  | drain_finish =>
    cases d <;> simp only [AccuBufSys.step, reduceCtorEq] at hs
    obtain rfl := Option.some.inj hs
    exact h.drain_finish rfl

/-- A discarding stop while the consumer has a slot taken: once the sink is back, `count` has wrapped
below 0. -/
theorem Inv.discard_underflow (h : Inv s) {c : Chunk} (hp : s.producer = .idle)
    (hc : s.consumer = .calling c) {d : Int} (hd : d ≠ 0) (rc : Int) :
    ∃ u, run AccuBufSys.step s [.stop d, .sink_return rc, .drain_finish] = some u ∧ ¬Safe u := by
  have hn := h.nslots
  refine ⟨_, by simp only [run, AccuBufSys.step, hp, hc, emit, Option.bind_some]; rfl, fun hs => ?_⟩
  have hb := hs.bounded
  simp only [AccuBuf.finish_section, AccuBuf.stop_section, if_pos hd] at hb
  omega

end AccuBufSys

/-- **Cancellation**: in a run where no discarding stop takes the lock while the consumer has a slot
taken, every state reached is safe. -/
theorem accubuf_discard_safe {env : AccuBufEnv} {ab bytes slot_bytes sink : Nat} {b : AccuBuf}
    {s : AccuBufSys} (h0 : adsc_accubuf_start env ab bytes slot_bytes sink = .ok b)
    (h : Reaches AccuBufSys.step NoneInFlight (.init b) s) : s.Safe :=
  (h.inv (I := AccuBufSys.Inv) (.init h0) fun hI ha hs => hI.step ha hs).safe

/-- Two chunks pushed, one of them delivered, and a cancel between the calls. -/
theorem accubuf_discard_safe_between : ∃ s,
    adsc_accubuf_start ⟨true, true, true, (true, true), true⟩ 1 16 8 1 = .ok (.empty 2 8) ∧
      RingEvent.discard ∈ s.log ∧ handed s.log = [some 0] ∧
      Reaches AccuBufSys.step NoneInFlight (.init (.empty 2 8)) s ∧ s.Safe := by
  let c : Chunk := ⟨0, 1, 0, 8, 8, 0, 0⟩
  have h0 : adsc_accubuf_start ⟨true, true, true, (true, true), true⟩ 1 16 8 1 =
    .ok (.empty 2 8) := rfl
  have h : Reaches AccuBufSys.step NoneInFlight (.init (.empty 2 8)) _ :=
    .step (a := .stop 1) (.step (a := .drain_finish) (.step (a := .sink_return 0)
      (.step (a := .drain) (.step (a := .push c fun _ => 0) (.step (a := .push c fun _ => 0) .refl
        nofun rfl) nofun rfl) nofun rfl) nofun rfl) nofun rfl) (fun _ _ _ => rfl) rfl
  exact ⟨_, h0, List.mem_cons_self .., rfl, h, accubuf_discard_safe h0 h⟩

/-- A cancel during the call: the sink is called again, with the chunk it already had, and `count`
is `0xFFFFFFFF`. -/
theorem accubuf_discard_in_flight : ∃ s,
    adsc_accubuf_start ⟨true, true, true, (true, true), true⟩ 1 16 8 1 = .ok (.empty 2 8) ∧
      Reaches AccuBufSys.step (fun _ _ => True) (.init (.empty 2 8)) s ∧
      (∃ l k c m, s.log = .call k c m :: .ret 0 :: .discard :: l) ∧
      handed s.log = [some 0, some 0] ∧ s.ab.nslots = 2 ∧ s.ab.count = 0xFFFFFFFF ∧ ¬s.Safe := by
  let c : Chunk := ⟨0, 1, 0, 8, 8, 0, 0⟩
  have h : Reaches AccuBufSys.step (fun _ _ => True) (.init (.empty 2 8)) _ :=
    @Reaches.of_run _ _ _ _ _ _ [.push c fun _ => 0, .drain, .stop 1, .sink_return 0, .drain_finish]
      (fun _ _ _ => trivial) rfl
  have h' := h.step trivial (AccuBufSys.step_drain_call rfl (by decide))
  exact ⟨_, rfl, h', ⟨_, _, _, _, rfl⟩, by decide, rfl, by decide, fun hs => absurd hs.bounded (by decide)⟩

end Accudisc
