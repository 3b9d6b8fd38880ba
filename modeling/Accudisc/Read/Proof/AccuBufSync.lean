import Accudisc.Read.Proof.AccuBuf

/-!
# Normal completion of the chunk ring

`accubuf_synchronous`: in a run whose pushes fit a slot and that ends in a stop that does not discard,
the `i`-th call of the sink is the `i`-th chunk pushed, as it was when it was pushed. After a refusal
there are no more calls, and once `drain` has recorded it every push and the stop return its code.
-/

namespace Accudisc

open Lts

/-- The calls of the sink, the last first: the chunk, and the memory it points into. -/
def calls : List RingEvent → List (Chunk × Mem) :=
  List.filterMap fun
    | .call _ c arena => some (c, arena)
    | _ => none

/-- The chunks pushed, in push order. -/
def pushed (log : List RingEvent) : List (Chunk × Mem) := (pushes log).reverse

/-- The calls of the sink, in order. -/
def called (log : List RingEvent) : List (Chunk × Mem) := (calls log).reverse

/-- `need` of a push. -/
def Chunk.need (c : Chunk) : Nat := c.nsec.toNat * c.sector_len.toNat

/-- The sink has `x` for the chunk pushed as `p`: the metadata but for the payload's address, and the
payload. -/
structure AsPushed (p x : Chunk × Mem) : Prop where
  metadata : { x.1 with data := p.1.data } = p.1
  payload : ∀ i < p.1.need, x.2 (x.1.data + i) = p.2 (p.1.data + i)

/-- Chunks fit a slot, and one stop, that does not discard, ends the run. -/
def Normal (s : AccuBufSys) (a : RingAction) : Prop :=
  (∀ c src, a = .push c src → c.need ≤ s.ab.slot_bytes) ∧
  ∀ d, a = .stop d → d = 0 ∧ s.producer ≠ .stopped

/-- What the ring promises of a normal completion. -/
structure AccuBufSys.Synchronous (s : AccuBufSys) : Prop where
  /-- Push order, each once, and as it was at push time. -/
  calls : ∀ (i : Nat) x, (called s.log)[i]? = some x → ∃ p, (pushed s.log)[i]? = some p ∧ AsPushed p x
  /-- The slot stays so until the sink returns. -/
  held : ∀ c, s.consumer = .calling c →
    ∃ p, (pushed s.log)[(called s.log).length - 1]? = some p ∧ AsPushed p (c, s.ab.arena)
  /-- No call after a refusal. -/
  quiet : s.log.Pairwise fun later earlier =>
    ∀ rc ≠ 0, earlier = .ret rc → ∀ k c m, later ≠ .call k c m
  /-- A push returns 0 or the code of a refusal. -/
  refused : ∀ rc, .refused rc ∈ s.log → rc ≠ 0 ∧ .ret rc ∈ s.log
  /-- `drain`'s next section records a refusal. -/
  recorded : ∀ rc ≠ 0, .ret rc ∈ s.log → s.consumer = .returned rc ∨ s.ab.sink_rc = rc
  /-- And then every push returns its code, and so does the stop. -/
  later : ∀ t, Reaches AccuBufSys.step Normal s t → s.ab.sink_rc ≠ 0 →
    ∃ l, t.log = l ++ s.log ∧ ∀ e ∈ l, e = .refused s.ab.sink_rc ∨ e = .stopped s.ab.sink_rc
  /-- The stop returns the code of the refusal, and 0 only when the sink has had every chunk. -/
  stopped : ∀ rc, .stopped rc ∈ s.log → (∀ rc' ≠ 0, .ret rc' ∈ s.log → rc = rc') ∧
    ((∀ rc', .ret rc' ∈ s.log → rc' = 0) → rc = 0 ∧ (called s.log).length = (pushed s.log).length)

section
variable {l : List RingEvent}

@[simp] theorem calls_pushed {c : Chunk} {m : Mem} : calls (.pushed c m :: l) = calls l := rfl
@[simp] theorem calls_refused {rc : Int} : calls (.refused rc :: l) = calls l := rfl
@[simp] theorem calls_call {k : Option Nat} {c : Chunk} {m : Mem} :
    calls (.call k c m :: l) = (c, m) :: calls l := rfl
@[simp] theorem calls_ret {rc : Int} : calls (.ret rc :: l) = calls l := rfl
@[simp] theorem calls_stopped {rc : Int} : calls (.stopped rc :: l) = calls l := rfl

@[simp] theorem length_pushed : (pushed l).length = (pushes l).length := List.length_reverse
@[simp] theorem length_called : (called l).length = (calls l).length := List.length_reverse

theorem pushed_cons {c : Chunk} {m : Mem} : pushed (.pushed c m :: l) = pushed l ++ [(c, m)] := by
  simp [pushed]

theorem called_cons {k : Option Nat} {c : Chunk} {m : Mem} :
    called (.call k c m :: l) = called l ++ [(c, m)] := by
  simp [called]

end

/-- What was pushed stays where it is in the order of pushes. -/
theorem getElem?_pushed_cons {l : List RingEvent} {i : Nat} {p : Chunk × Mem} {c : Chunk} {m : Mem}
    (h : (pushed l)[i]? = some p) : (pushed (.pushed c m :: l))[i]? = some p := by
  rw [pushed_cons, List.getElem?_append_left (List.getElem?_eq_some_iff.1 h).1, h]

/-- A slot that is not written holds what it held. -/
theorem AsPushed.congr {p : Chunk × Mem} {c : Chunk} {m m' : Mem} (h : AsPushed p (c, m))
    (hm : ∀ i < p.1.need, m' (c.data + i) = m (c.data + i)) : AsPushed p (c, m') :=
  ⟨h.metadata, fun i hi => (hm i hi).trans (h.payload i hi)⟩

/-- The slot that a push writes. -/
theorem AsPushed.store {c : Chunk} {src m : Mem} {dst : Nat} :
    AsPushed (c, src) ({ c with data := dst }, memcpy m dst src c.data c.need) where
  metadata := rfl
  payload := fun i hi => by
    show memcpy m dst src c.data c.need (dst + i) = src (c.data + i)
    rw [memcpy_in (Nat.le_add_right ..) (Nat.add_lt_add_left hi _), Nat.add_sub_cancel_left]

namespace AccuBufSys

/-- What is between the threads: who has refused, who is done. -/
structure Ctl (s : AccuBufSys) : Prop where
  done : s.ab.producer_done = true ↔ s.producer = .joining ∨ s.producer = .stopped
  returned : ∀ rc, s.consumer = .returned rc → .ret rc ∈ s.log
  rets : ∀ rc ≠ 0, .ret rc ∈ s.log →
    s.consumer = .returned rc ∨ (s.consumer = .exited ∧ s.ab.sink_rc = rc)
  sink_rc : s.ab.sink_rc ≠ 0 → s.consumer = .exited ∧ .ret s.ab.sink_rc ∈ s.log
  exited : s.consumer = .exited → s.ab.sink_rc = 0 → s.ab.producer_done = true ∧ s.ab.count = 0
  refused : ∀ rc, .refused rc ∈ s.log → rc ≠ 0 ∧ rc = s.ab.sink_rc
  stopped : ∀ rc, .stopped rc ∈ s.log → s.producer = .stopped ∧ rc = s.ab.sink_rc
  joined : s.producer = .stopped → s.consumer = .exited
  quiet : s.log.Pairwise fun later earlier =>
    ∀ rc ≠ 0, earlier = .ret rc → ∀ k c m, later ≠ .call k c m

/-- What is in the slots and what the sink has had. -/
structure Sync (s : AccuBufSys) : Prop where
  inv : Inv s
  ctl : Ctl s
  fits : ∀ p ∈ pushes s.log, p.1.need ≤ s.ab.slot_bytes
  pushing : ∀ c src, s.producer = .pushing c src → c.need ≤ s.ab.slot_bytes
  slots : ∀ i < s.ab.count, ∃ p, (pushed s.log)[(pushes s.log).length - s.ab.count + i]? = some p ∧
    (s.ab.slot ((s.ab.tail + i) % s.ab.nslots)).data =
      (s.ab.tail + i) % s.ab.nslots * s.ab.slot_bytes ∧
    AsPushed p (s.ab.slot ((s.ab.tail + i) % s.ab.nslots), s.ab.arena)
  length : (Accudisc.calls s.log).length =
    (pushes s.log).length - s.ab.count + if s.consumer.inFlight then 1 else 0
  calls : ∀ (i : Nat) x, (called s.log)[i]? = some x → ∃ p, (pushed s.log)[i]? = some p ∧ AsPushed p x
  calling : ∀ c, s.consumer = .calling c → c = s.ab.slot s.ab.tail

variable {s t : AccuBufSys}

/-! ## The control -/

theorem Ctl.init {ab : AccuBuf} (hd : ab.producer_done = false) (hrc : ab.sink_rc = 0) :
    Ctl (init ab) where
  done := by simp [AccuBufSys.init, hd]
  returned := nofun
  rets := nofun
  sink_rc := fun h => absurd hrc h
  exited := nofun
  refused := nofun
  stopped := nofun
  joined := nofun
  quiet := .nil

theorem Ctl.push_step (h : Ctl s) {c : Chunk} {src : Mem}
    (hp : s.producer ≠ .joining ∧ s.producer ≠ .stopped) : Ctl (s.push_step c src) := by
  have hdone : s.ab.producer_done = false := by
    rw [Bool.eq_false_iff]
    exact fun hd => (h.done.1 hd).elim hp.1 hp.2
  have hstop : ∀ rc, RingEvent.stopped rc ∉ s.log := fun rc hm => hp.2 (h.stopped rc hm).1
  unfold AccuBufSys.push_step AccuBuf.push_section
  by_cases hfull : s.ab.count = s.ab.nslots ∧ s.ab.sink_rc = 0
  · rw [if_pos hfull]
    exact { h with
      done := by simp [hdone]
      stopped := fun rc hm => absurd hm (hstop rc)
      joined := nofun }
  rw [if_neg hfull]
  by_cases hrc : s.ab.sink_rc ≠ 0
  · simp only [if_pos hrc]
    exact {
      done := by simp [hdone]
      returned := fun rc hr => List.mem_cons_of_mem _ (h.returned rc hr)
      rets := fun rc h0 hm => h.rets rc h0 (by simpa using hm)
      sink_rc := fun h0 => (h.sink_rc h0).imp_right (List.mem_cons_of_mem _)
      exited := h.exited
      refused := fun rc hm => by
        rcases List.mem_cons.1 hm with he | hm
        · obtain rfl := RingEvent.refused.inj he
          exact ⟨hrc, rfl⟩
        · exact h.refused rc hm
      stopped := fun rc hm => absurd (by simpa using hm) (hstop rc)
      joined := nofun
      quiet := List.pairwise_cons.2 ⟨by simp, h.quiet⟩ }
  · rw [if_neg hrc]
    simp only [ne_eq, not_true_eq_false, if_false]
    have hrc : s.ab.sink_rc = 0 := not_not.1 hrc
    exact {
      done := by simp [hdone]
      returned := fun rc hr => List.mem_cons_of_mem _ (h.returned rc hr)
      rets := fun rc h0 hm => h.rets rc h0 (by simpa using hm)
      sink_rc := fun h0 => absurd hrc h0
      exited := fun hc _ => absurd (h.exited hc hrc).1 (by simp [hdone])
      refused := fun rc hm => h.refused rc (by simpa using hm)
      stopped := fun rc hm => absurd (by simpa using hm) (hstop rc)
      joined := nofun
      quiet := List.pairwise_cons.2 ⟨by simp, h.quiet⟩ }

/-- The stop's section, from between two pushes. -/
theorem Ctl.stop_section (h : Ctl s) (hp : s.producer = .idle) :
    Ctl { s with ab := s.ab.stop_section 0, producer := .joining } where
  done := by simp [AccuBuf.stop_section]
  returned := h.returned
  rets := h.rets
  sink_rc := h.sink_rc
  exited := fun hc h0 => ⟨rfl, (h.exited hc h0).2⟩
  refused := h.refused
  stopped := fun rc hm => by simpa [hp] using (h.stopped rc hm).1
  joined := nofun
  quiet := h.quiet

theorem Ctl.join (h : Ctl s) (hp : s.producer = .joining) (hc : s.consumer = .exited) :
    Ctl ({ s with ab := { s.ab with thread_live := false }, producer := .stopped }.emit
      (.stopped s.ab.sink_rc)) where
  done := by simpa [emit, hp] using h.done
  returned := fun rc hr => List.mem_cons_of_mem _ (h.returned rc hr)
  rets := fun rc h0 hm => h.rets rc h0 (by simpa [emit] using hm)
  sink_rc := fun h0 => (h.sink_rc h0).imp_right (List.mem_cons_of_mem _)
  exited := h.exited
  refused := fun rc hm => h.refused rc (by simpa [emit] using hm)
  stopped := fun rc hm => ⟨rfl, by
    rcases List.mem_cons.1 hm with he | hm
    · exact RingEvent.stopped.inj he
    · exact (h.stopped rc hm).2⟩
  joined := fun _ => hc
  quiet := List.pairwise_cons.2 ⟨by simp, h.quiet⟩

/-- No return so far was a refusal, while `drain` has neither to record one nor exited. -/
theorem Ctl.accepted (h : Ctl s) (hr : ∀ rc, s.consumer ≠ .returned rc) (he : s.consumer ≠ .exited)
    {rc : Int} (hm : .ret rc ∈ s.log) : rc = 0 := by
  by_contra h0
  rcases h.rets rc h0 hm with h | h
  · exact hr rc h
  · exact he h.1

theorem Ctl.drain_step (h : Ctl s) (hc : s.consumer = .top) : Ctl s.drain_step := by
  have hrc : s.ab.sink_rc = 0 := by
    by_contra h0
    simpa [hc] using (h.sink_rc h0).1
  have hacc : ∀ rc, RingEvent.ret rc ∈ s.log → rc = 0 := fun rc =>
    h.accepted (by simp [hc]) (by simp [hc])
  have hstop : s.producer ≠ .stopped := fun hp => by simpa [hc] using h.joined hp
  unfold AccuBufSys.drain_step AccuBuf.take_section
  by_cases hw : s.ab.count = 0 ∧ s.ab.producer_done = false
  · rw [if_pos hw]
    exact h
  rw [if_neg hw]
  by_cases h0 : s.ab.count = 0
  · rw [if_pos h0]
    exact { h with
      returned := nofun
      rets := fun rc hne hm => absurd (hacc rc hm) hne
      sink_rc := fun hne => absurd hrc hne
      exited := fun _ _ => ⟨by simpa [h0] using hw, h0⟩
      joined := fun _ => rfl }
  · rw [if_neg h0]
    exact {
      done := h.done
      returned := nofun
      rets := fun rc hne hm => absurd (hacc rc (by simpa using hm)) hne
      sink_rc := fun hne => absurd hrc hne
      exited := nofun
      refused := fun rc hm => h.refused rc (by simpa using hm)
      stopped := fun rc hm => h.stopped rc (by simpa using hm)
      joined := fun hp => absurd hp hstop
      quiet := List.pairwise_cons.2
        ⟨fun e he rc hne heq => absurd (hacc rc (heq ▸ he)) hne, h.quiet⟩ }

theorem Ctl.sink_return (h : Ctl s) {c : Chunk} (hc : s.consumer = .calling c) (rc : Int) :
    Ctl ({ s with consumer := .returned rc }.emit (.ret rc)) := by
  have hrc : s.ab.sink_rc = 0 := by
    by_contra h0
    simpa [hc] using (h.sink_rc h0).1
  have hstop : s.producer ≠ .stopped := fun hp => by simpa [hc] using h.joined hp
  exact {
    done := h.done
    returned := fun rc' hr => by
      obtain rfl := RingConsumer.returned.inj hr
      exact List.mem_cons_self ..
    rets := fun rc' hne hm => by
      rcases List.mem_cons.1 hm with he | hm
      · exact .inl (by rw [RingEvent.ret.inj he]; rfl)
      · exact absurd (h.accepted (by simp [hc]) (by simp [hc]) hm) hne
    sink_rc := fun hne => absurd hrc hne
    exited := nofun
    refused := fun rc hm => h.refused rc (by simpa [emit] using hm)
    stopped := fun rc hm => h.stopped rc (by simpa [emit] using hm)
    joined := fun hp => absurd hp hstop
    quiet := List.pairwise_cons.2 ⟨by simp, h.quiet⟩ }

theorem Ctl.drain_finish (h : Ctl s) {rc : Int} (hc : s.consumer = .returned rc) :
    Ctl { s with ab := s.ab.finish_section rc, consumer := if rc ≠ 0 then .exited else .top } := by
  have hrc : s.ab.sink_rc = 0 := by
    by_contra h0
    simpa [hc] using (h.sink_rc h0).1
  have hstop : s.producer ≠ .stopped := fun hp => by simpa [hc] using h.joined hp
  have hrets : ∀ rc' ≠ 0, RingEvent.ret rc' ∈ s.log → rc = rc' := fun rc' hne hm => by
    rcases h.rets rc' hne hm with hr | hr
    · exact RingConsumer.returned.inj (hc.symm.trans hr)
    · simp [hc] at hr
  have hsink : (s.ab.finish_section rc).sink_rc = rc := by
    by_cases h0 : rc = 0 <;> simp [AccuBuf.finish_section, hrc, h0]
  exact {
    done := h.done
    returned := fun rc' hr => by
      simp only at hr
      split at hr <;> cases hr
    rets := fun rc' hne hm => by
      obtain rfl := hrets rc' hne hm
      exact .inr ⟨if_pos hne, hsink⟩
    sink_rc := fun hne => by
      rw [show { s with ab := s.ab.finish_section rc, consumer := _ : AccuBufSys }.ab.sink_rc = rc
        from hsink]
        at hne ⊢
      exact ⟨if_pos hne, h.returned rc hc⟩
    exited := fun he h0 => by
      simp only [hsink] at h0
      simp [h0] at he
    refused := fun rc' hm => by
      obtain ⟨hne, heq⟩ := h.refused rc' hm
      exact absurd (heq.trans hrc) hne
    stopped := fun rc' hm => absurd (h.stopped rc' hm).1 hstop
    joined := fun hp => absurd hp hstop
    quiet := h.quiet }

/-! ## The slots -/

theorem Sync.init {ab : AccuBuf} (hI : Inv (init ab)) (hC : Ctl (init ab)) (h0 : ab.count = 0) :
    Sync (init ab) where
  inv := hI
  ctl := hC
  fits := nofun
  pushing := nofun
  slots := fun i hi => absurd (h0 ▸ hi) (Nat.not_lt_zero i)
  length := by simp [AccuBufSys.init, Accudisc.calls, pushes, RingConsumer.inFlight]
  calls := nofun
  calling := nofun

theorem Sync.push_step (h : Sync s) {c : Chunk} {src : Mem}
    (hp : s.producer ≠ .joining ∧ s.producer ≠ .stopped) (hc : c.need ≤ s.ab.slot_bytes) :
    Sync (s.push_step c src) := by
  have hI : Inv (s.push_step c src) := h.inv.push_step hp
  have hC : Ctl (s.push_step c src) := h.ctl.push_step hp
  unfold AccuBufSys.push_step AccuBuf.push_section at hI hC ⊢
  by_cases hfull : s.ab.count = s.ab.nslots ∧ s.ab.sink_rc = 0
  · rw [if_pos hfull] at hI hC ⊢
    exact { h with
      inv := hI
      ctl := hC
      pushing := fun c' src' he => by
        obtain ⟨rfl, -⟩ := RingProducer.pushing.inj he
        exact hc }
  rw [if_neg hfull] at hI hC ⊢
  by_cases hrc : s.ab.sink_rc ≠ 0
  · simp only [if_pos hrc] at hI hC ⊢
    exact { h with inv := hI, ctl := hC, pushing := nofun }
  rw [if_neg hrc] at hI hC ⊢
  have hlt : s.ab.count < s.ab.nslots := by have := h.inv.count_le; omega
  have hn := h.inv.nslots
  have hcp := h.inv.count_pushes
  have hcount : (s.ab.count + 1) % 2 ^ 32 = s.ab.count + 1 := Nat.mod_eq_of_lt (by omega)
  simp only [hcount, ne_eq, not_true_eq_false, if_false] at hI hC ⊢
  constructor
  case inv => exact hI
  case ctl => exact hC
  case pushing => exact nofun
  case calling =>
    intro c' he
    have hpos := h.inv.flight (by rw [show s.consumer = .calling c' from he]; rfl)
    have hne : s.ab.tail ≠ s.ab.head := by
      have := ring_ne (n := s.ab.nslots) (t := s.ab.tail) hpos hlt
      rwa [Nat.add_zero, Nat.mod_eq_of_lt h.inv.tail_lt, ← h.inv.head] at this
    show c' = Function.update s.ab.slot s.ab.head _ s.ab.tail
    rw [Function.update_of_ne hne]
    exact h.calling c' he
  case fits =>
    intro p hm
    rcases List.mem_cons.1 hm with rfl | hm
    · exact hc
    · exact h.fits p hm
  case slots =>
    intro i hi
    show ∃ p, (pushed _)[(pushes s.log).length + 1 - (s.ab.count + 1) + i]? = some p ∧ _
    rw [Nat.add_sub_add_right]
    rcases Nat.lt_succ_iff_lt_or_eq.1 hi with hi | rfl
    · obtain ⟨p, hp, hd, has⟩ := h.slots i hi
      have hne : (s.ab.tail + i) % s.ab.nslots ≠ s.ab.head := h.inv.head ▸ ring_ne hi hlt
      refine ⟨p, getElem?_pushed_cons hp, ?_, ?_⟩
      · show (Function.update s.ab.slot s.ab.head _ ((s.ab.tail + i) % s.ab.nslots)).data = _
        rw [Function.update_of_ne hne]
        exact hd
      · show AsPushed p (Function.update s.ab.slot s.ab.head _ ((s.ab.tail + i) % s.ab.nslots), _)
        rw [Function.update_of_ne hne]
        refine has.congr fun j hj => memcpy_out ?_
        have hfit := h.fits p (List.mem_reverse.1 (List.mem_of_getElem? hp))
        rw [hd]
        exact block_disjoint hne (Nat.lt_of_lt_of_le hj hfit) hc
    · refine ⟨(c, src), ?_, ?_, ?_⟩
      · rw [pushed_cons, Nat.sub_add_cancel hcp, ← length_pushed, List.getElem?_concat_length]
      · show (Function.update s.ab.slot s.ab.head _ ((s.ab.tail + s.ab.count) % s.ab.nslots)).data = _ % _ *
          _
        rw [← h.inv.head, Function.update_self]
      · show AsPushed (c, src)
          (Function.update s.ab.slot s.ab.head _ ((s.ab.tail + s.ab.count) % s.ab.nslots), _)
        rw [← h.inv.head, Function.update_self]
        exact AsPushed.store
  case length =>
    show _ = (pushes s.log).length + 1 - (s.ab.count + 1) + _
    rw [Nat.add_sub_add_right]
    exact h.length
  case calls =>
    intro i x hx
    obtain ⟨p, hp, has⟩ := h.calls i x hx
    exact ⟨p, getElem?_pushed_cons hp, has⟩

theorem Sync.drain_step (h : Sync s) (hc : s.consumer = .top) : Sync s.drain_step := by
  have hI := h.inv.drain_step hc
  have hC := h.ctl.drain_step hc
  have hlen := h.length
  rw [show s.consumer.inFlight = false by rw [hc]; rfl] at hlen
  unfold AccuBufSys.drain_step AccuBuf.take_section at hI hC ⊢
  by_cases hw : s.ab.count = 0 ∧ s.ab.producer_done = false
  · rw [if_pos hw] at hI hC ⊢
    exact h
  rw [if_neg hw] at hI hC ⊢
  by_cases h0 : s.ab.count = 0
  · rw [if_pos h0] at hI hC ⊢
    exact { h with inv := hI, ctl := hC, length := hlen, calling := nofun }
  rw [if_neg h0] at hI hC ⊢
  -- The call's index is that of the chunk in the slot at the tail.
  obtain ⟨p, hp, -, has⟩ := h.slots 0 (Nat.pos_of_ne_zero h0)
  rw [Nat.add_zero, Nat.mod_eq_of_lt h.inv.tail_lt] at has
  exact { h with
    inv := hI
    ctl := hC
    length := by
      show (Accudisc.calls s.log).length + 1 = _
      rw [hlen]
      rfl
    calls := fun i x hx => by
      simp only [called_cons] at hx
      rcases Nat.lt_or_ge i (called s.log).length with hi | hi
      · rw [List.getElem?_append_left hi] at hx
        exact h.calls i x hx
      · obtain rfl : i = (called s.log).length := by
          have := (List.getElem?_eq_some_iff.1 hx).1
          rw [List.length_append, List.length_singleton] at this
          omega
        rw [List.getElem?_concat_length] at hx
        obtain rfl := Option.some.inj hx
        refine ⟨p, ?_, has⟩
        rw [length_called, hlen]
        exact hp
    calling := fun c he => (RingConsumer.calling.inj he).symm }

theorem Sync.drain_finish (h : Sync s) {rc : Int} (hc : s.consumer = .returned rc) :
    Sync { s with ab := s.ab.finish_section rc, consumer := if rc ≠ 0 then .exited else .top } := by
  have hI := h.inv.drain_finish hc
  have hC := h.ctl.drain_finish hc
  have hf : s.consumer.inFlight = true := by rw [hc]; rfl
  have hlen := h.length
  have hf' : (if rc ≠ 0 then RingConsumer.exited else .top).inFlight = false := by split <;> rfl
  have hpos := h.inv.flight hf
  have hn := h.inv.nslots
  have hle := h.inv.count_le
  have htail := h.inv.tail_lt
  have hcp := h.inv.count_pushes
  have hcount : (s.ab.count + (2 ^ 32 - 1)) % 2 ^ 32 = s.ab.count - 1 := by omega
  have htail' : (s.ab.tail + 1) % 2 ^ 32 = s.ab.tail + 1 := Nat.mod_eq_of_lt (by omega)
  rw [hf] at hlen
  unfold AccuBuf.finish_section at hI hC ⊢
  simp only [hcount, htail'] at hI hC ⊢
  exact { h with
    inv := hI
    ctl := hC
    slots := fun i hi => by
      have hi : i + 1 < s.ab.count := Nat.lt_sub_iff_add_lt.1 hi
      obtain ⟨p, hp, hd, has⟩ := h.slots (i + 1) hi
      refine ⟨p, ?_, ?_, ?_⟩
      · rw [← hp]
        exact congrArg (fun j => (pushed s.log)[j]?) (by
          show (pushes s.log).length - (s.ab.count - 1) + i = _
          omega)
      · show (s.ab.slot (((s.ab.tail + 1) % s.ab.nslots + i) % s.ab.nslots)).data = _
        rw [ring_succ]
        exact hd
      · show AsPushed p (s.ab.slot (((s.ab.tail + 1) % s.ab.nslots + i) % s.ab.nslots), s.ab.arena)
        rw [ring_succ]
        exact has
    length := by
      show _ = (pushes s.log).length - (s.ab.count - 1) + if _ then 1 else 0
      rw [hf']
      simp only [if_true, Bool.false_eq_true, if_false] at hlen ⊢
      omega
    calling := fun c he => by
      simp only at he
      split at he <;> cases he }

/-- Every step of a normal run keeps the invariant. -/
theorem Sync.step (h : Sync s) {a : RingAction} (ha : Normal s a) (hs : s.step a = some t) : Sync t := by
  have hI := h.inv.step (t := t) (fun d hd h0 => absurd (ha.2 d hd).1 h0) hs
  obtain ⟨ab, p, d, stamp, log⟩ := s
  cases a with
  | push c src =>
    cases p <;> simp only [AccuBufSys.step, reduceCtorEq] at hs
    have hfit := ha.1 c src rfl
    split at hs
    · rename_i hbig
      exact absurd hfit (Nat.not_le.2 hbig)
    · obtain rfl := Option.some.inj hs
      exact h.push_step (by simp) hfit
  | push_wake =>
    cases p <;> simp only [AccuBufSys.step, reduceCtorEq] at hs
    obtain rfl := Option.some.inj hs
    exact h.push_step (by simp) (h.pushing _ _ rfl)
  | stop discard =>
    obtain ⟨rfl, hns⟩ := ha.2 discard rfl
    cases p <;> simp only [AccuBufSys.step, reduceCtorEq] at hs
    · obtain rfl := Option.some.inj hs
      exact { h with inv := hI, ctl := h.ctl.stop_section rfl, pushing := by simp }
    · exact absurd rfl hns
  | join =>
    cases p <;> cases d <;> simp only [AccuBufSys.step, reduceCtorEq] at hs
    obtain rfl := Option.some.inj hs
    exact { h with inv := hI, ctl := h.ctl.join rfl rfl, pushing := fun _ _ hp => by cases hp }
  | drain =>
    cases d <;> simp only [AccuBufSys.step, reduceCtorEq] at hs
    obtain rfl := Option.some.inj hs
    exact h.drain_step rfl
  | sink_return rc =>
    cases d <;> simp only [AccuBufSys.step, reduceCtorEq] at hs
    obtain rfl := Option.some.inj hs
    exact { h with inv := hI, ctl := h.ctl.sink_return rfl rc, calling := fun _ hp => by cases hp }
  | drain_finish =>
    cases d <;> simp only [AccuBufSys.step, reduceCtorEq] at hs
    obtain rfl := Option.some.inj hs
    exact h.drain_finish rfl

/-! ## The promise -/

theorem push_step_refused (hrc : s.ab.sink_rc ≠ 0) (c : Chunk) (src : Mem) :
    s.push_step c src = { s with producer := .idle, log := .refused s.ab.sink_rc :: s.log } := by
  simp [AccuBufSys.push_step, AccuBuf.push_section, hrc]

/-- A push after a refusal is recorded. -/
theorem step_push_refused (hp : s.producer = .idle) (hrc : s.ab.sink_rc ≠ 0) {c : Chunk} {src : Mem}
    (hc : c.need ≤ s.ab.slot_bytes) :
    s.step (.push c src) = some { s with producer := .idle, log := .refused s.ab.sink_rc :: s.log } := by
  unfold AccuBufSys.step
  rw [hp]
  exact (if_neg (Nat.not_lt.2 hc)).trans (congrArg some (push_step_refused hrc c src))

/-- After a refusal is recorded: a push returns its code, the stop returns it, nothing else happens. -/
theorem refused_step {a : RingAction} (he : s.consumer = .exited) (hrc : s.ab.sink_rc ≠ 0)
    (ha : Normal s a) (hs : s.step a = some t) :
    t.consumer = .exited ∧ t.ab.sink_rc = s.ab.sink_rc ∧
      ∃ l, t.log = l ++ s.log ∧ ∀ e ∈ l, e = .refused s.ab.sink_rc ∨ e = .stopped s.ab.sink_rc := by
  have hpush := push_step_refused hrc
  obtain ⟨ab, p, d, stamp, log⟩ := s
  obtain rfl : d = .exited := he
  cases a with
  | push c src =>
    cases p <;> simp only [AccuBufSys.step, reduceCtorEq] at hs
    split at hs
    · rename_i hbig
      exact absurd (ha.1 c src rfl) (Nat.not_le.2 hbig)
    · obtain rfl := Option.some.inj hs
      rw [hpush]
      exact ⟨rfl, rfl, [_], rfl, by simp⟩
  | push_wake =>
    cases p <;> simp only [AccuBufSys.step, reduceCtorEq] at hs
    obtain rfl := Option.some.inj hs
    rw [hpush]
    exact ⟨rfl, rfl, [_], rfl, by simp⟩
  | stop discard =>
    obtain ⟨rfl, hns⟩ := ha.2 discard rfl
    cases p <;> simp only [AccuBufSys.step, reduceCtorEq] at hs
    · obtain rfl := Option.some.inj hs
      exact ⟨rfl, rfl, [], rfl, by simp⟩
    · exact absurd rfl hns
  | join =>
    cases p <;> simp only [AccuBufSys.step, reduceCtorEq] at hs
    obtain rfl := Option.some.inj hs
    exact ⟨rfl, rfl, [_], rfl, by simp⟩
  | drain | sink_return rc | drain_finish => simp [AccuBufSys.step] at hs

theorem refused_run (he : s.consumer = .exited) (hrc : s.ab.sink_rc ≠ 0)
    (h : Reaches AccuBufSys.step Normal s t) :
    ∃ l, t.log = l ++ s.log ∧ ∀ e ∈ l, e = .refused s.ab.sink_rc ∨ e = .stopped s.ab.sink_rc := by
  have hinv : t.consumer = .exited ∧ t.ab.sink_rc = s.ab.sink_rc ∧
      ∃ l, t.log = l ++ s.log ∧ ∀ e ∈ l, e = .refused s.ab.sink_rc ∨ e = .stopped s.ab.sink_rc := by
    induction h with
    | refl => exact ⟨he, rfl, [], rfl, nofun⟩
    | step _ ha hs ih => ?_
    obtain ⟨hc, heq, l, hl, hm⟩ := ih
    obtain ⟨hc', heq', l', hl', hm'⟩ := refused_step hc (heq ▸ hrc) ha hs
    refine ⟨hc', heq'.trans heq, l' ++ l, by rw [hl', hl, List.append_assoc], fun e hmem => ?_⟩
    rcases List.mem_append.1 hmem with hmem | hmem
    · exact heq ▸ hm' e hmem
    · exact hm e hmem
  exact hinv.2.2

theorem Sync.synchronous (h : Sync s) : Synchronous s where
  calls := h.calls
  held := fun c hc => by
    have hf : s.consumer.inFlight = true := by rw [hc]; rfl
    obtain ⟨p, hp, -, has⟩ := h.slots 0 (h.inv.flight hf)
    rw [Nat.add_zero, Nat.mod_eq_of_lt h.inv.tail_lt] at has
    refine ⟨p, ?_, h.calling c hc ▸ has⟩
    rw [length_called, h.length, hf]
    exact hp
  quiet := h.ctl.quiet
  refused := fun rc hm => by
    obtain ⟨h0, rfl⟩ := h.ctl.refused rc hm
    exact ⟨h0, (h.ctl.sink_rc h0).2⟩
  recorded := fun rc h0 hm => (h.ctl.rets rc h0 hm).imp_right And.right
  later := fun t ht hrc => refused_run (h.ctl.sink_rc hrc).1 hrc ht
  stopped := fun rc hm => by
    obtain ⟨hp, rfl⟩ := h.ctl.stopped rc hm
    have he := h.ctl.joined hp
    refine ⟨fun rc' h0 hr => ?_, fun hall => ?_⟩
    · rcases h.ctl.rets rc' h0 hr with hc | hc
      · simp [he] at hc
      · exact hc.2
    · have hrc : s.ab.sink_rc = 0 := by
        by_contra h0
        exact h0 (hall _ (h.ctl.sink_rc h0).2)
      refine ⟨hrc, ?_⟩
      rw [length_called, length_pushed, h.length, (h.ctl.exited he hrc).2, he]
      rfl

end AccuBufSys

/-- **Normal completion**: every state of a run whose pushes fit a slot and that ends in one stop, which
does not discard, is as the synchronous path would have it. -/
theorem accubuf_synchronous {env : AccuBufEnv} {ab bytes slot_bytes sink : Nat} {b : AccuBuf}
    {s : AccuBufSys} (h0 : adsc_accubuf_start env ab bytes slot_bytes sink = .ok b)
    (h : Reaches AccuBufSys.step Normal (.init b) s) : s.Synchronous := by
  have hinv := AccuBufSys.Inv.init h0
  unfold adsc_accubuf_start at h0
  simp only [check_eq_ok, Except.ok.injEq] at h0
  obtain ⟨-, -, -, rfl⟩ := h0
  exact (h.inv (I := AccuBufSys.Sync) (.init hinv (.init rfl rfl) rfl) fun hS ha hs =>
    hS.step ha hs).synchronous

/-- Two chunks, the first refused: the next push and the stop return the sink's code. -/
theorem accubuf_synchronous_refused : ∃ s,
    adsc_accubuf_start ⟨true, true, true, (true, true), true⟩ 1 16 8 1 = .ok (.empty 2 8) ∧
      Reaches AccuBufSys.step Normal (.init (.empty 2 8)) s ∧ (pushed s.log).length = 2 ∧
      (∃ l, s.log = .stopped 7 :: .refused 7 :: l) ∧ s.Synchronous := by
  let c : Chunk := ⟨0, 1, 0, 8, 8, 0, 0⟩
  have h0 : adsc_accubuf_start ⟨true, true, true, (true, true), true⟩ 1 16 8 1 = .ok (.empty 2 8) := rfl
  have hpush : ∀ s : AccuBufSys, s.ab.slot_bytes = 8 → Normal s (.push c fun _ => 0) := fun s hb =>
    ⟨fun c' src he => by
      obtain ⟨rfl, -⟩ := RingAction.push.inj he
      rw [hb]
      decide, nofun⟩
  have h₁ : Reaches AccuBufSys.step Normal (.init (.empty 2 8)) _ :=
    .step (a := .drain_finish) (.step (a := .sink_return 7) (.step (a := .drain)
      (.step (a := .push c fun _ => 0) (.step (a := .push c fun _ => 0) .refl (hpush _ rfl) rfl)
        (hpush _ rfl) rfl) ⟨nofun, nofun⟩ rfl) ⟨nofun, nofun⟩ rfl) ⟨nofun, nofun⟩ rfl
  have h₂ := h₁.step (hpush _ rfl) (AccuBufSys.step_push_refused rfl (by decide) (by decide))
  have h := (h₂.step (a := .stop 0)
    ⟨nofun, fun d hd => ⟨(RingAction.stop.inj hd).symm, nofun⟩⟩ rfl).step (a := .join) ⟨nofun, nofun⟩ rfl
  exact ⟨_, h0, h, rfl, ⟨_, rfl⟩, accubuf_synchronous h0 h⟩

/-- A push between the sink's refusal and `drain`'s next section returns 0. -/
theorem accubuf_refusal_window : ∃ s,
    adsc_accubuf_start ⟨true, true, true, (true, true), true⟩ 1 16 8 1 = .ok (.empty 2 8) ∧
      Reaches AccuBufSys.step Normal (.init (.empty 2 8)) s ∧
      ∃ c src l, s.log = .pushed c src :: .ret 7 :: l := by
  let c : Chunk := ⟨0, 1, 0, 8, 8, 0, 0⟩
  have hpush : ∀ s : AccuBufSys, s.ab.slot_bytes = 8 → Normal s (.push c fun _ => 0) := fun s hb =>
    ⟨fun c' src he => by
      obtain ⟨rfl, -⟩ := RingAction.push.inj he
      rw [hb]
      decide, nofun⟩
  have h : Reaches AccuBufSys.step Normal (.init (.empty 2 8)) _ :=
    .step (a := .push c fun _ => 0) (.step (a := .sink_return 7) (.step (a := .drain)
      (.step (a := .push c fun _ => 0) .refl (hpush _ rfl) rfl) ⟨nofun, nofun⟩ rfl)
      ⟨nofun, nofun⟩ rfl) (hpush _ rfl) rfl
  exact ⟨_, rfl, h, _, _, _, rfl⟩

end Accudisc
