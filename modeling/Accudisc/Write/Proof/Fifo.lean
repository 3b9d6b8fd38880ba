import Accudisc.Write.Fifo
import Accudisc.Lib.Loop
import Accudisc.Read.Proof.AccuBuf
import Mathlib.Algebra.BigOperators.Group.List.Basic

/-!
# The FIFO changes nothing that is written

Both paths walk the tracks as one stream of chunks. `Wfifo.Inv` says where in the stream the ring
and its threads are; the unbuffered path is the stream by the running sum of the lengths.
-/

namespace Accudisc

/-! ## The stream of chunks -/

/-- The chunks of a segment from sector `d` of it on. -/
def segChunks (s : WfifoSeg) (d : Nat) : List BinChunk :=
  if d < s.sectors then
    ⟨s.file_offset + d * SECTOR, min (s.sectors - d) CHUNK⟩ :: segChunks s (d + min (s.sectors - d) CHUNK)
  else []
termination_by s.sectors - d
decreasing_by
  have : 0 < CHUNK := by decide
  omega

/-- The chunks from sector `d` of the first segment on. -/
def restChunks : List WfifoSeg → Nat → List BinChunk
  | [], _ => []
  | s :: ss, d => segChunks s d ++ ss.flatMap (segChunks · 0)

section
variable {s : WfifoSeg} {ss : List WfifoSeg} {d n : Nat}

theorem segChunks_of_le (h : s.sectors ≤ d) : segChunks s d = [] := by
  rw [segChunks, if_neg (Nat.not_lt.2 h)]

theorem segChunks_of_lt (h : d < s.sectors) :
    segChunks s d = ⟨s.file_offset + d * SECTOR, min (s.sectors - d) CHUNK⟩ ::
      segChunks s (d + min (s.sectors - d) CHUNK) := by
  rw [segChunks, if_pos h]

theorem restChunks_zero : ∀ ss : List WfifoSeg, restChunks ss 0 = ss.flatMap (segChunks · 0)
  | [] => rfl
  | _ :: _ => rfl

theorem restChunks_of_le (h : s.sectors ≤ d) : restChunks (s :: ss) d = restChunks ss 0 := by
  rw [restChunks, segChunks_of_le h, restChunks_zero, List.nil_append]

/-- The next chunk of the stream. -/
theorem restChunks_of_lt (h : d < s.sectors) :
    restChunks (s :: ss) d = ⟨s.file_offset + d * SECTOR, min (s.sectors - d) CHUNK⟩ ::
      restChunks (s :: ss) (d + min (s.sectors - d) CHUNK) := by
  rw [restChunks, segChunks_of_lt h, restChunks, List.cons_append]

theorem advance_rest : ∀ (ss : List WfifoSeg) (d : Nat),
    restChunks (advance ss d).1 (advance ss d).2 = restChunks ss d
  | [], _ => rfl
  | s :: ss, d => by
    unfold advance
    split
    · rename_i h
      rw [advance_rest ss 0, restChunks_of_le h]
    · rfl

theorem advance_lt : ∀ (ss : List WfifoSeg) (d : Nat) {s : WfifoSeg} {ts : List WfifoSeg},
    (advance ss d).1 = s :: ts → (advance ss d).2 < s.sectors
  | [], _, _, _, h => by cases h
  | s :: ss, d, s', ts, h => by
    unfold advance at h ⊢
    split
    · rename_i hle
      rw [if_pos hle] at h
      exact advance_lt ss 0 h
    · rename_i hlt
      rw [if_neg hlt] at h
      obtain ⟨rfl, -⟩ := List.cons.inj h
      exact Nat.not_le.1 hlt

/-! ## The bytes of a chunk -/

theorem byteswap16_apply (p : Mem) (bytes i : Nat) :
    byteswap16 p bytes i =
      if i < 2 * (bytes / 2) then (if i % 2 = 0 then p (i + 1) else p (i - 1)) else p i := by
  have h := Loop.foldl_range_inv (fun k (q : Mem) => ∀ i, q i =
      if i < 2 * k then (if i % 2 = 0 then p (i + 1) else p (i - 1)) else p i) (f := swap_sample)
    (n := bytes / 2) (s := p) (by simp) ?_
  · exact h i
  · intro k _ q hq i
    unfold swap_sample
    by_cases h1 : i = 2 * k + 1
    · subst h1
      rw [Function.update_self, hq, if_neg (by omega), if_pos (by omega), if_neg (by omega)]
      rfl
    · rw [Function.update_of_ne h1]
      by_cases h0 : i = 2 * k
      · subst h0
        rw [Function.update_self, hq, if_neg (by omega), if_pos (by omega), if_pos (by omega)]
      · rw [Function.update_of_ne h0, hq]
        by_cases hi : i < 2 * k
        · rw [if_pos hi, if_pos (show i < 2 * (k + 1) by omega)]
        · rw [if_neg hi, if_neg (by omega)]

/-- The bytes of a buffer after its read, and after its swap if there is one. -/
def chunkData (file : BinFile) (byteswap : Bool) (c : BinChunk) (m : Mem) : Mem :=
  let m := memcpy m 0 file.bytes c.off (c.n * SECTOR)
  if byteswap then byteswap16 m (c.n * SECTOR) else m

/-- The chunk as written. -/
def chunkBytes (file : BinFile) (byteswap : Bool) (c : BinChunk) : Nat × List (BitVec 8) :=
  (c.n, (List.range (c.n * SECTOR)).map (chunkData file byteswap c fun _ => 0))

/-- What is in the buffer before does not matter. -/
theorem chunkData_congr (file : BinFile) (byteswap : Bool) (c : BinChunk) (m m' : Mem) {i : Nat}
    (hi : i < c.n * SECTOR) : chunkData file byteswap c m i = chunkData file byteswap c m' i := by
  have hcpy : ∀ j < c.n * SECTOR, memcpy m 0 file.bytes c.off (c.n * SECTOR) j =
      memcpy m' 0 file.bytes c.off (c.n * SECTOR) j := by
    intro j hj
    rw [memcpy_in (Nat.zero_le _) (by omega), memcpy_in (Nat.zero_le _) (by omega)]
  unfold chunkData
  cases byteswap with
  | false => exact hcpy i hi
  | true =>
    simp only [if_true, byteswap16_apply]
    split
    · split
      · exact hcpy _ (by omega)
      · exact hcpy _ (by omega)
    · exact hcpy i hi

end

/-! ## The ring -/

namespace Wfifo

/-- A slot holds a chunk as it is written. -/
def Holds (f : Wfifo) (c : BinChunk) (slot : Nat) : Prop :=
  (List.range (c.n * SECTOR)).map (f.arena slot) = (chunkBytes f.file f.byteswap c).2

/-- The producer, when `at` chunks of the stream `S` are published. -/
def ProducerAt (S : List BinChunk) (published : Nat) (f : Wfifo) : Prop :=
  match f.producer with
  | .idle => restChunks f.todo f.done_in_seg = S.drop published
  | .filling slot =>
    restChunks f.todo f.done_in_seg = S.drop published ∧ slot = f.head ∧ f.count < f.nslots
  | .swapping slot n => ∃ c, S[published]? = some c ∧ c.n = n ∧
      restChunks f.todo (f.done_in_seg + n) = S.drop (published + 1) ∧ slot = f.head ∧
      f.count < f.nslots ∧ ∃ m, f.arena slot = memcpy m 0 f.file.bytes c.off (c.n * SECTOR)
  | .publishing n => ∃ c, S[published]? = some c ∧ c.n = n ∧
      restChunks f.todo f.done_in_seg = S.drop (published + 1) ∧ f.count < f.nslots ∧ f.Holds c f.head
  | .finishing rc => rc = 0 ∧ S.length ≤ published
  | .exited => True

/-- The consumer, when `pos` chunks are released. -/
def ConsumerAt (S : List BinChunk) (pos : Nat) (f : Wfifo) : Prop :=
  let wrote k := f.log.reverse = (S.take k).map (chunkBytes f.file f.byteswap)
  match f.consumer with
  | .idle => wrote pos
  | .waiting => wrote pos
  | .holding slot n => wrote pos ∧ 0 < f.count ∧ slot = f.tail ∧ n = f.slot_nsec f.tail
  | .written => wrote (pos + 1) ∧ 0 < f.count
  | .ended rc => rc = 0 ∧ wrote S.length
  | .stopped => ∃ k, wrote k

/-- Where the ring and its threads are in the stream `S`: `pos` chunks are released, and the ring
holds the next `count`. -/
structure At (S : List BinChunk) (pos : Nat) (f : Wfifo) : Prop where
  reads : ∀ c ∈ S, f.file.readable c.off (c.n * SECTOR) = true
  room : f.tail < f.nslots
  fits : f.count ≤ f.nslots
  head : f.head = (f.tail + f.count) % f.nslots
  slots : ∀ k < f.count, ∃ c, S[pos + k]? = some c ∧
    f.slot_nsec ((f.tail + k) % f.nslots) = c.n ∧ f.Holds c ((f.tail + k) % f.nslots)
  rc : f.producer_rc = 0
  done_end : f.producer_done = true → S.length ≤ pos + f.count
  busy : f.producer ≠ .exited → f.producer_done = false
  producer : f.ProducerAt S (pos + f.count)
  consumer : f.ConsumerAt S pos

section
variable {S : List BinChunk} {pos : Nat} {f g : Wfifo}

theorem drop_cons {c : BinChunk} {l : List BinChunk} (h : S.drop pos = c :: l) :
    S[pos]? = some c ∧ S.drop (pos + 1) = l := by
  constructor
  · have : (S.drop pos)[0]? = some c := by rw [h]; rfl
    simpa using this
  · rw [← List.drop_drop, h]
    rfl

theorem At.acquire (h : f.At S pos) (hp : f.producer = .idle) : g ∈ f.step .acquire → g.At S pos := by
  intro hs
  simp only [step, hp, Option.mem_def] at hs
  have hprod := h.producer
  simp only [ProducerAt, hp] at hprod
  split at hs
  · obtain rfl := Option.some.inj hs
    exact { h with busy := fun hb => absurd rfl hb, producer := trivial, consumer := h.consumer }
  split at hs
  · obtain rfl := Option.some.inj hs
    exact h
  · rename_i hfull
    obtain rfl := Option.some.inj hs
    have hlt := lt_of_le_of_ne h.fits hfull
    exact { h with
      busy := fun _ => h.busy (by simp [hp])
      producer := ⟨hprod, rfl, hlt⟩
      consumer := h.consumer }

/-- A slot outside the ring's contents can be written. -/
theorem At.slots_update (h : f.At S pos) (hlt : f.count < f.nslots) (m : Mem) : ∀ k < f.count,
    ∃ c, S[pos + k]? = some c ∧ f.slot_nsec ((f.tail + k) % f.nslots) = c.n ∧
      (List.range (c.n * SECTOR)).map (Function.update f.arena f.head m ((f.tail + k) % f.nslots)) =
        (chunkBytes f.file f.byteswap c).2 := by
  intro k hk
  obtain ⟨c, hc, hn, hh⟩ := h.slots k hk
  refine ⟨c, hc, hn, ?_⟩
  rw [Function.update_of_ne]
  · exact hh
  · rw [h.head]
    exact ring_ne hk hlt

theorem At.fill (h : f.At S pos) {slot : Nat} (hp : f.producer = .filling slot) :
    (f.fill_step slot).At S pos := by
  have hprod := h.producer
  simp only [ProducerAt, hp] at hprod
  obtain ⟨hrest, rfl, hlt⟩ := hprod
  have hbusy : f.producer_done = false := h.busy (by simp [hp])
  have hadv := advance_rest f.todo f.done_in_seg
  rw [hrest] at hadv
  unfold fill_step
  cases ha : advance f.todo f.done_in_seg with
  | mk ss d =>
    rw [ha] at hadv
    cases ss with
    | nil =>
      have hend : S.length ≤ pos + f.count := List.drop_eq_nil_iff.1 hadv.symm
      exact { h with busy := fun _ => hbusy, producer := ⟨rfl, hend⟩, consumer := h.consumer }
    | cons s ss =>
      have hd : d < s.sectors := by
        have := advance_lt f.todo f.done_in_seg (show (advance f.todo f.done_in_seg).1 = s :: ss by rw [ha])
        rwa [ha] at this
      rw [restChunks_of_lt hd] at hadv
      obtain ⟨hc, hnext⟩ := drop_cons hadv.symm
      have hread := h.reads _ (List.mem_of_getElem? hc)
      dsimp only at hread ⊢
      rw [if_pos hread]
      exact { h with
        slots := h.slots_update hlt _
        busy := fun _ => hbusy
        producer := ⟨_, hc, rfl, hnext.symm, rfl, hlt, f.arena f.head, Function.update_self ..⟩
        consumer := h.consumer }

theorem At.swap (h : f.At S pos) {slot n : Nat} (hp : f.producer = .swapping slot n) :
    g ∈ f.step .swap → g.At S pos := by
  intro hs
  simp only [step, hp, Option.mem_def] at hs
  obtain rfl := Option.some.inj hs
  have hprod := h.producer
  simp only [ProducerAt, hp] at hprod
  obtain ⟨c, hc, rfl, hrest, rfl, hlt, m, hm⟩ := hprod
  have hbusy : f.producer_done = false := h.busy (by simp [hp])
  have hdata : ∀ i ∈ List.range (c.n * SECTOR),
      (if f.byteswap then byteswap16 (f.arena f.head) (c.n * SECTOR) else f.arena f.head) i =
        chunkData f.file f.byteswap c (fun _ => 0) i := by
    intro i hi
    rw [hm]
    exact chunkData_congr f.file f.byteswap c m _ (List.mem_range.1 hi)
  refine { h with
    slots := ?_
    busy := fun _ => hbusy
    producer := ⟨c, hc, rfl, hrest, hlt, ?_⟩
    consumer := h.consumer }
  · cases hb : f.byteswap with
    | false =>
      simpa [Holds, hb] using h.slots
    | true =>
      have := h.slots_update hlt (byteswap16 (f.arena f.head) (c.n * SECTOR))
      simpa [Holds, hb] using this
  · unfold Holds
    refine List.map_congr_left fun i hi => ?_
    rw [← hdata i hi]
    cases f.byteswap with
    | false => simp
    | true => simp

theorem At.publish (h : f.At S pos) {n : Nat} (hp : f.producer = .publishing n) :
    g ∈ f.step .publish → g.At S pos := by
  intro hs
  simp only [step, hp, Option.mem_def] at hs
  obtain rfl := Option.some.inj hs
  have hprod := h.producer
  simp only [ProducerAt, hp] at hprod
  obtain ⟨c, hc, rfl, hrest, hlt, hh⟩ := hprod
  have hbusy : f.producer_done = false := h.busy (by simp [hp])
  have hupd : ∀ k < f.count, Function.update f.slot_nsec f.head c.n ((f.tail + k) % f.nslots) =
      f.slot_nsec ((f.tail + k) % f.nslots) := by
    intro k hk
    rw [Function.update_of_ne]
    rw [h.head]
    exact ring_ne hk hlt
  refine { h with
    fits := hlt
    head := ?_
    slots := fun k hk => ?_
    done_end := fun hd => absurd (hbusy.symm.trans hd) (by simp)
    busy := fun _ => hbusy
    producer := hrest
    consumer := ?_ }
  · simp only
    rw [h.head, Nat.mod_add_mod, Nat.add_assoc]
  · rcases Nat.lt_succ_iff_lt_or_eq.1 hk with hk | rfl
    · obtain ⟨c', hc', hn, hh'⟩ := h.slots k hk
      exact ⟨c', hc', (hupd k hk).trans hn, hh'⟩
    · simp only
      rw [← h.head, Function.update_self]
      exact ⟨c, hc, rfl, hh⟩
  · have hcons := h.consumer
    unfold ConsumerAt at hcons ⊢
    simp only at hcons ⊢
    cases he : f.consumer with
    | idle => simpa [he] using hcons
    | waiting => simpa [he] using hcons
    | holding slot m =>
      rw [he] at hcons
      obtain ⟨h1, h2, h3, h4⟩ := hcons
      have h0 := hupd 0 h2
      rw [Nat.add_zero, Nat.mod_eq_of_lt h.room] at h0
      exact ⟨h1, Nat.succ_pos _, h3, h4.trans h0.symm⟩
    | written =>
      rw [he] at hcons
      exact ⟨hcons.1, Nat.succ_pos _⟩
    | ended rc => simpa [he] using hcons
    | stopped => simpa [he] using hcons

theorem At.finish (h : f.At S pos) {rc : Int} (hp : f.producer = .finishing rc) :
    g ∈ f.step .finish → g.At S pos := by
  intro hs
  simp only [step, hp, Option.mem_def] at hs
  obtain rfl := Option.some.inj hs
  have hprod := h.producer
  simp only [ProducerAt, hp] at hprod
  obtain ⟨rfl, hend⟩ := hprod
  exact { h with
    rc := by simp [h.rc]
    done_end := fun _ => hend
    busy := fun hb => absurd rfl hb
    producer := trivial
    consumer := h.consumer }

/-- The section of a pop. -/
theorem At.pop_section (h : f.At S pos) (hc : f.consumer = .idle ∨ f.consumer = .waiting) :
    f.pop_section.At S pos := by
  have hlog : f.log.reverse = (S.take pos).map (chunkBytes f.file f.byteswap) := by
    have hcons := h.consumer
    unfold ConsumerAt at hcons
    rcases hc with hc | hc
    · simpa [hc] using hcons
    · simpa [hc] using hcons
  unfold Wfifo.pop_section
  by_cases hne : f.count = 0 ∧ f.producer_done = false
  · rw [if_pos hne]
    split
    · exact h
    · exact { h with producer := h.producer, consumer := hlog }
  rw [if_neg hne]
  by_cases h0 : f.count = 0
  · rw [if_pos h0]
    have hd : f.producer_done = true := by
      by_contra hd
      exact hne ⟨h0, by simpa using hd⟩
    have hend := h.done_end hd
    rw [h0, Nat.add_zero] at hend
    refine { h with producer := h.producer, consumer := ⟨h.rc, ?_⟩ }
    show f.log.reverse = (S.take S.length).map (chunkBytes f.file f.byteswap)
    rw [hlog, List.take_of_length_le hend, List.take_length]
  · rw [if_neg h0]
    exact { h with producer := h.producer, consumer := ⟨hlog, Nat.pos_of_ne_zero h0, rfl, rfl⟩ }

theorem At.write (h : f.At S pos) {slot n : Nat} (hc : f.consumer = .holding slot n) :
    g ∈ f.step .write → g.At S pos := by
  intro hs
  simp only [step, hc, Option.mem_def] at hs
  obtain rfl := Option.some.inj hs
  have hcons := h.consumer
  simp only [ConsumerAt, hc] at hcons
  obtain ⟨hlog, hpos, rfl, rfl⟩ := hcons
  obtain ⟨c, hget, hn, hh⟩ := h.slots 0 hpos
  rw [Nat.add_zero, Nat.mod_eq_of_lt h.room] at hn hh
  refine { h with producer := h.producer, consumer := ⟨?_, hpos⟩ }
  simp only
  rw [List.reverse_cons, hlog, List.take_add_one, List.map_append, hn]
  rw [Nat.add_zero] at hget
  rw [hget]
  simp only [Option.toList_some, List.map_cons, List.map_nil]
  rw [hh]
  rfl

theorem At.release (h : f.At S pos) (hc : f.consumer = .written) :
    g ∈ f.step .release → g.At S (pos + 1) := by
  intro hs
  simp only [step, hc, Option.mem_def] at hs
  obtain rfl := Option.some.inj hs
  have hcons := h.consumer
  simp only [ConsumerAt, hc] at hcons
  obtain ⟨hlog, hpos⟩ := hcons
  have hcount : pos + 1 + (f.count - 1) = pos + f.count := by omega
  have hprod := h.producer
  refine { h with
    room := Nat.mod_lt _ (Nat.zero_lt_of_lt h.room)
    fits := (Nat.sub_le _ _).trans h.fits
    head := ?_
    slots := fun k hk => ?_
    done_end := fun hd => (h.done_end hd).trans hcount.ge
    producer := ?_
    consumer := hlog }
  · simp only
    rw [ring_succ, h.head]
    congr 2
    omega
  · obtain ⟨c, hget, hn, hh⟩ := h.slots (k + 1) (by simp only at hk; omega)
    refine ⟨c, ?_, ?_, ?_⟩
    · rw [← hget]
      congr 1
      omega
    · simp only
      rw [ring_succ]
      exact hn
    · simp only
      rw [ring_succ]
      exact hh
  · unfold ProducerAt at hprod ⊢
    simp only
    rw [hcount]
    cases he : f.producer with
    | idle => simpa [he] using hprod
    | filling slot =>
      rw [he] at hprod
      exact ⟨hprod.1, hprod.2.1, by have := hprod.2.2; omega⟩
    | swapping slot n =>
      rw [he] at hprod
      obtain ⟨c, h1, h2, h3, h4, h5, h6⟩ := hprod
      exact ⟨c, h1, h2, h3, h4, by omega, h6⟩
    | publishing n =>
      rw [he] at hprod
      obtain ⟨c, h1, h2, h3, h4, h5⟩ := hprod
      exact ⟨c, h1, h2, h3, by omega, h5⟩
    | finishing rc =>
      rw [he] at hprod
      exact hprod
    | exited => trivial

theorem At.stop (h : f.At S pos) (discard : Bool) : g ∈ f.step (.stop discard) → g.At S pos := by
  intro hs
  have hcons := h.consumer
  unfold ConsumerAt at hcons
  have hk : ∀ k, f.log.reverse = (S.take k).map (chunkBytes f.file f.byteswap) →
      At S pos { f with cancelled := f.cancelled || discard, consumer := .stopped } := fun k hk =>
    { h with producer := h.producer, consumer := ⟨k, hk⟩ }
  cases hc : f.consumer <;> simp only [step, hc, Option.mem_def, reduceCtorEq] at hs <;>
    simp only [hc] at hcons <;> obtain rfl := Option.some.inj hs
  · exact hk _ hcons
  · exact hk _ hcons.1
  · exact hk _ hcons.1
  · exact hk _ hcons.2

/-- Every step keeps its place in the stream. -/
theorem At.step (h : f.At S pos) {a : WfifoAction} (hs : f.step a = some g) : ∃ pos', g.At S pos' := by
  cases a with
  | acquire =>
    cases hp : f.producer <;> simp only [Wfifo.step, hp, reduceCtorEq] at hs
    exact ⟨pos, h.acquire hp (by simpa [Wfifo.step, hp] using hs)⟩
  | fill =>
    cases hp : f.producer <;> simp only [Wfifo.step, hp, reduceCtorEq] at hs
    obtain rfl := Option.some.inj hs
    exact ⟨pos, h.fill hp⟩
  | swap =>
    cases hp : f.producer <;> simp only [Wfifo.step, hp, reduceCtorEq] at hs
    exact ⟨pos, h.swap hp (by simpa [Wfifo.step, hp] using hs)⟩
  | publish =>
    cases hp : f.producer <;> simp only [Wfifo.step, hp, reduceCtorEq] at hs
    exact ⟨pos, h.publish hp (by simpa [Wfifo.step, hp] using hs)⟩
  | finish =>
    cases hp : f.producer <;> simp only [Wfifo.step, hp, reduceCtorEq] at hs
    exact ⟨pos, h.finish hp (by simpa [Wfifo.step, hp] using hs)⟩
  | pop =>
    cases hc : f.consumer <;> simp only [Wfifo.step, hc, reduceCtorEq] at hs
    obtain rfl := Option.some.inj hs
    exact ⟨pos, h.pop_section (.inl hc)⟩
  | wake =>
    cases hc : f.consumer <;> simp only [Wfifo.step, hc, reduceCtorEq] at hs
    obtain rfl := Option.some.inj hs
    exact ⟨pos, h.pop_section (.inr hc)⟩
  | write =>
    cases hc : f.consumer <;> simp only [Wfifo.step, hc, reduceCtorEq] at hs
    exact ⟨pos, h.write hc (by simpa [Wfifo.step, hc] using hs)⟩
  | release =>
    cases hc : f.consumer <;> simp only [Wfifo.step, hc, reduceCtorEq] at hs
    exact ⟨pos + 1, h.release hc (by simpa [Wfifo.step, hc] using hs)⟩
  | stop discard => exact ⟨pos, h.stop discard hs⟩

/-! ## The end of the stream -/

/-- The producer leaves for one of two reasons, and only a consumer that is gone cancels. -/
structure Quits (f : Wfifo) : Prop where
  quit : f.producer = .exited → f.producer_done = true ∨ f.cancelled = true
  stopped : f.cancelled = true → f.consumer = .stopped

theorem Quits.fill (h : f.Quits) {slot : Nat} : (f.fill_step slot).Quits := by
  unfold fill_step
  split
  · exact ⟨nofun, h.stopped⟩
  · simp only
    split
    · exact ⟨nofun, h.stopped⟩
    · exact ⟨nofun, h.stopped⟩

theorem Quits.pop_section (h : f.Quits) (hc : f.consumer = .idle ∨ f.consumer = .waiting) :
    f.pop_section.Quits := by
  have hn : ¬f.cancelled = true := by
    intro hcan
    have := h.stopped hcan
    rcases hc with hc | hc
    · rw [hc] at this
      cases this
    · rw [hc] at this
      cases this
  unfold Wfifo.pop_section
  split
  · split
    · exact h
    · exact ⟨h.quit, fun hcan => absurd hcan hn⟩
  · split
    · exact ⟨h.quit, fun hcan => absurd hcan hn⟩
    · exact ⟨h.quit, fun hcan => absurd hcan hn⟩

theorem Quits.step (h : f.Quits) {a : WfifoAction} (hs : f.step a = some g) : g.Quits := by
  cases a with
  | acquire =>
    cases hp : f.producer <;> simp only [Wfifo.step, hp, reduceCtorEq] at hs
    split at hs
    · rename_i hcan
      obtain rfl := Option.some.inj hs
      exact ⟨fun _ => .inr hcan, h.stopped⟩
    split at hs
    · exact Option.some.inj hs ▸ h
    · obtain rfl := Option.some.inj hs
      exact ⟨nofun, h.stopped⟩
  | fill =>
    cases hp : f.producer <;> simp only [Wfifo.step, hp, reduceCtorEq] at hs
    exact Option.some.inj hs ▸ h.fill
  | swap | publish =>
    cases hp : f.producer <;> simp only [Wfifo.step, hp, reduceCtorEq] at hs
    obtain rfl := Option.some.inj hs
    exact ⟨nofun, h.stopped⟩
  | finish =>
    cases hp : f.producer <;> simp only [Wfifo.step, hp, reduceCtorEq] at hs
    obtain rfl := Option.some.inj hs
    exact ⟨fun _ => .inl rfl, h.stopped⟩
  | pop =>
    cases hc : f.consumer <;> simp only [Wfifo.step, hc, reduceCtorEq] at hs
    exact Option.some.inj hs ▸ h.pop_section (.inl hc)
  | wake =>
    cases hc : f.consumer <;> simp only [Wfifo.step, hc, reduceCtorEq] at hs
    exact Option.some.inj hs ▸ h.pop_section (.inr hc)
  | write | release =>
    cases hc : f.consumer <;> simp only [Wfifo.step, hc, reduceCtorEq] at hs
    obtain rfl := Option.some.inj hs
    refine ⟨h.quit, fun hcan => ?_⟩
    have := h.stopped hcan
    rw [hc] at this
    cases this
  | stop discard =>
    cases hc : f.consumer <;> simp only [Wfifo.step, hc, reduceCtorEq] at hs
    all_goals
      obtain rfl := Option.some.inj hs
      exact ⟨fun he => (h.quit he).imp_right fun hcan => by simp [hcan], fun _ => rfl⟩

/-- The steps that the producer still has to take, when `published` chunks are in the ring. -/
def producerWork (S : List BinChunk) (published : Nat) : WfifoProducer → Nat
  | .idle => 4 * (S.length - published) + 3
  | .filling _ => 4 * (S.length - published) + 2
  | .swapping _ _ => 4 * (S.length - published) + 1
  | .publishing _ => 4 * (S.length - published)
  | .finishing _ => 1
  | .exited => 0

/-- The steps that the consumer still has to take, when `pos` chunks are released. -/
def consumerWork (S : List BinChunk) (pos : Nat) : WfifoConsumer → Nat
  | .idle => 4 * (S.length - pos) + 3
  | .waiting => 4 * (S.length - pos) + 2
  | .holding _ _ => 4 * (S.length - pos) + 1
  | .written => 4 * (S.length - pos)
  | .ended _ => 1
  | .stopped => 0

/-- What both threads still have to do. -/
def work (S : List BinChunk) (pos : Nat) (f : Wfifo) : Nat :=
  producerWork S (pos + f.count) f.producer + consumerWork S pos f.consumer

theorem lt_of_getElem? {c : BinChunk} {k : Nat} (h : S[k]? = some c) : k < S.length :=
  (List.getElem?_eq_some_iff.1 h).1

theorem fill_step_frame (f : Wfifo) (slot : Nat) :
    (f.fill_step slot).count = f.count ∧ (f.fill_step slot).consumer = f.consumer := by
  unfold fill_step
  split
  · exact ⟨rfl, rfl⟩
  · dsimp only
    split
    · exact ⟨rfl, rfl⟩
    · exact ⟨rfl, rfl⟩

/-- After a fill the producer has a chunk to swap, or the stream's end to tell. -/
theorem At.fill_producer (h : f.At S pos) {slot : Nat} (hp : f.producer = .filling slot) :
    (∃ n, (f.fill_step slot).producer = .swapping slot n) ∨ (f.fill_step slot).producer = .finishing 0 := by
  have hfilled := (h.fill hp).producer
  unfold ProducerAt at hfilled
  unfold fill_step at hfilled ⊢
  cases ha : advance f.todo f.done_in_seg with
  | mk ss d =>
    cases ss with
    | nil => exact .inr rfl
    | cons s ss =>
      rw [ha] at hfilled
      dsimp only at hfilled ⊢
      by_cases hread : f.file.readable (s.file_offset + d * SECTOR)
        (min (s.sectors - d) CHUNK * SECTOR) = true
      · rw [if_pos hread]
        exact .inl ⟨_, rfl⟩
      · -- no chunk of the stream is unreadable
        rw [if_neg hread] at hfilled
        exact absurd hfilled.1 (by decide)

/-- An empty ring whose producer is not done: the producer gets on. -/
theorem At.produce (h : f.At S pos) (hq : f.Quits) (hcan : f.cancelled = false) (h0 : f.count = 0)
    (hd : f.producer_done = false) :
    ∃ a g, f.step a = some g ∧ g.At S pos ∧ work S pos g < work S pos f ∧ g.consumer = f.consumer := by
  have hprod := h.producer
  unfold ProducerAt at hprod
  cases hp : f.producer with
  | idle =>
    have hs : f.step .acquire = some { f with producer := .filling f.head } := by
      have : ¬f.count = f.nslots := by
        have := h.room
        omega
      simp [Wfifo.step, hp, hcan, this]
    refine ⟨.acquire, _, hs, h.acquire hp hs, ?_, rfl⟩
    simp only [work, hp, producerWork]
    omega
  | filling slot =>
    have hs : f.step .fill = some (f.fill_step slot) := by simp [Wfifo.step, hp]
    obtain ⟨hcount, hcon⟩ := fill_step_frame f slot
    refine ⟨.fill, _, hs, h.fill hp, ?_, hcon⟩
    rcases h.fill_producer hp with ⟨n, hnext⟩ | hnext
    · simp only [work, hcount, hcon, hnext, hp, producerWork]
      omega
    · simp only [work, hcon, hnext, hp, producerWork]
      omega
  | swapping slot n =>
    obtain ⟨g, hs, h1, h2, h3⟩ : ∃ g, f.step .swap = some g ∧ g.producer = .publishing n ∧
        g.count = f.count ∧ g.consumer = f.consumer := by simp [Wfifo.step, hp]
    refine ⟨.swap, g, hs, h.swap hp hs, ?_, h3⟩
    simp only [work, h1, h2, h3, hp, producerWork]
    omega
  | publishing n =>
    rw [hp] at hprod
    obtain ⟨c, hget, -⟩ := hprod
    have hlt := lt_of_getElem? hget
    obtain ⟨g, hs, h1, h2, h3⟩ : ∃ g, f.step .publish = some g ∧ g.producer = .idle ∧
        g.count = f.count + 1 ∧ g.consumer = f.consumer := by simp [Wfifo.step, hp]
    refine ⟨.publish, g, hs, h.publish hp hs, ?_, h3⟩
    simp only [work, h1, h2, h3, hp, producerWork]
    omega
  | finishing rc =>
    obtain ⟨g, hs, h1, h3⟩ : ∃ g, f.step .finish = some g ∧ g.producer = .exited ∧
        g.consumer = f.consumer := by simp [Wfifo.step, hp]
    refine ⟨.finish, g, hs, h.finish hp hs, ?_, h3⟩
    simp [work, h1, h3, hp, producerWork]
  | exited =>
    rcases hq.quit hp with hd' | hcan'
    · rw [hd'] at hd
      cases hd
    · rw [hcan'] at hcan
      cases hcan

/-- A pop or a wake-up goes on, unless it waits again. -/
theorem At.take (h : f.At S pos) (hc : f.consumer = .idle ∨ f.consumer = .waiting)
    (hw : f.consumer = .waiting → ¬(f.count = 0 ∧ f.producer_done = false)) :
    f.pop_section.At S pos ∧ work S pos f.pop_section < work S pos f ∧
      f.pop_section.consumer ≠ .stopped := by
  refine ⟨h.pop_section hc, ?_, ?_⟩
  · unfold Wfifo.pop_section work
    rcases hc with hc | hc
    · split
      · simp [hc, consumerWork]
      · split
        · simp only [hc, consumerWork]
          omega
        · simp only [hc, consumerWork]
          omega
    · rw [if_neg (hw hc)]
      split
      · simp only [hc, consumerWork]
        omega
      · simp only [hc, consumerWork]
        omega
  · unfold Wfifo.pop_section
    rcases hc with hc | hc
    · split
      · simp [hc]
      · split <;> simp
    · rw [if_neg (hw hc)]
      split <;> simp

/-- **Progress**: a thread that is not at its end, or the other, has a step that gets on. -/
theorem At.progress (h : f.At S pos) (hq : f.Quits) (hstop : f.consumer ≠ .stopped)
    (hend : ∀ rc, f.consumer ≠ .ended rc) :
    ∃ a g pos', f.step a = some g ∧ g.At S pos' ∧ work S pos' g < work S pos f ∧ g.consumer ≠ .stopped := by
  have hcan : f.cancelled = false := by
    by_contra hcan
    exact hstop (hq.stopped (by simpa using hcan))
  have hcons := h.consumer
  unfold ConsumerAt at hcons
  cases hc : f.consumer with
  | idle =>
    have htake := h.take (.inl hc) fun hw => by
      rw [hc] at hw
      cases hw
    exact ⟨.pop, f.pop_section, pos, by simp [Wfifo.step, hc], htake⟩
  | waiting =>
    by_cases hw : f.count = 0 ∧ f.producer_done = false
    · obtain ⟨a, g, hs, hg, hless, hsame⟩ := h.produce hq hcan hw.1 hw.2
      exact ⟨a, g, pos, hs, hg, hless, by rw [hsame]; exact hstop⟩
    · exact ⟨.wake, f.pop_section, pos, by simp [Wfifo.step, hc], h.take (.inr hc) fun _ => hw⟩
  | holding slot n =>
    rw [hc] at hcons
    obtain ⟨c, hget, -⟩ := h.slots 0 hcons.2.1
    have hlt := lt_of_getElem? hget
    obtain ⟨g, hs, h1, h2, h3⟩ : ∃ g, f.step .write = some g ∧ g.consumer = .written ∧
        g.count = f.count ∧ g.producer = f.producer := by simp [Wfifo.step, hc]
    refine ⟨.write, g, pos, hs, h.write hc hs, ?_, by simp [h1]⟩
    simp only [work, h1, h2, h3, hc, consumerWork]
    omega
  | written =>
    rw [hc] at hcons
    obtain ⟨c, hget, -⟩ := h.slots 0 hcons.2
    have hlt := lt_of_getElem? hget
    obtain ⟨g, hs, h1, h2, h3⟩ : ∃ g, f.step .release = some g ∧ g.consumer = .idle ∧
        g.count = f.count - 1 ∧ g.producer = f.producer := by simp [Wfifo.step, hc]
    refine ⟨.release, g, pos + 1, hs, h.release hc hs, ?_, by simp [h1]⟩
    have hcount : pos + 1 + (f.count - 1) = pos + f.count := by
      have := hcons.2
      omega
    simp only [work, h1, h2, h3, hc, consumerWork, hcount]
    omega
  | ended rc => exact absurd hc (hend rc)
  | stopped => exact absurd hc hstop

/-- From wherever the ring is, the end of the stream is reached. -/
theorem At.reaches_end : ∀ (w : Nat) {f : Wfifo} {pos : Nat}, f.At S pos → f.Quits → f.consumer ≠ .stopped →
    work S pos f ≤ w → ∃ g, Lts.Reaches Wfifo.step (fun _ _ => True) f g ∧ g.consumer = .ended 0 := by
  intro w
  induction w with
  | zero =>
    intro f pos h hq hstop hw
    by_cases hend : ∃ rc, f.consumer = .ended rc
    · obtain ⟨rc, hc⟩ := hend
      simp [work, hc, consumerWork] at hw
    · obtain ⟨a, g, pos', -, -, hlt, -⟩ := h.progress hq hstop fun rc hc => hend ⟨rc, hc⟩
      omega
  | succ w ih =>
    intro f pos h hq hstop hw
    by_cases hend : ∃ rc, f.consumer = .ended rc
    · obtain ⟨rc, hc⟩ := hend
      have hcons := h.consumer
      simp only [ConsumerAt, hc] at hcons
      exact ⟨f, .refl, by rw [hc, hcons.1]⟩
    · obtain ⟨a, g, pos', hs, hg, hlt, hgs⟩ := h.progress hq hstop fun rc hc => hend ⟨rc, hc⟩
      obtain ⟨e, he, hee⟩ := ih hg (hq.step hs) hgs (by omega)
      exact ⟨e, (Lts.Reaches.step .refl trivial hs).trans he, hee⟩

end

end Wfifo

/-! ## The unbuffered path -/

/-- The sectors of the tracks. -/
def totalSectors (tracks : List WfifoSeg) : Nat := (tracks.map (·.sectors)).sum

/-- The track of a sector and the sector's place in it. -/
def seek : List WfifoSeg → Nat → List WfifoSeg × Nat
  | [], d => ([], d)
  | s :: ss, d => if s.sectors ≤ d then seek ss (d - s.sectors) else (s :: ss, d)

/-- The stream from a sector on. -/
def chunksFrom (tracks : List WfifoSeg) (sector : Nat) : List BinChunk :=
  restChunks (seek tracks sector).1 (seek tracks sector).2

theorem totalSectors_cons (s : WfifoSeg) (ss : List WfifoSeg) :
    totalSectors (s :: ss) = s.sectors + totalSectors ss := by
  simp [totalSectors]

theorem chunksFrom_zero : ∀ ts : List WfifoSeg, chunksFrom ts 0 = restChunks ts 0
  | [] => rfl
  | s :: ss => by
    unfold chunksFrom seek
    split
    · rename_i h
      rw [Nat.zero_sub, restChunks_of_le h]
      exact chunksFrom_zero ss
    · rfl

theorem chunksFrom_end : ∀ (ts : List WfifoSeg) (D : Nat), totalSectors ts ≤ D → chunksFrom ts D = []
  | [], _, _ => rfl
  | s :: ss, D, h => by
    rw [totalSectors_cons] at h
    unfold chunksFrom seek
    rw [if_pos (by omega)]
    exact chunksFrom_end ss (D - s.sectors) (by omega)

theorem seek_some : ∀ (ts : List WfifoSeg) (D : Nat), D < totalSectors ts →
    ∃ s ss d, seek ts D = (s :: ss, d) ∧ d < s.sectors ∧ s.sectors - d ≤ totalSectors ts - D
  | [], _, h => absurd h (Nat.not_lt_zero _)
  | s :: ss, D, h => by
    rw [totalSectors_cons] at h ⊢
    unfold seek
    split
    · rename_i hle
      obtain ⟨s', ss', d, he, hd, hr⟩ := seek_some ss (D - s.sectors) (by omega)
      exact ⟨s', ss', d, he, hd, by omega⟩
    · rename_i hlt
      exact ⟨s, ss, D, rfl, by omega, by omega⟩

/-- Going on within a track, or to its end. -/
theorem chunksFrom_step : ∀ (ts : List WfifoSeg) (D n : Nat) {s : WfifoSeg} {ss : List WfifoSeg} {d : Nat},
    seek ts D = (s :: ss, d) → n ≤ s.sectors - d → d < s.sectors →
    chunksFrom ts (D + n) = restChunks (s :: ss) (d + n)
  | [], _, _, _, _, _, h, _, _ => by cases h
  | t :: ts, D, n, s, ss, d, h, hn, hd => by
    unfold seek at h
    unfold chunksFrom seek
    split at h
    · rename_i hle
      rw [if_pos (by omega), Nat.sub_add_comm hle]
      exact chunksFrom_step ts (D - t.sectors) n h hn hd
    · rename_i hlt
      obtain ⟨he, rfl⟩ := Prod.mk.inj h
      obtain ⟨rfl, rfl⟩ := List.cons.inj he
      split
      · rename_i hle
        have h0 : D + n - t.sectors = 0 := by omega
        rw [h0, restChunks_of_le hle]
        exact chunksFrom_zero ts
      · rfl

/-- The search by running sum finds the track of the sector. -/
theorem find_track_eq : ∀ (ts : List WfifoSeg) (acc D n : Nat), acc ≤ D → acc + totalSectors ts < 2 ^ 32 →
    find_track ts acc D n =
      match seek ts (D - acc) with
      | ([], _) => ⟨0, n⟩
      | (s :: _, d) => ⟨s.file_offset + d * SECTOR, min n (s.sectors - d)⟩
  | [], _, _, _, _, _ => rfl
  | t :: ts, acc, D, n, h, htot => by
    rw [totalSectors_cons] at htot
    have hu : u32 (acc + t.sectors) = acc + t.sectors := Nat.mod_eq_of_lt (by omega)
    unfold find_track seek
    rw [hu]
    by_cases hlt : D < acc + t.sectors
    · rw [if_pos hlt, if_neg (by omega)]
      have : acc + t.sectors - D = t.sectors - (D - acc) := by omega
      rw [this]
    · rw [if_neg hlt, if_pos (by omega), find_track_eq ts _ D n (by omega) (by omega), Nat.sub_sub]

/-- **The unbuffered path** writes the stream. -/
theorem payload_chunks_eq {file : BinFile} {byteswap : Bool} {tracks : List WfifoSeg}
    (htot : totalSectors tracks < 2 ^ 32) :
    ∀ (fuel D : Nat), totalSectors tracks - D < fuel → D ≤ totalSectors tracks →
      (∀ c ∈ chunksFrom tracks D, file.readable c.off (c.n * SECTOR) = true) →
      payload_chunks file byteswap tracks (totalSectors tracks) fuel D =
        some (.ok ((chunksFrom tracks D).map (chunkBytes file byteswap))) := by
  intro fuel
  induction fuel with
  | zero => exact fun D h => absurd h (Nat.not_lt_zero _)
  | succ fuel ih =>
    intro D hf hD hread
    unfold payload_chunks
    split
    · rename_i hle
      rw [chunksFrom_end tracks D hle]
      rfl
    · rename_i hlt
      obtain ⟨s, ss, d, hseek, hd, hroom⟩ := seek_some tracks D (Nat.not_le.1 hlt)
      have hpos : 0 < CHUNK := by decide
      have hc : find_track tracks 0 D (min (totalSectors tracks - D) CHUNK) =
          ⟨s.file_offset + d * SECTOR, min (s.sectors - d) CHUNK⟩ := by
        rw [find_track_eq tracks 0 D _ (Nat.zero_le _) (by omega), Nat.sub_zero, hseek]
        simp only [BinChunk.mk.injEq, true_and]
        omega
      have hstep := chunksFrom_step tracks D (min (s.sectors - d) CHUNK) hseek (Nat.min_le_left _ _) hd
      have hu : u32 (D + min (s.sectors - d) CHUNK) = D + min (s.sectors - d) CHUNK :=
        Nat.mod_eq_of_lt (by omega)
      have hhead : chunksFrom tracks D = ⟨s.file_offset + d * SECTOR, min (s.sectors - d) CHUNK⟩ ::
          restChunks (s :: ss) (d + min (s.sectors - d) CHUNK) := by
        unfold chunksFrom
        rw [hseek]
        exact restChunks_of_lt hd
      rw [hhead] at hread
      have hok := hread _ List.mem_cons_self
      simp only [hc, hok, if_true, hu]
      rw [ih _ (by omega) (by omega) (by rw [hstep]; exact fun c hc => hread c (List.mem_cons_of_mem _ hc)),
        hstep,
        hhead]
      rfl

/-! ## Both paths -/

/-- A chunk lies in its track. -/
theorem mem_segChunks {s : WfifoSeg} {c : BinChunk} : ∀ d, c ∈ segChunks s d →
    ∃ k n, k + n ≤ s.sectors ∧ c = ⟨s.file_offset + k * SECTOR, n⟩ := by
  intro d
  induction d using segChunks.induct s with
  | case1 d hlt ih =>
    rw [segChunks_of_lt hlt]
    intro hc
    rcases List.mem_cons.1 hc with rfl | hc
    · exact ⟨d, min (s.sectors - d) CHUNK, by omega, rfl⟩
    · exact ih hc
  | case2 d hge =>
    rw [segChunks_of_le (Nat.not_lt.1 hge)]
    exact fun hc => absurd hc List.not_mem_nil

/-- The file has the tracks: every read inside a track comes whole. -/
def BinFile.Covers (file : BinFile) (tracks : List WfifoSeg) : Prop :=
  ∀ t ∈ tracks, ∀ k n, k + n ≤ t.sectors → file.readable (t.file_offset + k * SECTOR) (n * SECTOR) = true

theorem BinFile.Covers.chunks {file : BinFile} {tracks : List WfifoSeg} (h : file.Covers tracks) :
    ∀ c ∈ restChunks tracks 0, file.readable c.off (c.n * SECTOR) = true := by
  intro c hc
  rw [restChunks_zero] at hc
  obtain ⟨t, ht, hc⟩ := List.mem_flatMap.1 hc
  obtain ⟨k, n, hkn, rfl⟩ := mem_segChunks 0 hc
  exact h t ht k n hkn

/-- The ring as it starts. -/
theorem wfifo_start_at {bytes : Nat} {file : BinFile} {tracks : List WfifoSeg} {byteswap : Bool} {f : Wfifo}
    (hread : file.Covers tracks)
    (h : adsc_wfifo_start bytes file tracks byteswap = .ok f) :
    f.At (restChunks tracks 0) 0 ∧ f.Quits ∧ f.file = file ∧ f.byteswap = byteswap := by
  unfold adsc_wfifo_start at h
  rw [check_eq_ok] at h
  obtain ⟨-, rfl⟩ := h.imp_right Except.ok.inj
  have hn : 0 < min (max (bytes / (CHUNK * SECTOR)) ADSC_WFIFO_MIN_SLOTS) ADSC_WFIFO_MAX_SLOTS := by
    unfold ADSC_WFIFO_MIN_SLOTS ADSC_WFIFO_MAX_SLOTS
    omega
  exact ⟨{
    reads := hread.chunks
    room := hn
    fits := Nat.zero_le _
    head := (Nat.zero_mod _).symm
    slots := fun k hk => absurd hk (Nat.not_lt_zero _)
    rc := rfl
    done_end := fun hd => by cases hd
    busy := fun _ => rfl
    producer := rfl
    consumer := rfl }, ⟨nofun, nofun⟩, rfl, rfl⟩

theorem Wfifo.fill_source (f : Wfifo) (slot : Nat) :
    (f.fill_step slot).file = f.file ∧ (f.fill_step slot).byteswap = f.byteswap := by
  unfold Wfifo.fill_step
  split
  · exact ⟨rfl, rfl⟩
  · simp only
    split <;> exact ⟨rfl, rfl⟩

theorem Wfifo.pop_source (f : Wfifo) :
    f.pop_section.file = f.file ∧ f.pop_section.byteswap = f.byteswap := by
  unfold Wfifo.pop_section
  split
  · split <;> exact ⟨rfl, rfl⟩
  · split <;> exact ⟨rfl, rfl⟩

/-- A step leaves the source as it is. -/
theorem Wfifo.step_source {f g : Wfifo} {a : WfifoAction} (hs : f.step a = some g) :
    g.file = f.file ∧ g.byteswap = f.byteswap := by
  cases a with
  | acquire =>
    cases hp : f.producer <;> simp only [Wfifo.step, hp, reduceCtorEq] at hs
    split at hs
    · exact Option.some.inj hs ▸ ⟨rfl, rfl⟩
    · split at hs
      · exact Option.some.inj hs ▸ ⟨rfl, rfl⟩
      · exact Option.some.inj hs ▸ ⟨rfl, rfl⟩
  | fill =>
    cases hp : f.producer <;> simp only [Wfifo.step, hp, reduceCtorEq] at hs
    exact Option.some.inj hs ▸ f.fill_source _
  | swap | publish | finish =>
    cases hp : f.producer <;> simp only [Wfifo.step, hp, reduceCtorEq] at hs
    exact Option.some.inj hs ▸ ⟨rfl, rfl⟩
  | pop | wake =>
    cases hc : f.consumer <;> simp only [Wfifo.step, hc, reduceCtorEq] at hs
    exact Option.some.inj hs ▸ f.pop_source
  | write | release =>
    cases hc : f.consumer <;> simp only [Wfifo.step, hc, reduceCtorEq] at hs
    exact Option.some.inj hs ▸ ⟨rfl, rfl⟩
  | stop discard =>
    cases hc : f.consumer <;> simp only [Wfifo.step, hc, reduceCtorEq] at hs
    all_goals exact Option.some.inj hs ▸ ⟨rfl, rfl⟩

/-- **The FIFO writes what the unbuffered path writes**: never anything but a prefix of it, all of it
at the end of the stream, and that end can be reached until the consumer stops. -/
theorem adsc_wfifo_transparent {bytes fuel : Nat} {file : BinFile} {tracks : List WfifoSeg}
    {byteswap : Bool}
    {f₀ f : Wfifo} (hread : file.Covers tracks)
    (htot : totalSectors tracks < 2 ^ 32) (hfuel : totalSectors tracks < fuel)
    (hstart : adsc_wfifo_start bytes file tracks byteswap = .ok f₀)
    (hrun : Lts.Reaches Wfifo.step (fun _ _ => True) f₀ f) :
    ∃ chunks, payload_chunks file byteswap tracks (totalSectors tracks) fuel 0 = some (.ok chunks) ∧
      f.log.reverse <+: chunks ∧
      (∀ rc, f.consumer = .ended rc → rc = 0 ∧ f.log.reverse = chunks ∧
        write_cmds f.log.reverse = write_cmds chunks) ∧
      (f.consumer ≠ .stopped →
        ∃ g, Lts.Reaches Wfifo.step (fun _ _ => True) f g ∧ g.consumer = .ended 0) := by
  obtain ⟨hat, hquits, hfile, hswap⟩ := wfifo_start_at hread hstart
  obtain ⟨⟨pos, h⟩, hq, hfile, hswap⟩ := hrun.inv
    (I := fun g => (∃ pos, g.At (restChunks tracks 0) pos) ∧ g.Quits ∧ g.file = file ∧
      g.byteswap = byteswap)
    ⟨⟨0, hat⟩, hquits, hfile, hswap⟩ fun {t u a} ht _ hs => by
      obtain ⟨⟨pos, hp⟩, hq, h1, h2⟩ := ht
      obtain ⟨h3, h4⟩ := Wfifo.step_source hs
      exact ⟨hp.step hs, hq.step hs, h3.trans h1, h4.trans h2⟩
  have hpay : payload_chunks file byteswap tracks (totalSectors tracks) fuel 0 = some (.ok _) :=
    payload_chunks_eq htot fuel 0 (by omega) (Nat.zero_le _) (by rw [chunksFrom_zero]; exact hread.chunks)
  rw [chunksFrom_zero] at hpay
  refine ⟨_, hpay, ?_, fun rc hrc => ?_, fun hs => h.reaches_end _ hq hs le_rfl⟩
  · have hlog : ∃ k, f.log.reverse = ((restChunks tracks 0).take k).map (chunkBytes f.file f.byteswap) := by
      have hcons := h.consumer
      unfold Wfifo.ConsumerAt at hcons
      cases hc : f.consumer <;> simp only [hc] at hcons
      · exact ⟨_, hcons⟩
      · exact ⟨_, hcons⟩
      · exact ⟨_, hcons.1⟩
      · exact ⟨_, hcons.1⟩
      · exact ⟨_, hcons.2⟩
      · exact hcons
    obtain ⟨k, hk⟩ := hlog
    rw [hk, hfile, hswap]
    exact (List.take_prefix k _).map _
  · have hcons := h.consumer
    simp only [Wfifo.ConsumerAt, hrc, List.take_length] at hcons
    rw [hfile, hswap] at hcons
    exact ⟨hcons.1, hcons.2, by rw [hcons.2]⟩

/-- A file of two sectors and a bit, and its two tracks. -/
def two_sectors : BinFile := ⟨fun i => BitVec.ofNat 8 i, fun off len => off + len ≤ 4710⟩

def two_tracks : List WfifoSeg := [⟨4, 1⟩, ⟨2356, 1⟩]

theorem two_sectors_covers : two_sectors.Covers two_tracks := by
  intro t ht k n hkn
  simp only [two_tracks, List.mem_cons, List.not_mem_nil, or_false] at ht
  unfold SECTOR
  rcases ht with rfl | rfl
  · exact decide_eq_true (by dsimp only at hkn ⊢; omega)
  · exact decide_eq_true (by dsimp only at hkn ⊢; omega)

/-- Two tracks of one sector, through a ring of two slots to the end of the stream. -/
theorem adsc_wfifo_transparent_one :
    ∃ f₀ f chunks, adsc_wfifo_start 0 two_sectors two_tracks true = .ok f₀ ∧
      Lts.Reaches Wfifo.step (fun _ _ => True) f₀ f ∧
      payload_chunks two_sectors true two_tracks 2 3 0 = some (.ok chunks) ∧
      f.log.reverse = chunks := by
  obtain ⟨f₀, f, hstart, hrun, hend⟩ : ∃ f₀ f,
      adsc_wfifo_start 0 two_sectors two_tracks true = .ok f₀ ∧
      Lts.run Wfifo.step f₀ [.acquire, .fill, .swap, .pop, .publish, .acquire, .wake, .fill, .write,
        .swap, .release,
        .publish, .pop, .acquire, .write, .fill, .release, .finish, .pop] = some f ∧
          f.consumer = .ended 0 :=
    ⟨_, _, rfl, rfl, rfl⟩
  have hreach : Lts.Reaches Wfifo.step (fun _ _ => True) f₀ f :=
    Lts.Reaches.of_run (fun _ _ _ => trivial) hrun
  obtain ⟨chunks, hpay, -, hall, -⟩ := adsc_wfifo_transparent two_sectors_covers
    (show totalSectors two_tracks < 2 ^ 32 by decide)
      (show totalSectors two_tracks < 3 by decide) hstart hreach
  exact ⟨f₀, f, chunks, hstart, hreach, hpay, (hall 0 hend).2.1⟩

end Accudisc
