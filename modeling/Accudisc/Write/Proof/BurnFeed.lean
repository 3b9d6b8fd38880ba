import Accudisc.Write.Proof.BurnBlocks
import Accudisc.Write.Proof.Fifo

/-!
# What feeds a burn

The chunks of the payload loop, from the FIFO or straight from the file. A ring that comes to the end of the
stream without an error has given all of it, whatever reads of the file fail (`wfifo_ended`); the payload
loop writes what it is fed, chunk after chunk (`payload_tri`).
-/

namespace Accudisc

open Exit History

/-! ## A ring over a file that may not read -/

namespace Wfifo

/-- The ring as it would be if every read succeeded. -/
def readAll (f : Wfifo) : Wfifo := { f with file := ⟨f.file.bytes, fun _ _ => true⟩ }

/-- A read failed, and the producer is leaving or has left with that. -/
structure Failed (f : Wfifo) : Prop where
  producer : f.producer = .finishing ACCUDISC_ERR_IO ∧ f.producer_done = false ∧ f.producer_rc = 0 ∨
    f.producer = .exited ∧ f.producer_rc = ACCUDISC_ERR_IO
  consumer : f.consumer ≠ .ended 0

section
variable {S : List BinChunk} {f g : Wfifo} {a : WfifoAction}

theorem pop_section_readAll : f.readAll.pop_section = f.pop_section.readAll := by
  unfold pop_section readAll
  dsimp only
  split
  · cases hc : f.consumer <;> simp only [hc]
  · split <;> rfl

theorem pop_section_producer : f.pop_section.producer = f.producer ∧
    f.pop_section.producer_done = f.producer_done ∧ f.pop_section.producer_rc = f.producer_rc := by
  unfold pop_section
  split
  · split <;> exact ⟨rfl, rfl, rfl⟩
  · split <;> exact ⟨rfl, rfl, rfl⟩

/-- Only a producer that is done ends the stream. -/
theorem pop_section_ended {rc : Int} (hc : f.consumer = .idle ∨ f.consumer = .waiting)
    (h : f.pop_section.consumer = .ended rc) : f.producer_done = true ∧ rc = f.producer_rc := by
  unfold pop_section at h
  split at h
  · split at h
    · rcases hc with hc | hc <;> rw [hc] at h <;> cases h
    · cases h
  · split at h
    · rename_i hne h0
      cases h
      exact ⟨by by_contra hd; exact hne ⟨h0, by simpa using hd⟩, rfl⟩
    · cases h

/-- Nothing but the read itself looks at which reads succeed. -/
theorem step_readAll (ha : a ≠ .fill) (hs : f.step a = some g) : f.readAll.step a = some g.readAll := by
  cases a with
  | fill => exact absurd rfl ha
  | acquire =>
    cases hp : f.producer <;> simp only [step, readAll, hp, reduceCtorEq] at hs ⊢
    split at hs
    · rename_i h
      rw [if_pos h, ← Option.some.inj hs]
    · rename_i h
      rw [if_neg h]
      split at hs
      · rename_i h
        rw [if_pos h, ← Option.some.inj hs]
        simp only [hp]
      · rename_i h
        rw [if_neg h, ← Option.some.inj hs]
  | swap | publish | finish =>
    cases hp : f.producer <;> simp only [step, readAll, hp, reduceCtorEq] at hs ⊢
    rw [← Option.some.inj hs]
  | pop | wake =>
    cases hc : f.consumer <;> simp only [step, hc, reduceCtorEq] at hs
    rw [← Option.some.inj hs, ← pop_section_readAll]
    simp only [step, readAll, hc]
  | write | release =>
    cases hc : f.consumer <;> simp only [step, readAll, hc, reduceCtorEq] at hs ⊢
    rw [← Option.some.inj hs]
  | stop discard =>
    cases hc : f.consumer <;> simp only [step, readAll, hc, reduceCtorEq] at hs ⊢
    all_goals rw [← Option.some.inj hs]

/-- Where the ring is while no read has failed, and after one has. -/
def Feeds (S : List BinChunk) (f : Wfifo) : Prop :=
  (∃ pos, f.readAll.At S pos) ∧ (∀ rc, f.consumer = .ended rc → f.producer_done = true) ∨ f.Failed

theorem Failed.step (h : f.Failed) (hs : f.step a = some g) : g.Failed := by
  have hpop (hc : f.consumer = .idle ∨ f.consumer = .waiting) : f.pop_section.Failed := by
    obtain ⟨h1, h2, h3⟩ := pop_section_producer (f := f)
    refine ⟨by rw [h1, h2, h3]; exact h.producer, fun he => ?_⟩
    obtain ⟨hd, hrc⟩ := pop_section_ended hc he
    rcases h.producer with ⟨-, hd', -⟩ | ⟨-, hrc'⟩
    · rw [hd] at hd'
      cases hd'
    · rw [hrc'] at hrc
      cases hrc
  cases a with
  | acquire | fill | swap | publish =>
    rcases h.producer with ⟨hp, -⟩ | ⟨hp, -⟩
    · simp only [Wfifo.step, hp, reduceCtorEq] at hs
    · simp only [Wfifo.step, hp, reduceCtorEq] at hs
  | finish =>
    rcases h.producer with ⟨hp, -, hrc⟩ | ⟨hp, -⟩
    · simp only [Wfifo.step, hp] at hs
      rw [← Option.some.inj hs]
      exact ⟨.inr ⟨rfl, if_pos hrc⟩, h.consumer⟩
    · simp only [Wfifo.step, hp, reduceCtorEq] at hs
  | pop =>
    cases hc : f.consumer <;> simp only [Wfifo.step, hc, reduceCtorEq] at hs
    exact Option.some.inj hs ▸ hpop (.inl hc)
  | wake =>
    cases hc : f.consumer <;> simp only [Wfifo.step, hc, reduceCtorEq] at hs
    exact Option.some.inj hs ▸ hpop (.inr hc)
  | write | release =>
    cases hc : f.consumer <;> simp only [Wfifo.step, hc, reduceCtorEq] at hs
    rw [← Option.some.inj hs]
    exact ⟨h.producer, by simp⟩
  | stop discard =>
    cases hc : f.consumer <;> simp only [Wfifo.step, hc, reduceCtorEq] at hs
    all_goals
      rw [← Option.some.inj hs]
      exact ⟨h.producer, by simp⟩

/-- A read goes as if every read succeeded, or fails. -/
theorem Feeds.fill (hat : ∃ pos, f.readAll.At S pos) (hend : ∀ rc, f.consumer = .ended rc →
    f.producer_done = true)
    {slot : Nat} (hp : f.producer = .filling slot) : (f.fill_step slot).Feeds S := by
  obtain ⟨pos, hat⟩ := hat
  have hbusy : f.producer_done = false := hat.busy (show f.producer ≠ .exited by simp [hp])
  have hlive : ∀ rc, f.consumer ≠ .ended rc := fun rc hc => by
    have := hend rc hc
    rw [hbusy] at this
    cases this
  have hnext : (f.readAll.fill_step slot).At S pos := hat.fill hp
  unfold fill_step at hnext ⊢
  cases ha : advance f.todo f.done_in_seg with
  | mk ss d =>
    cases ss with
    | nil =>
      simp only [readAll, ha] at hnext
      exact .inl ⟨⟨pos, hnext⟩, fun rc hc => absurd hc (hlive rc)⟩
    | cons s ss =>
      simp only [readAll, ha, if_true] at hnext
      simp only
      split
      · exact .inl ⟨⟨pos, hnext⟩, fun rc hc => absurd hc (hlive rc)⟩
      · exact .inr ⟨.inl ⟨rfl, hbusy, hat.rc⟩, hlive 0⟩

theorem step_done (hs : f.step a = some g) (hend : ∀ rc, f.consumer = .ended rc → f.producer_done = true) :
    ∀ rc, g.consumer = .ended rc → g.producer_done = true := by
  intro rc hg
  cases a with
  | acquire =>
    cases hp : f.producer <;> simp only [step, hp, reduceCtorEq] at hs
    split at hs
    · rw [← Option.some.inj hs] at hg ⊢
      exact hend rc hg
    · split at hs
      · rw [← Option.some.inj hs] at hg ⊢
        exact hend rc hg
      · rw [← Option.some.inj hs] at hg ⊢
        exact hend rc hg
  | fill =>
    cases hp : f.producer <;> simp only [step, hp, reduceCtorEq] at hs
    rw [← Option.some.inj hs] at hg ⊢
    unfold fill_step at hg ⊢
    split at hg
    · exact hend rc hg
    · simp only at hg ⊢
      split at hg
      · rename_i h
        rw [if_pos h]
        exact hend rc hg
      · rename_i h
        rw [if_neg h]
        exact hend rc hg
  | swap | publish =>
    cases hp : f.producer <;> simp only [step, hp, reduceCtorEq] at hs
    rw [← Option.some.inj hs] at hg ⊢
    exact hend rc hg
  | finish =>
    cases hp : f.producer <;> simp only [step, hp, reduceCtorEq] at hs
    rw [← Option.some.inj hs]
  | pop =>
    cases hc : f.consumer <;> simp only [step, hc, reduceCtorEq] at hs
    rw [← Option.some.inj hs] at hg ⊢
    rw [pop_section_producer.2.1]
    exact (pop_section_ended (.inl hc) hg).1
  | wake =>
    cases hc : f.consumer <;> simp only [step, hc, reduceCtorEq] at hs
    rw [← Option.some.inj hs] at hg ⊢
    rw [pop_section_producer.2.1]
    exact (pop_section_ended (.inr hc) hg).1
  | write | release =>
    cases hc : f.consumer <;> simp only [step, hc, reduceCtorEq] at hs
    rw [← Option.some.inj hs] at hg
    cases hg
  | stop discard =>
    cases hc : f.consumer <;> simp only [step, hc, reduceCtorEq] at hs
    all_goals
      rw [← Option.some.inj hs] at hg
      cases hg

theorem Feeds.step (h : f.Feeds S) (hs : f.step a = some g) : g.Feeds S := by
  rcases h with ⟨hat, hend⟩ | hfail
  · by_cases ha : a = .fill
    · subst ha
      cases hp : f.producer <;> simp only [Wfifo.step, hp, reduceCtorEq] at hs
      exact Option.some.inj hs ▸ Feeds.fill hat hend hp
    · obtain ⟨pos, hat⟩ := hat
      exact .inl ⟨hat.step (step_readAll ha hs), step_done hs hend⟩
  · exact .inr (hfail.step hs)

end

end Wfifo

/-- **A ring that ends without an error has given the stream.** -/
theorem wfifo_ended {bytes : Nat} {file : BinFile} {tracks : List WfifoSeg} {byteswap : Bool} {f₀ f : Wfifo}
    (hstart : adsc_wfifo_start bytes file tracks byteswap = .ok f₀)
    (hrun : Lts.Reaches Wfifo.step (fun _ _ => True) f₀ f) (hend : f.consumer = .ended 0) :
    f.log.reverse = (restChunks tracks 0).map (chunkBytes file byteswap) := by
  have hstart' : adsc_wfifo_start bytes ⟨file.bytes, fun _ _ => true⟩ tracks byteswap = .ok f₀.readAll := by
    unfold adsc_wfifo_start at hstart ⊢
    rw [check_eq_ok] at hstart ⊢
    obtain ⟨hne, hf⟩ := hstart
    exact ⟨hne, by rw [← Except.ok.inj hf]; rfl⟩
  have hsource : f₀.file = file ∧ f₀.byteswap = byteswap ∧ f₀.consumer = .idle := by
    unfold adsc_wfifo_start at hstart
    rw [check_eq_ok] at hstart
    obtain ⟨-, hf⟩ := hstart
    rw [← Except.ok.inj hf]
    exact ⟨rfl, rfl, rfl⟩
  have hidle : ∀ rc, f₀.consumer = .ended rc → f₀.producer_done = true := fun rc hc => by
    rw [hsource.2.2] at hc
    cases hc
  obtain ⟨hat, -, -, -⟩ := wfifo_start_at (fun _ _ _ _ _ => rfl) hstart'
  obtain ⟨hfeeds, hfile, hswap⟩ := hrun.inv
    (I := fun g => g.Feeds (restChunks tracks 0) ∧ g.file = file ∧ g.byteswap = byteswap)
    ⟨.inl ⟨⟨0, hat⟩, hidle⟩, hsource.1, hsource.2.1⟩ fun {t u a} ht _ hs => by
      obtain ⟨hfeeds, h1, h2⟩ := ht
      obtain ⟨h3, h4⟩ := Wfifo.step_source hs
      exact ⟨hfeeds.step hs, h3.trans h1, h4.trans h2⟩
  rcases hfeeds with ⟨⟨pos, hat⟩, -⟩ | hfail
  · have hcons := hat.consumer
    simp only [Wfifo.ConsumerAt, Wfifo.readAll, hend, List.take_length] at hcons
    rw [hcons.2, ← hfile, ← hswap]
    rfl
  · exact absurd hend hfail.consumer

/-! ## The length of the stream -/

/-- The sectors of a stream of chunks. -/
def chunkSectors (S : List BinChunk) : Nat := (S.map (·.n)).sum

theorem segChunks_sectors (s : WfifoSeg) (d : Nat) : chunkSectors (segChunks s d) = s.sectors - d := by
  induction d using segChunks.induct s with
  | case1 d h ih =>
    rw [segChunks_of_lt h]
    show min (s.sectors - d) CHUNK + chunkSectors (segChunks s (d + min (s.sectors - d) CHUNK)) = _
    rw [ih]
    omega
  | case2 d h =>
    rw [segChunks_of_le (Nat.not_lt.1 h), Nat.sub_eq_zero_of_le (Nat.not_lt.1 h)]
    rfl

theorem restChunks_sectors (tracks : List WfifoSeg) :
    chunkSectors (restChunks tracks 0) = totalSectors tracks := by
  rw [restChunks_zero]
  induction tracks with
  | nil => rfl
  | cons s ss ih =>
    rw [List.flatMap_cons, totalSectors_cons, ← ih]
    unfold chunkSectors
    rw [List.map_append, List.sum_append]
    exact congrArg (· + _) (segChunks_sectors s 0)

/-! ## The pops of a burn -/

/-- The sectors and the bytes of a pop. -/
def PopAnswer.chunk (p : PopAnswer) : Nat × List (BitVec 8) :=
  (p.got.toNat, (List.range (p.got.toNat * SECTOR)).map p.data)

/-- The pops are those of a ring over the file: after the first `k` of them, each written and released, the
next one gives sectors, or says how the stream ended. -/
def BurnEnv.Popped (env : BurnEnv) (toc : WriteToc) (opts : BurnOpts) : Prop :=
  ∃ f₀, adsc_wfifo_start opts.fifo_bytes env.file toc.segs opts.byteswap = .ok f₀ ∧
    ∀ k, (∀ j < k, 0 < (env.pops j).got) →
      ∃ f, Lts.Reaches Wfifo.step (fun _ _ => True) f₀ f ∧
        f.log.reverse = (List.range k).map (fun j => (env.pops j).chunk) ∧
        ((env.pops k).got ≤ 0 → f.consumer = .ended (env.pops k).got)

/-- The sectors of the first `k` pops. -/
def BurnEnv.poppedSectors (env : BurnEnv) (k : Nat) : Nat :=
  ((List.range k).map fun j => (env.pops j).got.toNat).sum

section
variable {env : BurnEnv} {toc : WriteToc} {opts : BurnOpts} {burnproof : Bool} {k d n : Nat} {src : Mem}

theorem poppedSectors_succ : env.poppedSectors (k + 1) = env.poppedSectors k + (env.pops k).got.toNat := by
  unfold BurnEnv.poppedSectors
  rw [List.range_succ, List.map_append, List.sum_append]
  rfl

theorem BurnEnv.Popped.stream (h : env.Popped toc opts) (hpos : ∀ j < k, 0 < (env.pops j).got)
    (hend : (env.pops k).got = 0) :
    (List.range k).map (fun j => (env.pops j).chunk) =
      (restChunks toc.segs 0).map (chunkBytes env.file opts.byteswap) := by
  obtain ⟨f₀, hstart, hall⟩ := h
  obtain ⟨f, hrun, hlog, hdone⟩ := hall k hpos
  rw [← hlog]
  refine wfifo_ended hstart hrun ?_
  rw [hdone (by omega), hend]

/-- All sectors of the tracks are popped by the end. -/
theorem BurnEnv.Popped.sectors (h : env.Popped toc opts) (hpos : ∀ j < k, 0 < (env.pops j).got)
    (hend : (env.pops k).got = 0) : env.poppedSectors k = totalSectors toc.segs := by
  have := congrArg (fun l => (l.map Prod.fst).sum) (h.stream hpos hend)
  simp only [List.map_map] at this
  rw [← restChunks_sectors]
  exact this

/-! ## The payload loop -/

/-- Without a FIFO, the chunks that a burn takes one by one are the chunks of the file. -/
theorem payload_chunks_next (env : BurnEnv) (toc : WriteToc) (opts : BurnOpts) (burnproof : Bool)
    (fuel k done_sec : Nat)
    (hf : opts.fifo_bytes = 0) :
    payload_chunks env.file opts.byteswap toc.segs toc.leadout_lba (fuel + 1) done_sec =
      match next_chunk env toc opts burnproof k done_sec with
      | .error rc => some (.error rc)
      | .ok none => some (.ok [])
      | .ok (some (n, src)) =>
        (payload_chunks env.file opts.byteswap toc.segs toc.leadout_lba fuel
          (u32 (done_sec + n))).map fun rest =>
          rest.map ((n, (List.range (n * SECTOR)).map src) :: ·) := by
  unfold next_chunk
  rw [payload_chunks, if_neg (not_not.2 hf)]
  by_cases hend : toc.leadout_lba ≤ done_sec
  · rw [if_pos hend, if_pos hend]
  · rw [if_neg hend, if_neg hend]
    dsimp only
    by_cases hread :
      env.file.readable (find_track toc.segs 0 done_sec (min (toc.leadout_lba - done_sec) CHUNK)).off
        ((find_track toc.segs 0 done_sec (min (toc.leadout_lba - done_sec) CHUNK)).n * SECTOR) = true
    · rw [if_pos hread, if_pos hread]
    · rw [if_neg hread, if_neg hread]

theorem find_track_le (ts : List WfifoSeg) (acc D n : Nat) : (find_track ts acc D n).n ≤ n := by
  induction ts generalizing acc with
  | nil => exact le_rfl
  | cons t ts ih =>
    unfold find_track
    split
    · exact Nat.min_le_left _ _
    · exact ih _

/-- A chunk that WRITE(10) cannot have is not written. -/
theorem write_chunk_unfit {answers : Nat → DriveAnswer} {lba : Int} {block_bytes waits : Nat}
    {P : Burn → Prop}
    {Q : Unit → Burn → Prop} (hn : n = 0 ∨ 0xffff < n) :
    Tri P (write_chunk answers lba n block_bytes src waits) Q (fun _ _ => True) := by
  have hw : adsc_mmc_write10 answers lba n block_bytes src =
    pure ⟨ACCUDISC_ERR_INVAL, fun _ => 0, 0, fun _ => 0⟩ := by
    unfold adsc_mmc_write10
    rw [if_pos (by omega)]
  cases waits with
  | zero =>
    unfold write_chunk
    rw [hw]
    exact fun s _ => trivial
  | succ waits =>
    unfold write_chunk
    rw [hw]
    exact fun s _ => trivial

/-- **The payload loop**: what `J` says of the turns to come, they write; it ends where `End` holds. -/
theorem payload_tri {P : Int → Nat → Mem → Prop} {l₀ : List Sent} {a : Int} {J : Nat → Nat → Int → Prop}
    {End : Int → Prop}
    (hend : ∀ k d lba, J k d lba → next_chunk env toc opts burnproof k d = .ok none → End lba)
    (hnext : ∀ k d lba n src, J k d lba → next_chunk env toc opts burnproof k d = .ok (some (n, src)) →
      0 < n → (∀ i < n, P (lba + i) SECTOR (ptr src (i * SECTOR))) ∧ J (k + 1) (u32 (d + n)) (lba + n))
    (fuel k : Nat) (lba : Int) (d : Nat) (h : J k d lba) :
    Tri (fun s => WroteAll P l₀ a lba s.log) (payload env toc opts burnproof fuel k lba d)
      (fun _ s => ∃ b, End b ∧ WroteAll P l₀ a b s.log) (fun _ _ => True) := by
  induction fuel generalizing k lba d with
  | zero => exact .leave fun _ _ => trivial
  | succ fuel ih =>
    unfold payload
    cases hc : next_chunk env toc opts burnproof k d with
    | error rc => exact .leave fun _ _ => trivial
    | ok c =>
      rcases c with - | ⟨n, src⟩
      · exact .pure fun _ hs => ⟨lba, hend k d lba h hc, hs⟩
      have hpoll : Tri (fun s => WroteAll P l₀ a lba s.log) (poll_buffer env.answers d)
          (fun _ s => WroteAll P l₀ a lba s.log) (fun _ _ => True) := by
        refine ((sends_poll_buffer (C := fun c => ¬c.Writes) id).keeps
          (I := WroteAll P l₀ a lba) fun x l hx hl =>
            hl.other hx).weaken (fun _ => id) ?_ fun _ _ _ => trivial
        exact fun _ _ hs => hs.2
      refine .bind hpoll fun _ => ?_
      by_cases hn : n = 0 ∨ 0xffff < n
      · exact .bind (write_chunk_unfit (Q := fun _ _ => False) hn) fun _ s hs => hs.elim
      rw [not_or] at hn
      obtain ⟨hP, hJ⟩ := hnext k d lba n src h hc (by omega)
      refine .bind ((write_chunk_next (by omega) (by omega) (by decide) hP).weaken (fun _ => id)
        (fun _ _ => id) fun _ _ _ => trivial) fun _ => ih _ _ _ hJ

end

end Accudisc
