import Accudisc.Write.Proof.BurnRelease

/-!
# What is on the disc

A burn that ends well has written the disc without a gap: the lead-in when there is CD-Text, the zero
sectors of the gap, and the payload, each sector from its place in the file (`adsc_write_run_tiles`).
-/

namespace Accudisc

open Exit History

/-! ## The sectors of a chunk -/

/-- Byte `j` of sector `k` of the payload. -/
def payload_byte (file : BinFile) (byteswap : Bool) (tracks : List WfifoSeg) (k j : Nat) : BitVec 8 :=
  match seek tracks k with
  | ([], _) => 0
  | (s :: _, d) =>
    file.bytes (s.file_offset + d * SECTOR + if byteswap then (if j % 2 = 0 then j + 1 else j - 1) else j)

/-- The chunk begins with sector `k` and stays within its track. -/
def ChunkAt (tracks : List WfifoSeg) (k : Nat) (c : BinChunk) : Prop :=
  ∃ s ss d, seek tracks k = (s :: ss, d) ∧ c.off = s.file_offset + d * SECTOR ∧ c.n ≤ s.sectors - d

section
variable {tracks : List WfifoSeg} {file : BinFile} {byteswap : Bool} {c : BinChunk} {k : Nat}

/-- Going on within a track. -/
theorem seek_add : ∀ (ts : List WfifoSeg) (D i : Nat) {s : WfifoSeg} {ss : List WfifoSeg} {d : Nat},
    seek ts D = (s :: ss, d) → i < s.sectors - d → seek ts (D + i) = (s :: ss, d + i)
  | [], _, _, _, _, _, h, _ => by cases h
  | t :: ts, D, i, s, ss, d, h, hi => by
    unfold seek at h ⊢
    split at h
    · rename_i hle
      rw [if_pos (by omega), Nat.sub_add_comm hle]
      exact seek_add ts (D - t.sectors) i h hi
    · rename_i hlt
      obtain ⟨he, rfl⟩ := Prod.mk.inj h
      obtain ⟨rfl, rfl⟩ := List.cons.inj he
      rw [if_neg (by omega)]

/-- **A sector of a chunk** is the one of the payload at its place. -/
theorem chunk_sector (h : ChunkAt tracks k c) (m : Mem) {i j : Nat} (hi : i < c.n) (hj : j < SECTOR) :
    chunkData file byteswap c m (i * SECTOR + j) = payload_byte file byteswap tracks (k + i) j := by
  obtain ⟨s, ss, d, hseek, hoff, hn⟩ := h
  have hin : i * SECTOR + j < c.n * SECTOR := by
    have := Nat.mul_le_mul_right SECTOR (Nat.succ_le_of_lt hi)
    rw [Nat.succ_mul] at this
    omega
  have hcpy (q : Nat) (hq : q < c.n * SECTOR) :
      memcpy m 0 file.bytes c.off (c.n * SECTOR) q = file.bytes (c.off + q) := by
    rw [memcpy_in (Nat.zero_le _) (by omega), Nat.sub_zero]
  have hplace (q : Nat) : c.off + (i * SECTOR + q) = s.file_offset + (d + i) * SECTOR + q := by
    rw [hoff, Nat.add_mul]
    omega
  unfold payload_byte
  rw [seek_add tracks k i hseek (by omega)]
  unfold chunkData
  cases byteswap with
  | false =>
    show memcpy m 0 file.bytes c.off (c.n * SECTOR) (i * SECTOR + j) = file.bytes _
    rw [hcpy _ hin, hplace]
    rfl
  | true =>
    show byteswap16 (memcpy m 0 file.bytes c.off (c.n * SECTOR)) (c.n * SECTOR)
      (i * SECTOR + j) = file.bytes _
    have heven : c.n * SECTOR = 2 * (c.n * 1176) := by
      unfold SECTOR
      omega
    have hsec : i * SECTOR = 2 * (i * 1176) := by
      unfold SECTOR
      omega
    rw [byteswap16_apply, if_pos (by omega)]
    by_cases hpar : j % 2 = 0
    · rw [if_pos (by omega), hcpy _ (by omega), Nat.add_assoc (i * SECTOR), hplace]
      simp only [if_true, hpar]
    · rw [if_neg (by omega), hcpy _ (by omega),
        show i * SECTOR + j - 1 = i * SECTOR + (j - 1) by omega, hplace]
      simp only [if_true, hpar, if_false]

/-- Where a chunk of the stream begins. -/
theorem chunkAt_of_split (pre post : List BinChunk) (D : Nat) (h : chunksFrom tracks D = pre ++ c :: post) :
    ChunkAt tracks (D + chunkSectors pre) c := by
  have hlt (hne : chunksFrom tracks D ≠ []) : D < totalSectors tracks := by
    by_contra hge
    exact hne (chunksFrom_end tracks D (Nat.not_lt.1 hge))
  induction pre generalizing D with
  | nil =>
    obtain ⟨s, ss, d, hseek, hd, -⟩ := seek_some tracks D (hlt (by rw [h]; simp))
    have hhead : chunksFrom tracks D = restChunks (s :: ss) d := by
      unfold chunksFrom
      rw [hseek]
    rw [hhead, restChunks_of_lt hd] at h
    obtain ⟨rfl, -⟩ := List.cons.inj h
    exact ⟨s, ss, d, hseek, rfl, Nat.min_le_left _ _⟩
  | cons b pre ih =>
    obtain ⟨s, ss, d, hseek, hd, -⟩ := seek_some tracks D (hlt (by rw [h]; simp))
    have hhead : chunksFrom tracks D = restChunks (s :: ss) d := by
      unfold chunksFrom
      rw [hseek]
    rw [hhead, restChunks_of_lt hd] at h
    obtain ⟨rfl, hrest⟩ := List.cons.inj h
    have hnext := chunksFrom_step tracks D (min (s.sectors - d) CHUNK) hseek (Nat.min_le_left _ _) hd
    have := ih (D + min (s.sectors - d) CHUNK) (hnext.trans hrest) fun hne => by
      by_contra hge
      exact hne (chunksFrom_end tracks _ (Nat.not_lt.1 hge))
    rwa [Nat.add_assoc] at this

end

/-! ## The disc -/

/-- The first LBA that is written. -/
def disc_start (toc : WriteToc) (leadin_len : Nat) : Int :=
  if toc.text.isSome then -(LEADIN_GAP : Int) - leadin_len else -(LEADIN_GAP : Int)

/-- The block of the disc at an LBA. -/
def DiscBlock (env : BurnEnv) (toc : WriteToc) (opts : BurnOpts) (lba : Int) (block_bytes : Nat)
    (blk : Mem) : Prop :=
  if lba < -(LEADIN_GAP : Int) then block_bytes = ADSC_RW_BLOCK_BYTES
  else block_bytes = SECTOR ∧ ∀ j < SECTOR, blk j =
    if lba < 0 then 0 else payload_byte env.file opts.byteswap toc.segs lba.toNat j

/-- The FIFO came to the end of its stream. -/
def BurnEnv.Drained (env : BurnEnv) (opts : BurnOpts) : Prop :=
  opts.fifo_bytes ≠ 0 → ∃ k, (∀ j < k, 0 < (env.pops j).got) ∧ (env.pops k).got = 0

section
variable {env : BurnEnv} {toc : WriteToc} {opts : BurnOpts} {burnproof : Bool} {k d n : Nat} {lba : Int}
  {src : Mem}

/-- A chunk from the FIFO. -/
theorem popped_sector (h : env.Popped toc opts) (hf : opts.fifo_bytes ≠ 0) (hd : env.Drained opts)
    (hpos : ∀ j < k + 1, 0 < (env.pops j).got) {i j : Nat} (hi : i < (env.pops k).got.toNat)
      (hj : j < SECTOR) :
    (env.pops k).data (i * SECTOR + j) =
      payload_byte env.file opts.byteswap toc.segs (env.poppedSectors k + i) j := by
  obtain ⟨K, hall, hend⟩ := hd hf
  have hk : k < K := by
    by_contra hge
    have := hpos K (by omega)
    omega
  have hstream := h.stream hall hend
  have hlen : k < (restChunks toc.segs 0).length := by
    have := congrArg List.length hstream
    simp only [List.length_map, List.length_range] at this
    omega
  obtain ⟨c, hc⟩ : ∃ c, (restChunks toc.segs 0)[k]? = some c := ⟨_, List.getElem?_eq_getElem hlen⟩
  have hchunk : (env.pops k).chunk = chunkBytes env.file opts.byteswap c := by
    have := congrArg (fun l => l[k]?) hstream
    simp only [List.getElem?_map, hc, List.getElem?_range hk, Option.map_some] at this
    exact Option.some.inj this
  obtain ⟨hn, hbytes⟩ := Prod.mk.inj hchunk
  have hpre : env.poppedSectors k = chunkSectors ((restChunks toc.segs 0).take k) := by
    have := congrArg (fun l => ((l.take k).map Prod.fst).sum) hstream
    simp only [← List.map_take, List.map_map, List.take_range, Nat.min_eq_left hk.le] at this
    exact this
  have hat : ChunkAt toc.segs (env.poppedSectors k) c := by
    rw [hpre, ← Nat.zero_add (chunkSectors _)]
    refine chunkAt_of_split _ ((restChunks toc.segs 0).drop (k + 1)) 0 ?_
    have hget : (restChunks toc.segs 0)[k] = c := by
      rw [List.getElem?_eq_getElem hlen] at hc
      exact Option.some.inj hc
    rw [chunksFrom_zero, ← hget, ← List.drop_eq_getElem_cons hlen, List.take_append_drop]
  have hin : i * SECTOR + j < (env.pops k).got.toNat * SECTOR := by
    have := Nat.mul_le_mul_right SECTOR (Nat.succ_le_of_lt hi)
    rw [Nat.succ_mul] at this
    omega
  rw [← chunk_sector hat (fun _ => 0) (hn ▸ hi) hj]
  have hbyte := congrArg (fun l => l[i * SECTOR + j]?) hbytes
  simp only [List.getElem?_map, List.getElem?_range hin, List.getElem?_range (hn ▸ hin),
    Option.map_some] at hbyte
  exact Option.some.inj hbyte

/-- A chunk straight from the file. -/
theorem find_track_at (hlay : toc.leadout_lba = totalSectors toc.segs) (hlead : toc.leadout_lba < 2 ^ 32)
    (hd : d < toc.leadout_lba) :
      ChunkAt toc.segs d (find_track toc.segs 0 d (min (toc.leadout_lba - d) CHUNK)) := by
  obtain ⟨s, ss, d', hseek, -, -⟩ := seek_some toc.segs d (hlay ▸ hd)
  rw [find_track_eq toc.segs 0 d _ (Nat.zero_le _) (by omega), Nat.sub_zero, hseek]
  exact ⟨s, ss, d', hseek, rfl, Nat.min_le_right _ _⟩

/-- **A turn of the payload** writes the sectors at its LBA. -/
theorem Turned.block (hlay : toc.leadout_lba = totalSectors toc.segs) (hlead : toc.leadout_lba < 2 ^ 32)
    (hpop : opts.fifo_bytes ≠ 0 → env.Popped toc opts) (h : Turned env toc opts k d lba)
    (hc : next_chunk env toc opts burnproof k d = .ok (some (n, src))) (hdrain : env.Drained opts) :
    ∀ i < n, DiscBlock env toc opts (lba + i) SECTOR (ptr src (i * SECTOR)) := by
  intro i hi
  suffices hbytes : ∃ m : Nat, lba = m ∧ ∀ j < SECTOR,
      src (i * SECTOR + j) = payload_byte env.file opts.byteswap toc.segs (m + i) j by
    obtain ⟨m, rfl, hbytes⟩ := hbytes
    unfold DiscBlock
    rw [if_neg (by unfold LEADIN_GAP; omega)]
    refine ⟨rfl, fun j hj => ?_⟩
    rw [if_neg (by omega), show ((m : Int) + (i : Int)).toNat = m + i by omega]
    exact hbytes j hj
  unfold Turned at h
  unfold next_chunk at hc
  by_cases hf : opts.fifo_bytes ≠ 0
  · rw [if_pos hf] at h hc
    dsimp only at hc
    split at hc
    · cases hc
    split at hc
    · cases hc
    split at hc
    · cases hc
    obtain ⟨rfl, rfl⟩ := Prod.mk.inj (Option.some.inj (Except.ok.inj hc))
    refine ⟨_, h.2, fun j hj => popped_sector (hpop hf) hf hdrain (fun q hq => ?_) hi hj⟩
    rcases Nat.lt_succ_iff_lt_or_eq.1 hq with hq | rfl
    · exact h.1 q hq
    · omega
  · rw [if_neg hf] at h hc
    split at hc
    · cases hc
    dsimp only at hc
    split at hc
    · obtain ⟨rfl, rfl⟩ := Prod.mk.inj (Option.some.inj (Except.ok.inj hc))
      refine ⟨d, h.1, fun j hj => ?_⟩
      exact chunk_sector (find_track_at hlay hlead (by omega)) (fun _ => 0) hi hj
    · cases hc

/-- At the end of the stream the FIFO is drained. -/
theorem Turned.drained (h : Turned env toc opts k d lba)
    (hc : next_chunk env toc opts burnproof k d = .ok none) : env.Drained opts := by
  intro hf
  unfold Turned at h
  unfold next_chunk at hc
  rw [if_pos hf] at h hc
  dsimp only at hc
  split at hc
  · cases hc
  split at hc
  · exact ⟨k, h.1, ‹_›⟩
  · split at hc <;> cases hc

end

/-! ## The phases -/

section
variable {P : Int → Nat → Mem → Prop} {l₀ : List Sent} {a lba : Int} {env : BurnEnv} {toc : WriteToc}
  {opts : BurnOpts} {burnproof : Bool} {di : DiscInfo} {fuel : Nat}

/-- The loop of the lead-in, whatever blocks it sends. -/
theorem write_leadin_tiles {answers : Nat → DriveAnswer} {blocks : Mem} {nblocks : Nat}
    (turns : Nat) (xfer : Mem)
    (scp : Nat) (lba : Int) (left : Nat) (hturns : left ≤ turns)
    (hP : ∀ i : Nat, i < left → ∀ blk, P (lba + i) ADSC_RW_BLOCK_BYTES blk) :
    Tri (fun s => WroteAll P l₀ a lba s.log) (write_leadin answers blocks nblocks turns xfer scp lba left)
      (fun _ s => WroteAll P l₀ a (lba + left) s.log) (fun _ _ => True) := by
  induction turns generalizing xfer scp lba left with
  | zero =>
    obtain rfl : left = 0 := by omega
    exact .pure fun s hs => by simpa using hs
  | succ turns ih =>
    unfold write_leadin
    refine .ite (fun h0 => .pure fun s hs => ?_) fun h0 => ?_
    · subst h0
      simpa using hs
    have hchunk : 0 < (if left < CDT_CHUNK then left else CDT_CHUNK) ∧
        (if left < CDT_CHUNK then left else CDT_CHUNK) ≤ left ∧
        (if left < CDT_CHUNK then left else CDT_CHUNK) ≤ 0xffff := by
      unfold CDT_CHUNK
      split <;> omega
    obtain ⟨hn, hle, hmax⟩ := hchunk
    dsimp only
    generalize (if left < CDT_CHUNK then left else CDT_CHUNK) = n at hn hle hmax ⊢
    refine .bind (Q := fun _ s => WroteAll P l₀ a (lba + n) s.log) ?_ fun _ => ?_
    · exact (write_chunk_next hn hmax (by decide) fun i hi => hP i (by omega) _).weaken (fun _ => id)
        (fun _ _ => id) fun _ _ _ => trivial
    · have := ih ((List.range n).foldl (leadin_copy blocks nblocks) (xfer, scp)).1
        ((List.range n).foldl (leadin_copy blocks nblocks) (xfer, scp)).2 (lba + n) (left - n) (by omega)
        fun i hi blk => by
          have := hP (n + i) (by omega) blk
          rwa [Nat.cast_add, ← Int.add_assoc] at this
      rwa [show lba + (n : Int) + ((left - n : Nat) : Int) = lba + left by omega] at this

/-- Blocks as the disc has them, once the FIFO is drained. -/
def DrainedBlock (env : BurnEnv) (toc : WriteToc) (opts : BurnOpts) (lba : Int) (block_bytes : Nat)
    (blk : Mem) : Prop := env.Drained opts → DiscBlock env toc opts lba block_bytes blk

theorem write_text_tiles :
    Tri (fun s => WroteAll (DrainedBlock env toc opts) l₀ a (disc_start toc di.leadin_len) s.log)
      (write_text env toc di) (fun _ s =>
        WroteAll (DrainedBlock env toc opts) l₀ a (-(LEADIN_GAP : Int)) s.log)
      (fun _ _ => True) := by
  unfold write_text disc_start
  cases toc.text with
  | none => exact .pure fun _ hs => hs
  | some text =>
    show Tri _ (write_cdtext_leadin env text.1 text.2 di) _ _
    unfold write_cdtext_leadin
    refine .ite (fun _ => .leave fun _ _ => trivial) fun _ =>
      .ite (fun _ => .leave fun _ _ => trivial) fun _ => ?_
    cases adsc_cdtext_encode_rw (ptr text.1 4) ((text.2 - 4) / ADSC_CDTEXT_PACK_BYTES) fun _ => 0 with
    | error rc => exact fun _ _ => trivial
    | ok blocks =>
      have hblock (i : Nat) (hi : i < di.leadin_len) (blk : Mem) : DrainedBlock env toc opts
          (-(LEADIN_GAP : Int) - di.leadin_len + i) ADSC_RW_BLOCK_BYTES blk := by
        intro _
        unfold DiscBlock
        rw [if_pos (by omega)]
      have hloop :
        Tri (fun s => WroteAll (DrainedBlock env toc opts) l₀ a (-(LEADIN_GAP : Int) - di.leadin_len) s.log)
          (write_leadin env.answers blocks
            (adsc_cdtext_rw_block_count ((text.2 - 4) / ADSC_CDTEXT_PACK_BYTES))
            di.leadin_len (fun _ => 0) 0 (-(LEADIN_GAP : Int) - di.leadin_len) di.leadin_len)
          (fun _ s => WroteAll (DrainedBlock env toc opts) l₀ a
            (-(LEADIN_GAP : Int) - di.leadin_len + di.leadin_len) s.log) (fun _ _ => True) :=
        write_leadin_tiles di.leadin_len (fun _ => 0) 0 _ di.leadin_len le_rfl hblock
      rwa [show -(LEADIN_GAP : Int) - (di.leadin_len : Int) +
        (di.leadin_len : Int) = -(LEADIN_GAP : Int) by omega]
        at hloop

/-- **The writing of a burn**, phase after phase. -/
theorem burn_write_tiles (hlay : toc.leadout_lba = totalSectors toc.segs) (hlead : toc.leadout_lba < 2 ^ 32)
    (hpop : opts.fifo_bytes ≠ 0 → env.Popped toc opts) :
    Tri (fun s => WroteAll (DrainedBlock env toc opts) l₀ a (disc_start toc di.leadin_len) s.log)
      (burn_write env toc opts burnproof di fuel)
      (fun _ s => ∃ b, (b = (toc.leadout_lba : Int) ∧ env.Drained opts) ∧
        WroteAll (DrainedBlock env toc opts) l₀ a b s.log) (fun _ _ => True) := by
  have hgap (i : Nat) (hi : i < LEADIN_GAP) :
      DrainedBlock env toc opts (-(LEADIN_GAP : Int) + i) SECTOR (fun _ => 0) := by
    intro _
    unfold DiscBlock
    rw [if_neg (by omega)]
    exact ⟨rfl, fun j _ => (if_pos (by omega)).symm⟩
  have hkeep {m : BurnM Unit} {V : Unit → Prop} {b : Int} (h : Sends env.answers (fun c => ¬c.Writes) m V) :
      Tri (fun s => WroteAll (DrainedBlock env toc opts) l₀ a b s.log) m
        (fun _ s => WroteAll (DrainedBlock env toc opts) l₀ a b s.log) (fun _ _ => True) :=
    (h.keeps (I := WroteAll (DrainedBlock env toc opts) l₀ a b) fun _ _ hx hl => hl.other hx).weaken
      (fun _ => id) (fun _ _ hs => hs.2) fun _ _ _ => trivial
  unfold burn_write
  refine .bind write_text_tiles fun _ => .bind (hkeep sends_alloc_buffers) fun _ => ?_
  refine .bind (hkeep (sends_poll_capacity id)) fun _ => ?_
  refine .bind ((write_gap_tri LEADIN_GAP (-(LEADIN_GAP : Int)) LEADIN_GAP le_rfl hgap).weaken (fun _ => id)
    (fun _ _ => id) fun _ _ _ => trivial) fun _ => .bind (hkeep sends_start_fifo) fun _ => ?_
  rw [show -(LEADIN_GAP : Int) + (LEADIN_GAP : Int) = 0 by omega]
  exact payload_tri (fun k d lba hJ hc => ⟨(hJ.last hpop hc).trans (by
      unfold payload_sectors
      split
      · rw [hlay]
      · rfl), hJ.drained hc⟩)
    (fun k d lba n src hJ hc _ =>
      ⟨fun i hi hdrain => hJ.block hlay hlead hpop hc hdrain i hi, hJ.next hlead hc⟩)
    fuel 0 0 0 Turned.start

end

/-! ## The whole burn -/

/-- The first READ DISC INFORMATION says that the lead-in has `leadin_len` blocks. -/
def InfoRead (leadin_len : Nat) (l : List Sent) : Prop :=
  ∃ newer x older, l = newer ++ x :: older ∧ x.cmd = .read_disc_info ∧
    (∀ y ∈ older, y.cmd ≠ .read_disc_info) ∧ leadin_len = disc_leadin_len x.answer.data

def Unwritten (l : List Sent) : Prop := ∀ y ∈ l, ¬y.cmd.Writes

section
variable {α : Type} {C : BurnCmd → Prop} {m : BurnM α} {V : α → Prop} {env : BurnEnv} {toc : WriteToc}
  {opts : BurnOpts} {fuel : Nat} {x : Sent} {l : List Sent} {len : Nat} {a b : Int}
  {P P' : Int → Nat → Mem → Prop} {s : Burn} {ws : List Written} {scanned : List ScannedTrack}

theorem InfoRead.cons (h : InfoRead len l) : InfoRead len (x :: l) := by
  obtain ⟨newer, y, older, rfl, hy, hold, hlen⟩ := h
  exact ⟨x :: newer, y, older, rfl, hy, hold, hlen⟩

theorem Unwritten.cons (hx : ¬x.cmd.Writes) (h : Unwritten l) : Unwritten (x :: l) :=
  List.forall_mem_cons.2 ⟨hx, h⟩

theorem Unwritten.wroteAll (h : Unwritten l) : WroteAll P [] a a l := by
  induction l with
  | nil => exact .init
  | cons x l ih =>
    obtain ⟨hx, hl⟩ := List.forall_mem_cons.1 h
    exact (ih hl).other hx

theorem Tiles.mono (h : Tiles P a ws b) (hP : ∀ lba bb blk, P lba bb blk → P' lba bb blk) :
    Tiles P' a ws b := by
  induction ws generalizing a with
  | nil => exact h
  | cons w ws ih => exact ⟨h.1, h.2.1, fun i hi => hP _ _ _ (h.2.2.1 i hi), ih h.2.2.2⟩

theorem WroteSince.mono (h : WroteSince P a b l) (hP : ∀ lba bb blk, P lba bb blk → P' lba bb blk) :
    WroteSince P' a b l where
  tiles := h.tiles.mono hP
  tried := h.tried.mono fun x older _ hx lba n bb data hc => by
    obtain ⟨h1, h2, h3⟩ := hx lba n bb data hc
    exact ⟨h1.mono hP, fun i hi => hP _ _ _ (h2 i hi), h3⟩

/-- What every command of a part preserves. -/
theorem Sends.tri {I : List Sent → Prop} (h : Sends env.answers C m V) (hI : ∀ x l, C x.cmd →
    I l → I (x :: l)) :
    Tri (fun s => I s.log) m (fun a s => V a ∧ I s.log) (fun _ _ => True) :=
  (h.keeps hI).weaken (fun _ => id) (fun _ _ => id) fun _ _ _ => trivial

theorem check_tri {r : Except Int α} {I : Burn → Prop} :
    Tri I (check r) (fun a s => r = .ok a ∧ I s) (fun _ _ => True) := by
  cases r with
  | ok a => exact .pure fun _ hs => ⟨rfl, hs⟩
  | error rc => exact .leave fun _ _ => trivial

/-- The checks write nothing, and their READ DISC INFORMATION is the first one. -/
theorem burn_checks_info :
    Tri (fun s => s.log = []) (burn_checks env toc opts)
      (fun r s => InfoRead r.2.2.leadin_len s.log ∧ Unwritten s.log) (fun _ _ => True) := by
  let Plain : BurnCmd → Prop := fun c => ¬c.Writes ∧ c ≠ .read_disc_info
  let I : List Sent → Prop := fun l => ∀ y ∈ l, Plain y.cmd
  have hI : ∀ x l, Plain x.cmd → I l → I (x :: l) := fun x l hx hl => List.forall_mem_cons.2 ⟨hx, hl⟩
  have hsense (page len : Nat) : Plain (.mode_sense page len) := ⟨id, nofun⟩
  unfold burn_checks
  refine .bind (Q := fun _ s => I s.log) (((Sends.exec ⟨id, nofun⟩).tri hI).weaken ?_ (fun _ _ hs => hs.2)
    fun _ _ => id) fun caps => ?_
  · rintro s hs y hy
    rw [hs] at hy
    exact absurd hy List.not_mem_nil
  refine .bind (Q := fun _ s => I s.log)
    (((sends_wp_program (hsense _) fun _ _ => ⟨id, nofun⟩).tri hI).weaken
    (fun _ => id) (fun _ _ hs => hs.2) fun _ _ => id) fun programmed => ?_
  refine .bind check_tri fun sent => ?_
  refine .bind (Q := fun _ s => I s.log)
    (((sends_write_speed (hsense _) fun _ _ => ⟨id, nofun⟩).tri hI).weaken
    (fun _ hs => hs.2) (fun _ _ hs => hs.2) fun _ _ => id) fun _ => ?_
  refine .bind (Q := fun _ s => I s.log) (((sends_check_write_params (hsense _)).tri hI).weaken
    (fun _ => id) (fun _ _ hs => hs.2) fun _ _ => id) fun held => ?_
  refine .bind check_tri fun _ => ?_
  refine .bind (Q := fun r s => ∃ a l, s.log = ⟨.read_disc_info, a⟩ :: l ∧ I l ∧
    ∀ di, r = .ok di → di.leadin_len = disc_leadin_len a.data) ?_ fun info => ?_
  · rintro s ⟨-, hs⟩
    refine disc_info_tri.weaken (fun _ => id) (fun r t ht => ?_) (fun _ _ => id) s rfl
    obtain ⟨a, hlog, hok⟩ := ht
    exact ⟨a, s.log, hlog, hs, fun di hdi => (hok di hdi).2.2.2⟩
  refine .bind check_tri fun di => .ite (fun _ => .leave fun _ _ => trivial) fun _ => .pure ?_
  rintro s ⟨rfl, a, l, hlog, hl, hlen⟩
  rw [hlog]
  refine ⟨⟨[], _, l, rfl, rfl, fun y hy => (hl y hy).2, hlen di rfl⟩, ?_⟩
  exact Unwritten.cons id fun y hy => (hl y hy).1

/-- **The body of a burn** writes the disc. -/
theorem burn_body_tiles (hlay : toc.leadout_lba = totalSectors toc.segs) (hlead : toc.leadout_lba < 2 ^ 32)
    (hpop : opts.fifo_bytes ≠ 0 → env.Popped toc opts) :
    Tri (fun s => s.log = []) (burn_body env toc opts fuel)
      (fun _ s => ∃ len, InfoRead len s.log ∧ env.Drained opts ∧
        WroteAll (DrainedBlock env toc opts) [] (disc_start toc len) toc.leadout_lba s.log)
          (fun _ _ => True) := by
  unfold burn_body
  refine .bind burn_checks_info fun ⟨sent, burnproof, di⟩ => ?_
  have hdark (x : Sent) (l : List Sent) (hx : ¬x.cmd.Writes)
      (hl : InfoRead di.leadin_len l ∧ Unwritten l) : InfoRead di.leadin_len (x :: l) ∧
        Unwritten (x :: l) :=
    ⟨hl.1.cons, hl.2.cons hx⟩
  refine .bind (Q := fun _ s => InfoRead di.leadin_len s.log ∧ Unwritten s.log)
    (((sends_burn_calibrate (C := fun c => ¬c.Writes) id fun _ => id).tri hdark).weaken (fun _ => id)
      (fun _ _ hs => hs.2) fun _ _ => id) fun _ => ?_
  refine .bind (Q := fun _ s => InfoRead di.leadin_len s.log ∧ Unwritten s.log)
    (((sends_send_cue (C := fun c => ¬c.Writes) fun _ _ => id).tri hdark).weaken (fun _ => id)
      (fun _ _ hs => hs.2) fun _ _ => id) fun _ => ?_
  refine .bind (Q := fun _ s => InfoRead di.leadin_len s.log ∧ Unwritten s.log)
    (.update fun _ => id) fun _ => ?_
  refine .bind (Q := fun _ s => InfoRead di.leadin_len s.log ∧ ∃ b,
    (b = (toc.leadout_lba : Int) ∧ env.Drained opts) ∧
      WroteAll (DrainedBlock env toc opts) [] (disc_start toc di.leadin_len) b s.log) ?_ fun _ => ?_
  · have hsends : Sends env.answers (fun _ => True) (burn_write env toc opts burnproof di fuel) fun _ =>
      True :=
      sends_burn_write (fun _ _ _ _ => trivial) trivial
    have hinfo := hsends.tri (I := InfoRead di.leadin_len) fun _ _ _ hl => hl.cons
    refine (hinfo.and (burn_write_tiles hlay hlead hpop)).weaken (fun s hs => ⟨hs.1, hs.2.wroteAll⟩)
      (fun _ _ hs => ⟨hs.1.2, hs.2⟩) fun _ _ _ => trivial
  let I : List Sent → Prop := fun l => ∃ len, InfoRead len l ∧ env.Drained opts ∧
    WroteAll (DrainedBlock env toc opts) [] (disc_start toc len) toc.leadout_lba l
  have hI (x : Sent) (l : List Sent) (hx : ¬x.cmd.Writes) (hl : I l) : I (x :: l) := by
    obtain ⟨len, hinfo, hdrain, hw⟩ := hl
    exact ⟨len, hinfo.cons, hdrain, hw.other hx⟩
  refine .bind (Q := fun _ s => I s.log) (((sends_sync_cache (C := fun c => ¬c.Writes) id).tri hI).weaken
    ?_ (fun _ _ hs => hs.2) fun _ _ => id) fun _ => ?_
  · rintro s ⟨hinfo, b, ⟨rfl, hdrain⟩, hw⟩
    exact ⟨_, hinfo, hdrain, hw⟩
  refine .bind (Q := fun _ s => I s.log) (.update fun _ => id) fun _ => ?_
  exact trace_tri fun x l hx hl => hI x l (by rw [hx]; exact id) hl

/-- The lead-out of a layout is the sum of its tracks. -/
theorem toc_layout_leadout {tracks : List WriteTrack} {cum leadout : Nat}
    (h : toc_layout cum scanned = .ok (tracks, leadout))
    (htot : cum + (tracks.map (·.sectors)).sum < 2 ^ 32) :
      leadout = cum + (tracks.map (·.sectors)).sum := by
  induction scanned generalizing cum tracks with
  | nil =>
    obtain ⟨rfl, rfl⟩ := Prod.mk.inj (Except.ok.inj h)
    rfl
  | cons t ts ih =>
    unfold toc_layout at h
    split at h
    · cases h
    split at h
    · cases h
    split at h
    · cases h
    cases hr : toc_layout (u32 (cum + t.track.sectors)) ts with
    | error rc =>
      rw [hr] at h
      cases h
    | ok rest =>
      rw [hr] at h
      obtain ⟨rfl, rfl⟩ := Prod.mk.inj (Except.ok.inj h)
      simp only [List.map_cons, List.sum_cons] at htot ⊢
      have hu : u32 (cum + t.track.sectors) = cum + t.track.sectors := Nat.mod_eq_of_lt (by omega)
      rw [hu] at hr
      have := ih hr (by omega)
      omega

theorem totalSectors_segs : totalSectors toc.segs = (toc.track.map (·.sectors)).sum := by
  unfold totalSectors WriteToc.segs
  rw [List.map_map]
  rfl

/-- **What a burn that ends well has written**: the blocks that the drive took run without a gap from the
start of the lead-in, or of the gap when there is no CD-Text, to the lead-out, each as the disc is to have
it; a WRITE(10) went out again only as it was and for a full buffer. -/
theorem adsc_write_run_tiles (hlay : toc_layout 0 scanned = .ok (toc.track, toc.leadout_lba))
    (htot : totalSectors toc.segs < 2 ^ 31) (hpop : opts.fifo_bytes ≠ 0 → env.Popped toc opts)
    (h : adsc_write_run env toc opts fuel = (some ACCUDISC_OK, s)) :
    ∃ len, InfoRead len s.log ∧
      Tiles (DiscBlock env toc opts) (disc_start toc len) (accepted s.log) toc.leadout_lba ∧
      Always (Tried (DiscBlock env toc opts) (disc_start toc len)) s.log := by
  have hleadout : toc.leadout_lba = totalSectors toc.segs := by
    rw [totalSectors_segs] at htot ⊢
    rw [toc_layout_leadout hlay (by omega), Nat.zero_add]
  rcases run_ends h with ⟨t, hm, rfl⟩ | ⟨rc', t, hm, rfl, hrc⟩
  · obtain ⟨len, hinfo, hdrain, hw⟩ := (burn_body_tiles hleadout (by omega) hpop).of_ok rfl hm
    have hdone : InfoRead len (burn_done env ACCUDISC_OK t).2.log ∧
        WroteAll (DrainedBlock env toc opts) [] (disc_start toc len) toc.leadout_lba
          (burn_done env ACCUDISC_OK t).2.log := by
      rcases burn_done_log env ACCUDISC_OK t with ⟨hlog, -⟩ | ⟨⟨a, hlog⟩, -⟩
      · rw [hlog]
        exact ⟨hinfo, hw⟩
      · rw [hlog]
        exact ⟨hinfo.cons, hw.other id⟩
    obtain ⟨newer, hlog, hsince, -⟩ := hdone.2
    rw [List.append_nil] at hlog
    have hdisc : WroteSince (DiscBlock env toc opts) (disc_start toc len) toc.leadout_lba newer :=
      hsince.mono fun _ _ _ hb => hb hdrain
    rw [← hlog] at hdisc
    exact ⟨len, hdone.1, hdisc.tiles, hdisc.tried⟩
  · have hstart : ({} : Burn).session_open = false ∧ ¬CueTaken ({} : Burn).log :=
      ⟨rfl, fun ⟨x, hx, _⟩ => absurd hx List.not_mem_nil⟩
    have hleft : LeftOpen (some rc') t :=
      (burn_body_tri (T := fun _ => True) fun _ _ => Tri.any).of_error hstart hm
    have hno : rc' ≠ ACCUDISC_OK := fun he => hleft.1 (congrArg some he)
    exact absurd (hrc hno) hno.symm

/-- The live burn of two tracks. -/
theorem adsc_write_run_tiles_two :
    ∃ s len, adsc_write_run live_env live_toc live_opts 5 = (some ACCUDISC_OK, s) ∧
      Tiles (DiscBlock live_env live_toc live_opts) (disc_start live_toc len) (accepted s.log) 50 := by
  obtain ⟨s, hrun, -⟩ := live_run
  have hlay : toc_layout 0 (live_toc.track.map fun t => ⟨t, true⟩) =
    .ok (live_toc.track, live_toc.leadout_lba) := rfl
  obtain ⟨len, -, htiles, -⟩ :=
    adsc_write_run_tiles hlay (show totalSectors live_toc.segs < 2 ^ 31 by decide)
    (fun h => absurd rfl h) hrun
  exact ⟨s, len, hrun, htiles⟩

end

end Accudisc
