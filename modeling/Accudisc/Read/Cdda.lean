import Accudisc.Read.Engine

/-!
# The read loop (`engine.c`)

One chunk read, checked and held back while the one before it is delivered, and the call
`accudisc_read_cdda` around that loop.
-/

namespace Accudisc

/-! ## Publishing a chunk -/

section
variable (c : Cfg)

/-- The status of sector `s`: hard, suspect, recovered, C2, ok. -/
def sector_status (k : ChunkState) (s : Nat) : BitVec 8 :=
  if k.hard s then ACCUDISC_MAP_HARD
  else if k.susp s then adsc_map_suspect_byte (k.diffb s)
  else if k.recov s then adsc_map_recovered_byte (k.att s)
  else if k.bits s ≠ 0 then adsc_map_c2_byte (k.bits s)
  else ACCUDISC_MAP_OK

/-- `map_store` to `req->status_map`. -/
def store_status (r : Rd) (idx : Nat) (v : BitVec 8) : Rd :=
  if c.req.status_map = 0 then r
  else { r with status_map := Function.update r.status_map idx v }.emit (.status idx v)

/-- `map_store` to `req->subq_map`. -/
def store_subq (r : Rd) (idx : Nat) (v : BitVec 8) : Rd :=
  if c.req.subq_map = 0 then r
  else { r with subq_map := Function.update r.subq_map idx v }.emit (.subq idx v)

/-- The Q health of a delivered sector. -/
def publish_subq (r : Rd) (qd : AccuQ) (idx cur : Nat) : Rd :=
  store_subq c { r with st := { r.st with
    subq_total := r.st.subq_total + 1
    subq_ok := if qd.crc_ok then r.st.subq_ok + 1 else r.st.subq_ok } } idx (adsc_subq_byte qd cur)

/-- The C2 account of a delivered sector. -/
def count_flagged (st : Stats) (bits cur : Nat) : Stats :=
  if bits ≠ 0 then
    { st with
      sectors_flagged := st.sectors_flagged + 1
      max_bits_sector := if bits > st.max_bits_sector then bits else st.max_bits_sector
      first_flagged_lba := if st.first_flagged_lba < 0 then cur else st.first_flagged_lba
      last_flagged_lba := cur }
  else st

/-- The verdict's account of a delivered sector. -/
def count_verdict (st : Stats) (k : ChunkState) (s : Nat) : Stats :=
  if k.susp s then { st with sectors_suspect := st.sectors_suspect + 1 }
  else if k.recov s then { st with sectors_recovered := st.sectors_recovered + 1 }
  else st

def publish_sector (k : ChunkState) (r : Rd) (s : Nat) : Rd :=
  let cur := u32 (k.lba + s)
  let idx := sub32 cur c.req.lba.toNat
  let r := r.emit (.publish cur (sector_status k s) (record c.sector_len k.buf s))
  if k.hard s then
    store_subq c (store_status c r idx (sector_status k s)) idx ACCUDISC_SUBQ_NO_AUDIO
  else
    let r := { r with st := { r.st with
      sectors_read := r.st.sectors_read + 1
      c2_bits := r.st.c2_bits + k.bits s } }
    let r := if c.sub_len = ACCUDISC_BYTES_SUB_RAW then
      publish_subq c r (record_q c k.buf (s * c.sector_len)) idx cur else r
    store_status c { r with st := count_verdict (count_flagged r.st (k.bits s) cur) k s } idx
      (sector_status k s)

/-- `accudisc_chunk out`. -/
def chunk_out (k : ChunkState) : Chunk :=
  { lba := .ofNat k.lba, nsec := .ofNat k.n, data := 0, sector_len := .ofNat c.sector_len,
    audio_len := .ofNat c.audio_len, c2_len := .ofNat c.c2_len, sub_len := .ofNat c.sub_len }

/-- Publish a chunk and hand it over, to no sink (0) or to one. -/
def publish (sink : Nat) (r : Rd) (k : ChunkState) : Rd × Int :=
  let r := (List.range k.n).foldl (publish_sector c k) r
  if sink = 0 then (r, 0)
  else ({ r with sinks := r.sinks + 1 }.emit (.sink (chunk_out c k) k.buf), c.env.sink r.sinks)

end

/-! ## One chunk -/

/-- What lives across iterations: the two slots, the extension of the chunk before, and the rest. -/
structure Loop where
  r : Rd
  cur : ChunkState
  pend : ChunkState
  prev_ext : Option Mem
  prev_ext_hard : Nat → Bool
  prev_ext_n : Nat
  lba : Nat
  remaining : Nat
  witness_next : Bool

section
variable (c : Cfg)

/-- The slot of a new chunk. -/
def chunk_begin (k : ChunkState) (lba n : Nat) : ChunkState :=
  { k with
    lba, n, witnessed := false, recov := fun _ => false, susp := fun _ => false
    att := fun _ => 0, bits := fun _ => 0, diffb := fun _ => 0 }

/-- Read the chunk and its extension, and keep the chunk as first delivered. -/
def chunk_read (w : Work) (ext : Nat) : Work :=
  let sp := read_span c (ladder_restore c w.r) .stream w.k.lba (w.k.n + ext) w.k.buf w.k.n
  { r := sp.r
    k := { w.k with
      buf := sp.buf
      hard := sp.hard
      prim := w.k.prim.map fun prim => memcpy prim 0 sp.buf 0 (w.k.n * c.sector_len) } }

/-- Sector `s` names another LBA. -/
def qbad (k : ChunkState) (s : Nat) : Bool :=
  !k.hard s && misplaced (record_q c k.buf (s * c.sector_len)) (u32 (k.lba + s))

/-- Sector `s` is within the margin of one that does. -/
def qsus (k : ChunkState) (s : Nat) : Bool :=
  (List.range k.n).any fun t =>
    qbad c k t &&
      decide ((if t > ADSC_QPOS_MARGIN then t - ADSC_QPOS_MARGIN else 0) ≤ s ∧
        s ≤ if t + ADSC_QPOS_MARGIN ≥ k.n then k.n - 1 else t + ADSC_QPOS_MARGIN)

def qpos_sector (sus : Nat → Bool) (w : Work) (s : Nat) : Work :=
  if !sus s ∨ w.k.hard s ∨ w.k.susp s then w
  else settle w s (qpos_rescue c w.r (u32 (w.k.lba + s)) w.k.buf (s * c.sector_len))

/-- The Q-position check. -/
def qpos_check (w : Work) : Work :=
  if c.sub_len = ACCUDISC_BYTES_SUB_RAW then
    let bad := (List.range w.k.n).countP (qbad c w.k)
    (List.range w.k.n).foldl (qpos_sector c (qsus c w.k))
      { w with r := { w.r with st :=
        { w.r.st with subq_misposition := w.r.st.subq_misposition + bad } } }
  else w

/-- The seam with the chunk before: its extension, as a reference. -/
structure Seam where
  data : Option Mem
  hard : Nat → Bool
  n : Nat

/-- Sector `s` against the extension of the chunk before; has a seam sector differed? -/
def seam_sector (seam : Seam) (st : Work × Bool) (s : Nat) : Work × Bool :=
  let (w, bad) := st
  let k := w.k
  let off := s * c.sector_len
  if s ≥ k.n ∨ seam.hard s ∨ k.hard s ∨ k.susp s then (w, bad)
  else
    let alt := ptr (seam.data.getD fun _ => 0) off
    let diff := adsc_audio_diff (ptr k.buf off) alt
    if diff = 0 then (w, bad)
    else
      let shifted := (adsc_shift_find (ptr k.buf off) alt).isSome
      let r := if shifted then w.r.slip else w.r
      let x := consensus c .seam r (u32 (k.lba + s)) k.buf off (some alt) shifted
        [⟨k.lba, k.n, k.prim, k.hard⟩, ⟨k.lba, seam.n, seam.data, seam.hard⟩]
      (settle { w with k := { k with diffb := Function.update k.diffb s diff } } s x, true)

def seam_check (seam : Seam) (w : Work) : Work × Bool :=
  (List.range seam.n).foldl (seam_sector c seam) (w, false)

/-- The C2 bits of every sector. -/
def c2_scan (w : Work) : Work :=
  if c.c2_len ≠ 0 then
    { w with k := { w.k with bits := fun s =>
      if s < w.k.n ∧ ¬w.k.hard s then record_bits c w.k.buf (s * c.sector_len) else w.k.bits s } }
  else w

/-- Has any sector a C2 flag? -/
def c2_hit (k : ChunkState) : Bool :=
  (List.range k.n).any fun s => !k.hard s && decide (c.c2_len ≠ 0) && k.bits s != 0

def c2_sector (seam : Seam) (w : Work) (s : Nat) : Work :=
  let k := w.k
  if k.hard s ∨ k.bits s = 0 then w
  else
    let x := c2_rescue c w.r (u32 (k.lba + s)) k.buf (s * c.sector_len) (k.bits s)
      [⟨k.lba, k.n, k.prim, k.hard⟩, ⟨k.lba, seam.n, seam.data, seam.hard⟩]
    { r := x.r
      k := { k with
        buf := x.buf
        bits := Function.update k.bits s x.best
        recov := if x.best = 0 then Function.update k.recov s true else k.recov
        att := if x.best = 0 then Function.update k.att s (u32 (k.att s + x.used)) else k.att } }

/-- The C2-guided rescue. -/
def c2_rescue_chunk (seam : Seam) (w : Work) : Work :=
  if c.req.c2_retries ≠ 0 ∧ c.c2_len ≠ 0 then (List.range w.k.n).foldl (c2_sector c seam) w else w

/-- The verify passes. -/
def verify_passes (w : Work) : Work :=
  let w := (List.range' 2 (c.passes - 1)).foldl (fun w pass => witness_pass c (.verify pass) w) w
  if c.passes > 1 then { w with k := { w.k with witnessed := true } } else w

/-- A witnessed pass over a chunk that a seam or a C2 flag condemns. -/
def widen (w : Work) (want : Bool) : Work :=
  if want ∧ !w.k.witnessed then
    let w := witness_pass c .widen w
    { w with k := { w.k with witnessed := true } }
  else w

/-- Deliver the chunk held back. -/
def deliver (sink : Nat) (w : Work) : Work × Int :=
  if !w.k.live then (w, 0)
  else
    let (r, rc) := publish c sink w.r w.k
    (⟨r, { w.k with live := false }⟩, rc)

/-- One chunk, from its read to the swap of the slots; a code other than OK leaves the loop. -/
def chunk_step (sink : Nat) (l : Loop) : Loop × Int :=
  let n := if l.remaining < c.chunk then l.remaining else c.chunk
  let ext :=
    if c.overlap ≠ 0 ∧ l.remaining > n then
      if l.remaining - n < c.overlap then l.remaining - n else c.overlap
    else 0
  let cur := chunk_begin l.cur l.lba n
  if c.req.cancel ≠ 0 ∧ c.env.cancel l.r.cmds then ({ l with cur }, ACCUDISC_ERR_CANCELLED)
  else
    let seam : Seam := ⟨l.prev_ext, l.prev_ext_hard, l.prev_ext_n⟩
    let w := qpos_check c (chunk_read c ⟨l.r, cur⟩ ext)
    let (w, seam_bad) := seam_check c seam w
    let w := c2_scan c w
    let hit := c2_hit c w.k
    let w := verify_passes c (c2_rescue_chunk c seam w)
    let c2_trig := decide (c.req.c2_witness ≠ 0) && hit
    let p := widen c ⟨w.r, l.pend⟩ ((seam_bad || c2_trig) && l.pend.live)
    let w := widen c ⟨p.r, w.k⟩ (seam_bad || c2_trig || l.witness_next)
    let (p, rc) := deliver c sink ⟨w.r, p.k⟩
    if rc ≠ 0 then ({ l with r := p.r, cur := w.k, pend := p.k }, ACCUDISC_ERR_CANCELLED)
    else
      ({ r := p.r
         cur := p.k
         pend := { w.k with live := true }
         prev_ext := l.prev_ext.map fun m =>
           if ext ≠ 0 then memcpy m 0 w.k.buf (n * c.sector_len) (ext * c.sector_len) else m
         prev_ext_hard := fun s =>
           if s < ext then w.k.hard (n + s) else l.prev_ext_hard s
         prev_ext_n := ext
         lba := u32 (l.lba + n)
         remaining := l.remaining - n
         witness_next := c2_trig }, ACCUDISC_OK)

/-- The loop, at most `fuel` chunks of it. -/
def chunk_loop (sink : Nat) : Nat → Loop → Loop × Int
  | 0, l => (l, ACCUDISC_OK)
  | fuel + 1, l =>
    if l.remaining = 0 then (l, ACCUDISC_OK)
    else
      let (l, rc) := chunk_step c sink l
      if rc ≠ ACCUDISC_OK then (l, rc) else chunk_loop sink fuel l

end

/-! ## The call -/

def read_sub_len (sub : Nat) : Nat :=
  if sub = ACCUDISC_SUB_RAW then ACCUDISC_BYTES_SUB_RAW
  else if sub = ACCUDISC_SUB_Q then ACCUDISC_BYTES_SUB_Q else 0

def max_chunk (sector_len : Nat) : Nat := min (ADSC_MAX_XFER / sector_len) ADSC_CHUNK_MAX

def read_overlap (q : ReadReq) (max_chunk : Nat) : Nat :=
  let overlap := min q.overlap_sectors.toNat ADSC_OVERLAP_MAX
  if overlap ≥ max_chunk then max_chunk - 1 else overlap

def read_chunk (q : ReadReq) (max_chunk overlap : Nat) : Nat :=
  let chunk := if q.chunk_sectors ≠ 0 then q.chunk_sectors.toNat else max_chunk - overlap
  if chunk > max_chunk - overlap then max_chunk - overlap else chunk

/-- A record has room for its subchannel. -/
theorem sector_len_layout (c2 sub : Nat) :
    adsc_read_cd_sector_len c2 sub = ACCUDISC_BYTES_AUDIO +
      (adsc_read_cd_sector_len c2 sub - ACCUDISC_BYTES_AUDIO - read_sub_len sub) + read_sub_len sub := by
  unfold adsc_read_cd_sector_len read_sub_len
  omega

theorem sector_len_le (c2 sub : Nat) : adsc_read_cd_sector_len c2 sub ≤ 2744 := by
  have hc2 : (if c2 = ACCUDISC_C2_PTRS then ACCUDISC_BYTES_C2
      else if c2 = ACCUDISC_C2_PTRS_BEB then ACCUDISC_BYTES_C2_BEB else 0) ≤ 296 := by
    split
    · decide
    · split <;> decide
  have hsub : (if sub = ACCUDISC_SUB_RAW then ACCUDISC_BYTES_SUB_RAW
      else if sub = ACCUDISC_SUB_Q then ACCUDISC_BYTES_SUB_Q else 0) ≤ 96 := by
    split
    · decide
    · split <;> decide
  exact Nat.add_le_add (Nat.add_le_add (Nat.le_refl 2352) hc2) hsub

/-- A chunk is never empty. -/
theorem read_chunk_pos (q : ReadReq) (c2 sub : Nat) :
    0 < read_chunk q (max_chunk (adsc_read_cd_sector_len c2 sub))
      (read_overlap q (max_chunk (adsc_read_cd_sector_len c2 sub))) := by
  have hmax : 0 < max_chunk (adsc_read_cd_sector_len c2 sub) := by
    have hle := sector_len_le c2 sub
    have hpos : 0 < adsc_read_cd_sector_len c2 sub := by
      unfold adsc_read_cd_sector_len ACCUDISC_BYTES_AUDIO
      omega
    have hdiv : 0 < 65535 / adsc_read_cd_sector_len c2 sub := Nat.div_pos (by omega) hpos
    exact Nat.lt_min.2 ⟨hdiv, by decide⟩
  have hov : read_overlap q (max_chunk (adsc_read_cd_sector_len c2 sub)) <
      max_chunk (adsc_read_cd_sector_len c2 sub) := by
    unfold read_overlap
    simp only
    split <;> omega
  have hchunk : q.chunk_sectors ≠ 0 → 0 < q.chunk_sectors.toNat := fun h =>
    Nat.pos_of_ne_zero fun h0 => h (UInt16.toNat.inj h0)
  unfold read_chunk
  by_cases hc : q.chunk_sectors ≠ 0
  · simp only [if_pos hc]
    have := hchunk hc
    split <;> omega
  · simp only [if_neg hc]
    split <;> omega

/-- The geometry of a request. -/
def read_setup (env : ReadEnv) (q : ReadReq) : Cfg :=
  let sector_len := adsc_read_cd_sector_len q.c2.toNat q.sub.toNat
  let sub_len := read_sub_len q.sub.toNat
  { env, req := q, sector_len, audio_len := ACCUDISC_BYTES_AUDIO
    c2_len := sector_len - ACCUDISC_BYTES_AUDIO - sub_len
    sub_len
    retries := if q.retries ≠ 0 then q.retries.toNat else ADSC_DEFAULT_RETRIES
    overlap := read_overlap q (max_chunk sector_len)
    chunk := read_chunk q (max_chunk sector_len) (read_overlap q (max_chunk sector_len))
    passes := if q.verify_passes.toNat ≥ 2 then q.verify_passes.toNat else 1
    audio_eq := rfl
    layout := sector_len_layout ..
    chunk_pos := read_chunk_pos .. }

namespace Cfg

variable (c : Cfg)

def need_wit : Bool := c.passes > 1 || c.overlap != 0 || c.req.c2_witness != 0

def need_prim : Bool := c.need_wit || c.req.c2_retries != 0

/-- The allocations the call makes. -/
def allocs : List Alloc :=
  [.buf 0, .buf 1, .flush, .scratch, .samples, .context, .anchored] ++
    (if c.need_wit then [.buf2] else []) ++ (if c.overlap ≠ 0 then [.prev_ext] else []) ++
    (if c.need_prim then [.prim 0, .prim 1] else [])

/-- The memory of an allocation. -/
def alloc (a : Alloc) : Mem := (c.env.malloc a).getD fun _ => 0

/-- A slot before its first chunk. -/
def slot (i : Nat) : ChunkState :=
  { live := false, witnessed := false, lba := 0, n := 0, buf := c.alloc (.buf i)
    prim := if c.need_prim then some (c.alloc (.prim i)) else none
    hard := fun _ => false, recov := fun _ => false, susp := fun _ => false
    att := fun _ => 0, bits := fun _ => 0, diffb := fun _ => 0 }

/-- The pass speed, and what the drive made of it. -/
def speed_stats : Stats :=
  if c.req.speed_x = 0 then {}
  else
    { speed_requested_x := c.req.speed_x.toNat
      speed_honoured_x :=
        if c.env.set_speed = ACCUDISC_OK ∧ c.env.get_speed.1 = ACCUDISC_OK then
          c.env.get_speed.2 / 176 % 2 ^ 16 else 0 }

/-- The engine before the first chunk. -/
def start : Rd :=
  { cmds := 0, sense := ⟨false, 0, 0⟩, speed_dirty := false, cur_speed := -1
    flush := c.alloc .flush, scratch := c.alloc .scratch, samples := c.alloc .samples
    context := c.alloc .context, anchored := c.alloc .anchored, buf2 := c.alloc .buf2
    st := c.speed_stats, status_map := c.env.status_map, subq_map := c.env.subq_map
    sinks := 0, log := [] }

def loop_start : Loop :=
  { r := c.start, cur := c.slot 0, pend := c.slot 1
    prev_ext := if c.overlap ≠ 0 then some (c.alloc .prev_ext) else none
    prev_ext_hard := fun _ => false, prev_ext_n := 0
    lba := c.req.lba.toNat, remaining := c.req.count.toNat, witness_next := false }

/-- `want_buf`. -/
def want_buf : Nat :=
  if c.req.buffer_bytes.toNat = ACCUDISC_BUFFER_NONE then 0
  else if c.req.buffer_bytes ≠ 0 then c.req.buffer_bytes.toNat
  else c.env.fifo_bytes_for (if c.req.speed_x ≠ 0 then c.req.speed_x.toNat else 8)

end Cfg

/-- The chunks, and the last one after them. -/
def read_chunks (c : Cfg) (sink : Nat) : Rd × Int :=
  let (l, rc) := chunk_loop c sink c.req.count.toNat c.loop_start
  if rc ≠ ACCUDISC_OK then (l.r, rc)
  else
    let (p, rc) := deliver c sink ⟨l.r, l.pend⟩
    if rc ≠ 0 then (p.r, ACCUDISC_ERR_CANCELLED) else (ladder_restore c p.r, ACCUDISC_OK)

structure ReadOut where
  rc : Int
  r : Rd

/-- The chunks through the ring, when one is wanted. -/
def read_buffered (c : Cfg) (sink : Nat) : ReadOut :=
  if (c.allocs.any fun a => (c.env.malloc a).isNone) then ⟨ACCUDISC_ERR_NOMEM, c.start⟩
  else if sink ≠ 0 ∧ c.want_buf ≠ 0 then
    if c.env.accubuf_start ≠ ACCUDISC_OK then ⟨c.env.accubuf_start, c.start⟩
    else
      let (r, rc) := read_chunks c sink
      { rc := if c.env.accubuf_stop ≠ 0 ∧ rc = ACCUDISC_OK then ACCUDISC_ERR_CANCELLED else rc
        r := { r with st := { r.st with
          buffer_peak_chunks := c.env.peak_count
          buffer_stalls := c.env.stalls } } }
  else
    let (r, rc) := read_chunks c sink
    ⟨rc, r⟩

/-- The call: the code, and the engine it leaves, whose stats are the caller's up to their size. -/
def accudisc_read_cdda (env : ReadEnv) (dev : Nat) (req : Option ReadReq) (sink : Nat)
    (stats_size : Option Nat) : Int × Option ReadOut :=
  match req with
  | none => (ACCUDISC_ERR_INVAL, none)
  | some req =>
    match read_req_import req with
    | .error rc => (rc, none)
    | .ok q =>
      match (stats_size.map read_stats_export).getD (.ok 0) with
      | .error rc => (rc, none)
      | .ok stats_bytes =>
        match read_validate dev q with
        | .error rc => (rc, none)
        | .ok () =>
          let out := read_buffered (read_setup env q) sink
          (out.rc, some { out with r := { out.r with st := { out.r.st with size := stats_bytes } } })

end Accudisc
