import Accudisc.Read.Proof.Cdda

/-!
# What `accudisc_read_cdda` certifies

A published sector that is not suspect is where its Q frame says (`accudisc_read_cdda_placed`, unless a
rescue took a copy that is not), and with verify passes it was witnessed
(`accudisc_read_cdda_verified`). `one_sector_disputed` is a run in which a reread settles the sector.
-/

namespace Accudisc

variable {env : ReadEnv} {dev : Nat} {req q : ReadReq} {sink : Nat} {stats_size : Option Nat} {rc : Int}
  {out : ReadOut}

/-! ## A disputed sector -/

/-- A settlement whose first reread has the audio of the sector, and is no shift of the other copy. -/
theorem consensus_first {c : Cfg} {r : Rd} {p : Pass} {lba off : Nat} {buf alt m : Mem} {refs : List Ref}
    {sense : Sense} (hladder : c.req.ladder_len = 0)
    (hreply : c.env.drive (r.cmds + 1) = ⟨ACCUDISC_OK, m, sense⟩)
    (hagree : adsc_audio_diff m (ptr buf off) = 0) (hshift : adsc_shift_find m alt = none) :
    consensus c p r lba buf off (some alt) false refs =
      let r := (read_scratch c (cache_defeat c (consensus_start c p r lba buf off (some alt)).1 lba)
        (.consensus p) lba).1
      ⟨r.reread.emit (.accept (.consensus p) lba (record c.sector_len r.scratch 0)),
        memcpy buf off r.scratch 0 c.sector_len, 1, true⟩ := by
  have hL := audio_le c
  have hspeed : ∀ r : Rd, ladder_speed c r 1 = r := fun r => if_pos (.inl hladder)
  have hcmds : (cache_defeat c (consensus_start c p r lba buf off (some alt)).1 lba).cmds = r.cmds + 1 :=
    rfl
  have hrc : (read_scratch c (cache_defeat c (consensus_start c p r lba buf off (some alt)).1 lba)
      (.consensus p) lba).2 = ACCUDISC_OK := by
    change (c.env.drive (cache_defeat c (consensus_start c p r lba buf off (some alt)).1 lba).cmds).rc = _
    rw [hcmds, hreply]
  have hscan : consensus_scan c (read_scratch c
      (cache_defeat c (consensus_start c p r lba buf off (some alt)).1 lba) (.consensus p) lba).1.scratch
      (read_scratch c (cache_defeat c (consensus_start c p r lba buf off (some alt)).1 lba)
        (.consensus p) lba).1.samples 2 false = (true, false) := by
    generalize hs : (read_scratch c (cache_defeat c (consensus_start c p r lba buf off (some alt)).1 lba)
      (.consensus p) lba).1.scratch = scratch
    generalize hsm : (read_scratch c (cache_defeat c (consensus_start c p r lba buf off (some alt)).1 lba)
      (.consensus p) lba).1.samples = samples
    have hsamples : samples =
        memcpy (memcpy r.samples 0 buf off c.sector_len) c.sector_len alt 0 c.sector_len := by
      rw [← hsm]
      rfl
    have hscratch : ∀ i < ACCUDISC_BYTES_AUDIO, scratch i = m i := fun i hi => by
      rw [← hs]
      change memcpy _ 0 (c.env.drive (cache_defeat c _ lba).cmds).data 0 (1 * c.sector_len) i = _
      rw [hcmds, hreply, memcpy_in (Nat.zero_le i) (by omega)]
      simp
    have h0 : adsc_audio_diff scratch (ptr samples (0 * c.sector_len)) = 0 := by
      refine (adsc_audio_diff_congr hscratch fun i hi => ?_).trans hagree
      unfold ptr
      rw [hsamples, memcpy_out (by omega), memcpy_in (by omega) (by omega)]
      exact congrArg buf (by omega)
    have h1 : adsc_shift_find scratch (ptr samples (1 * c.sector_len)) = none := by
      refine (adsc_shift_find_congr hscratch fun i hi => ?_).trans hshift
      unfold ptr
      rw [hsamples, memcpy_in (by omega) (by omega)]
      exact congrArg alt (by omega)
    simp only [consensus_scan, List.range_succ, List.range_zero, List.nil_append, List.foldl_append,
      List.foldl_cons, List.foldl_nil, h0, if_true, h1]
    simp
  unfold consensus
  simp only
  rw [show (consensus_start c p r lba buf off (some alt)).2 = 2 from rfl]
  have hloop : consensus_loop c p lba off (List.range' 1 (ADSC_SAMPLES_MAX - 2))
      (consensus_start c p r lba buf off (some alt)).1 buf 2 false 0 =
      ⟨⟨(read_scratch c (cache_defeat c (consensus_start c p r lba buf off (some alt)).1 lba)
        (.consensus p) lba).1.reread.emit (.accept (.consensus p) lba (record c.sector_len (read_scratch c
          (cache_defeat c (consensus_start c p r lba buf off (some alt)).1 lba)
            (.consensus p) lba).1.scratch 0)),
        memcpy buf off (read_scratch c (cache_defeat c (consensus_start c p r lba buf off (some alt)).1 lba)
          (.consensus p) lba).1.scratch 0 c.sector_len, 1, true⟩, false⟩ := by
    change consensus_loop c p lba off (1 :: List.range' 2 3) _ buf 2 false 0 = _
    unfold consensus_loop
    simp only [hspeed, hrc, hscan]
    simp
  rw [hloop]
  rfl

/-- A witnessed pass over a sector whose second transfer differs, and whose first reread agrees. -/
theorem witness_sector_first {c : Cfg} {p : Pass} {sp : Span} {w : Work} {m : Mem} {sense : Sense}
    (hladder : c.req.ladder_len = 0) (hc2 : c.c2_len = 0) (hh : w.k.hard 0 = false)
    (hs : w.k.susp 0 = false) (hsp : sp.hard 0 = false) (hlba : w.k.lba < 2 ^ 32)
    (hreply : c.env.drive (w.r.cmds + 1) = ⟨ACCUDISC_OK, m, sense⟩)
    (hdiff : adsc_audio_diff w.k.buf sp.buf ≠ 0) (hshift : adsc_shift_find w.k.buf sp.buf = none)
    (hagree : adsc_audio_diff m w.k.buf = 0) (hshift' : adsc_shift_find m sp.buf = none) :
    ∃ r d t, witness_sector c p sp w 0 =
        settle { w with k := { w.k with diffb := Function.update w.k.diffb 0 d } } 0
          ⟨r, memcpy w.k.buf 0 r.scratch 0 c.sector_len, 1, true⟩ ∧
      record c.sector_len r.scratch 0 = record c.sector_len m 0 ∧ t.stage = .flush ∧
      r.log = w.r.log ++ [.dispute p w.k.lba (record c.sector_len w.k.buf 0)
          (some (record c.sector_len sp.buf 0)), .transfer t,
        .transfer ⟨.consensus p, w.k.lba, 1, c.sector_len, ACCUDISC_OK, m⟩,
        .accept (.consensus p) w.k.lba (record c.sector_len m 0)] ∧ Silent w.r r := by
  have hu : u32 (w.k.lba + 0) = w.k.lba := u32_of_lt hlba
  have hagree' : adsc_audio_diff m (ptr w.k.buf 0) = 0 := (ptr_zero w.k.buf).symm ▸ hagree
  have hcons := @consensus_first c w.r p w.k.lba 0 w.k.buf sp.buf m
    [⟨w.k.lba, w.k.n, w.k.prim, w.k.hard⟩, ⟨w.k.lba, w.k.n, some sp.buf, sp.hard⟩] sense hladder hreply
    hagree' hshift'
  generalize hr : (read_scratch c (cache_defeat c
    (consensus_start c p w.r w.k.lba w.k.buf 0 (some sp.buf)).1 w.k.lba)
      (.consensus p) w.k.lba).1 = r at hcons
  have hdata : (c.env.drive (w.r.cmds + 1)).data = m := by rw [hreply]
  have hrc : (c.env.drive (w.r.cmds + 1)).rc = ACCUDISC_OK := by rw [hreply]
  have hrec : record c.sector_len r.scratch 0 = record c.sector_len m 0 := by
    refine record_congr fun i hi => ?_
    rw [← hr]
    change memcpy _ 0 (c.env.drive (w.r.cmds + 1)).data 0 (1 * c.sector_len) _ = _
    rw [hdata, memcpy_in (Nat.zero_le _) (by omega)]
    exact congrArg m (by omega)
  have hlog : ∃ t : Transfer, t.stage = .flush ∧ r.log = w.r.log ++ [.dispute p w.k.lba
      (record c.sector_len (ptr w.k.buf 0) 0) (some (record c.sector_len sp.buf 0))] ++ [.transfer t] ++
      [.transfer ⟨.consensus p, w.k.lba, 1, c.sector_len, (c.env.drive (w.r.cmds + 1)).rc,
        (c.env.drive (w.r.cmds + 1)).data⟩] := by
    rw [← hr]
    exact ⟨_, rfl, rfl⟩
  obtain ⟨t, ht, hlog⟩ := hlog
  rw [hdata, hrc, ptr_zero] at hlog
  refine ⟨r.reread.emit (.accept (.consensus p) w.k.lba (record c.sector_len r.scratch 0)),
    adsc_audio_diff w.k.buf sp.buf, t, ?_, hrec, ht, ?_, ?_⟩
  · unfold witness_sector
    simp only [hh, hs, hsp, Nat.zero_mul, ptr_zero]
    simp only [Bool.false_eq_true, or_self, if_false, hdiff, and_false, Bool.not_false,
      Bool.true_and, hshift,
      Option.isSome_none, hc2]
    rw [hu, hcons]
    simp only [ne_eq, not_true_eq_false, and_false, if_false]
    rfl
  · simp [Rd.emit, Rd.reread, hlog, hrec]
  · refine ⟨⟨⟨[.dispute p w.k.lba (record c.sector_len w.k.buf 0) (some (record c.sector_len sp.buf 0)),
      .transfer t, .transfer ⟨.consensus p, w.k.lba, 1, c.sector_len, ACCUDISC_OK, m⟩,
      .accept (.consensus p) w.k.lba (record c.sector_len r.scratch 0)], ?_, ?_⟩, ?_, ?_, ?_⟩, ?_⟩
    · simp [Rd.emit, Rd.reread, hlog]
    · simp [ReadEvent.own]
    all_goals
      rw [← hr]
      rfl


/-- A span that its first transfer reads. -/
theorem read_span_first {c : Cfg} {r : Rd} {stage : Stage} {lba total primary : Nat} {buf : Mem}
    (h : (c.env.drive r.cmds).rc = ACCUDISC_OK) :
    read_span c r stage lba total buf primary = ⟨(read_cd c r stage lba total c.sector_len buf 0).r,
      memcpy buf 0 (c.env.drive r.cmds).data 0 (total * c.sector_len), fun _ => false⟩ := if_pos h

/-- A run of the request in which the second transfer differs, and the first reread is delivered as a
recovered sector. -/
structure Disputed (d : Nat → Mem) (out : ReadOut) (t t' : Transfer) (rest : List ReadEvent) : Prop where
  run : accudisc_read_cdda (answering d) 1 (some (one_sector 1 2)) 1 none = (ACCUDISC_OK, some out)
  log : out.r.log = [.transfer ⟨.stream, 0, 1, 2448, ACCUDISC_OK, d 0⟩, .transfer t,
    .transfer ⟨.witness (.verify 2), 0, 1, 2448, ACCUDISC_OK, d 2⟩,
    .dispute (.verify 2) 0 (record 2448 (d 0) 0) (some (record 2448 (d 2) 0)), .transfer t',
    .transfer ⟨.consensus (.verify 2), 0, 1, 2448, ACCUDISC_OK, d 4⟩,
    .accept (.consensus (.verify 2)) 0 (record 2448 (d 4) 0),
    .publish 0 0x14 (record 2448 (d 4) 0)] ++ rest
  flush : t.stage = .flush
  flush' : t'.stage = .flush
  nothing : pubs rest = []
  own : ∀ e ∈ rest, e.own = false

section
variable {d : Nat → Mem} {c : Cfg} {w : Work}

/-- The sector has been read, and nothing else has happened. -/
structure ReadOnce (d : Nat → Mem) (w : Work) : Prop where
  buf : ∀ i < 2448, w.k.buf i = d 0 i
  n : w.k.n = 1
  lba : w.k.lba = 0
  hard : w.k.hard 0 = false
  susp : w.k.susp 0 = false
  att : w.k.att 0 = 0
  dirty : w.r.speed_dirty = false
  cmds : w.r.cmds = 1
  log : w.r.log = [.transfer ⟨.stream, 0, 1, 2448, ACCUDISC_OK, d 0⟩]

/-- The sector has been settled by its first reread. -/
structure SettledOnce (d : Nat → Mem) (t t' : Transfer) (w : Work) : Prop where
  record : record 2448 w.k.buf 0 = record 2448 (d 4) 0
  n : w.k.n = 1
  lba : w.k.lba = 0
  hard : w.k.hard 0 = false
  susp : w.k.susp 0 = false
  recov : w.k.recov 0 = true
  att : w.k.att 0 = 1
  flush : t.stage = .flush
  flush' : t'.stage = .flush
  log : w.r.log = [.transfer ⟨.stream, 0, 1, 2448, ACCUDISC_OK, d 0⟩, .transfer t,
    .transfer ⟨.witness (.verify 2), 0, 1, 2448, ACCUDISC_OK, d 2⟩,
    .dispute (.verify 2) 0 (Accudisc.record 2448 (d 0) 0) (some (Accudisc.record 2448 (d 2) 0)),
      .transfer t',
    .transfer ⟨.consensus (.verify 2), 0, 1, 2448, ACCUDISC_OK, d 4⟩,
    .accept (.consensus (.verify 2)) 0 (Accudisc.record 2448 (d 4) 0)]

variable (hc : c = read_setup (answering d) (one_sector 1 2))
include hc

theorem answering_rc (i : Nat) : (c.env.drive i).rc = ACCUDISC_OK := by
  rw [hc]
  rfl

theorem answering_data (i : Nat) : (c.env.drive i).data = d i := by
  rw [hc]
  rfl

theorem one_sector_len : c.sector_len = 2448 := by
  rw [hc]
  rfl

theorem one_sector_read : ReadOnce d (chunk_read c ⟨c.start, chunk_begin (c.slot 0) 0 1⟩ 0) := by
  unfold chunk_read
  rw [read_span_first (answering_rc hc _), one_sector_len hc, answering_data hc]
  refine ⟨fun i hi => ?_, rfl, rfl, rfl, rfl, rfl, rfl, rfl, by rw [hc]; rfl⟩
  simp only [chunk_begin, Nat.add_zero, Nat.one_mul]
  rw [memcpy_in (Nat.zero_le i) (by omega)]
  exact congrArg (d 0) (by omega)

/-- Without a valid frame no sector names another LBA, and the check does nothing. -/
theorem one_sector_check (hq : (sub_q (ptr (d 0) 2352)).crc_ok = false) (h : ReadOnce d w) :
    ReadOnce d (qpos_check c w) := by
  have hqbad : qbad c w.k 0 = false := by
    have hsame : record_q c w.k.buf (0 * c.sector_len) = sub_q (ptr (d 0) 2352) := by
      refine sub_q_congr fun i hi => ?_
      have ha : c.audio_len = 2352 := by rw [hc]; rfl
      have hc2 : c.c2_len = 0 := by rw [hc]; rfl
      have hi' : i < 96 := hi
      unfold ptr
      rw [h.buf _ (by omega)]
      exact congrArg (d 0) (by omega)
    unfold qbad misplaced
    rw [hsame, hq]
    simp
  have hsus : qsus c w.k 0 = false := by
    unfold qsus
    rw [h.n]
    simp [hqbad]
  have hsub : c.sub_len = ACCUDISC_BYTES_SUB_RAW := by rw [hc]; rfl
  unfold qpos_check
  rw [if_pos hsub]
  simp only [h.n]
  change ReadOnce d (qpos_sector c (qsus c w.k) _ 0)
  unfold qpos_sector
  rw [if_pos (.inl (by rw [hsus]; rfl))]
  exact ⟨h.buf, h.n, h.lba, h.hard, h.susp, h.att, h.dirty, h.cmds, h.log⟩

/-- The witnessed pass settles the sector. -/
theorem one_sector_verify (h : ReadOnce d w)
    (hdiff : adsc_audio_diff (d 0) (d 2) ≠ 0) (hshift : adsc_shift_find (d 0) (d 2) = none)
    (hagree : adsc_audio_diff (d 4) (d 0) = 0) (hshift' : adsc_shift_find (d 4) (d 2) = none) :
    ∃ t t', SettledOnce d t t' (verify_passes c w) := by
  have hL := one_sector_len hc
  obtain ⟨r₂, hr₂⟩ : ∃ r₂, r₂ = cache_defeat c (ladder_restore c w.r) w.k.lba := ⟨_, rfl⟩
  have hrest : ladder_restore c w.r = w.r := by
    unfold ladder_restore
    rw [h.dirty]
    rfl
  obtain ⟨tf, hfl, hft⟩ : ∃ t : Transfer, r₂.log = w.r.log ++ [.transfer t] ∧ t.stage = .flush := by
    rw [hr₂, hrest]
    exact ⟨_, rfl, rfl⟩
  have hr₂c : r₂.cmds = 2 := by
    rw [hr₂, hrest]
    change w.r.cmds + 1 = 2
    rw [h.cmds]
  obtain ⟨x, hx⟩ : ∃ x : Xfer, x = read_cd c r₂ (.witness (.verify 2)) 0 1 2448 r₂.buf2 0 := ⟨_, rfl⟩
  obtain ⟨buf₂, hbuf₂⟩ : ∃ b, b = memcpy r₂.buf2 0 (d 2) 0 2448 := ⟨_, rfl⟩
  have hwit : witness_pass c (.verify 2) w = witness_sector c (.verify 2) ⟨x.r, buf₂, fun _ => false⟩
      ⟨{ x.r with buf2 := buf₂ }, w.k⟩ 0 := by
    unfold witness_pass
    simp only [← hr₂]
    rw [read_span_first (answering_rc hc _), h.n, h.lba, hL, answering_data hc, hr₂c, hbuf₂, hx]
    simp only [Nat.one_mul]
    rfl
  have hxlog : x.r.log = [.transfer ⟨.stream, 0, 1, 2448, ACCUDISC_OK, d 0⟩, .transfer tf,
      .transfer ⟨.witness (.verify 2), 0, 1, 2448, ACCUDISC_OK, d 2⟩] := by
    rw [hx, read_cd_log, hfl, h.log]
    unfold answer
    rw [answering_rc hc, answering_data hc, hr₂c]
    rfl
  have hxc : x.r.cmds = 3 := by
    rw [hx]
    change r₂.cmds + 1 = 3
    rw [hr₂c]
  have hsp : ∀ i < 2352, buf₂ i = d 2 i := fun i hi => by
    rw [hbuf₂, memcpy_in (Nat.zero_le i) (by omega)]
    exact congrArg (d 2) (by omega)
  have hk : ∀ i < 2352, w.k.buf i = d 0 i := fun i hi => h.buf i (by omega)
  obtain ⟨r₃, df, t', hsec, hrec, ht', hlog, -⟩ := @witness_sector_first c (.verify 2)
    ⟨x.r, buf₂, fun _ => false⟩ ⟨{ x.r with buf2 := buf₂ }, w.k⟩ (d 4) ⟨false, 0, 0⟩
    (by rw [hc]; rfl) (by rw [hc]; rfl) h.hard h.susp rfl (by rw [h.lba]; decide)
    (by rw [hc]; change (⟨ACCUDISC_OK, d (x.r.cmds + 1), ⟨false, 0, 0⟩⟩ : Reply) = _; rw [hxc])
    (by rw [adsc_audio_diff_congr hk hsp]; exact hdiff)
    (by rw [adsc_shift_find_congr hk hsp]; exact hshift)
    (by rw [adsc_audio_diff_congr (fun _ _ => rfl) hk]; exact hagree)
    (by rw [adsc_shift_find_congr (fun _ _ => rfl) hsp]; exact hshift')
  have hp : c.passes = 2 := by rw [hc]; rfl
  have hverify : verify_passes c w = { witness_pass c (.verify 2) w with
      k := { (witness_pass c (.verify 2) w).k with witnessed := true } } := by
    unfold verify_passes
    rw [hp]
    rfl
  have hrec₀ : record 2448 w.k.buf 0 = record 2448 (d 0) 0 :=
    record_congr fun i hi => by simpa using h.buf i hi
  have hrec₂ : record 2448 buf₂ 0 = record 2448 (d 2) 0 := by
    refine record_congr fun i hi => ?_
    rw [hbuf₂, memcpy_in (Nat.zero_le _) (by omega)]
    exact congrArg (d 2) (by omega)
  have hmoved := record_memcpy_one (L := c.sector_len) w.k.buf r₃.scratch 0 0 0
  rw [Nat.zero_mul, if_pos rfl, hrec, hL] at hmoved
  rw [hverify, hwit, hsec, hL]
  simp only [h.lba, hxlog, hL, hrec₀, hrec₂] at hlog
  refine ⟨tf, t', hmoved, h.n, h.lba, h.hard, h.susp, rfl, ?_, hft, ht', hlog⟩
  change u32 (w.k.att 0 + 1) = 1
  rw [h.att]
  rfl

/-- The chunk is settled, with a seam and C2 flags there are none of. -/
theorem one_sector_settle (hq : (sub_q (ptr (d 0) 2352)).crc_ok = false)
    (hdiff : adsc_audio_diff (d 0) (d 2) ≠ 0) (hshift : adsc_shift_find (d 0) (d 2) = none)
    (hagree : adsc_audio_diff (d 4) (d 0) = 0) (hshift' : adsc_shift_find (d 4) (d 2) = none) :
    ∃ w t t', chunk_settle c ⟨none, fun _ => false, 0⟩ ⟨c.start, chunk_begin (c.slot 0) 0 1⟩ 0 =
      (w, false, false) ∧ SettledOnce d t t' w := by
  have hcheck := one_sector_check hc hq (one_sector_read hc)
  obtain ⟨t, t', hsettled⟩ := one_sector_verify hc hcheck hdiff hshift hagree hshift'
  refine ⟨_, t, t', ?_, hsettled⟩
  have hc2 : c.c2_len = 0 := by rw [hc]; rfl
  unfold chunk_settle
  generalize qpos_check c (chunk_read c ⟨c.start, chunk_begin (c.slot 0) 0 1⟩ 0) = w
  change (verify_passes c (c2_rescue_chunk c ⟨none, fun _ => false, 0⟩ (c2_scan c w)), false,
    c2_hit c (c2_scan c w).k) = _
  have hscan : c2_scan c w = w := if_neg fun h => h hc2
  have hresc : c2_rescue_chunk c ⟨none, fun _ => false, 0⟩ w = w := if_neg fun h => h.2 hc2
  have hhit : c2_hit c w.k = false := by
    unfold c2_hit
    simp [hc2]
  rw [hscan, hresc, hhit]

/-- The one turn of the loop holds the chunk back. -/
theorem one_sector_step {w : Work}
    (h : chunk_settle c ⟨none, fun _ => false, 0⟩ ⟨c.start, chunk_begin (c.slot 0) 0 1⟩ 0 =
      (w, false, false)) :
    ∃ l, chunk_step c 1 c.loop_start = (l, ACCUDISC_OK) ∧ l.r = w.r ∧
      l.pend = { w.k with live := true } := by
  have h₁ : (if c.loop_start.remaining < c.chunk then c.loop_start.remaining else c.chunk) = 1 := by
    rw [hc]
    rfl
  have h₂ : c.overlap = 0 := by rw [hc]; rfl
  have h₃ : c.req.cancel = 0 := by rw [hc]; rfl
  have h₄ : c.req.c2_witness = 0 := by rw [hc]; rfl
  have h₅ : c.loop_start = ⟨c.start, c.slot 0, c.slot 1, none, fun _ => false, 0, 0, 1, false⟩ := by
    rw [hc]
    rfl
  have hwid : ∀ w : Work, widen c w false = w := fun w => if_neg fun h => by simp at h
  have hdel : deliver c 1 ⟨w.r, c.slot 1⟩ = (⟨w.r, c.slot 1⟩, 0) := rfl
  rw [chunk_step_eq]
  unfold Loop.turn
  simp only [h₁, h₂, h₃, h₄]
  simp only [h₅, ne_eq, not_true_eq_false, false_and, if_false]
  rw [h]
  simp only [decide_false, Bool.false_and, Bool.or_self, hwid]
  rw [hdel]
  exact ⟨_, rfl, rfl, rfl⟩

/-- The sector is published recovered, after one reread, and handed over. -/
theorem one_sector_publish {t t' : Transfer} (h : SettledOnce d t t' w) :
    ∃ rest, (publish c 1 w.r { w.k with live := true }).1.log =
        w.r.log ++ .publish 0 0x14 (record 2448 (d 4) 0) :: rest ∧
      (publish c 1 w.r { w.k with live := true }).2 = 0 ∧ pubs rest = [] ∧ ∀ e ∈ rest, e.own = false := by
  obtain ⟨k, hk⟩ : ∃ k : ChunkState, k = { w.k with live := true } := ⟨_, rfl⟩
  rw [← hk]
  have hn : k.n = 1 := by rw [hk]; exact h.n
  have hhard : k.hard 0 = false := by rw [hk]; exact h.hard
  have hlba : u32 (k.lba + 0) = 0 := by
    rw [hk]
    change u32 (w.k.lba + 0) = 0
    rw [h.lba]
    rfl
  have hstatus : sector_status k 0 = 0x14 := by
    unfold sector_status
    rw [hhard, hk, h.susp, h.recov, h.att]
    rfl
  have hrec : record c.sector_len k.buf 0 = record 2448 (d 4) 0 := by
    rw [one_sector_len hc, hk]
    exact h.record
  have hsub : c.sub_len = ACCUDISC_BYTES_SUB_RAW := by rw [hc]; rfl
  have hm : c.req.status_map ≠ 0 := by rw [hc]; exact (show ¬(1 : UInt64) = 0 by decide)
  have hq' : c.req.subq_map ≠ 0 := by rw [hc]; exact (show ¬(2 : UInt64) = 0 by decide)
  refine ⟨[.subq (sub32 0 c.req.lba.toNat) (adsc_subq_byte (record_q c k.buf (0 * c.sector_len)) 0),
    .status (sub32 0 c.req.lba.toNat) 0x14, .sink (chunk_out c k) k.buf], ?_, ?_, rfl, by
      simp [ReadEvent.own]⟩
  · unfold publish
    rw [hn]
    change (publish_sector c k w.r 0).log ++ [_] = _
    unfold publish_sector
    simp only [hlba, hstatus, hrec, hhard, if_pos hsub]
    simp only [publish_subq, store_subq_eq, store_status_eq, if_neg hm, if_neg hq', Bool.false_eq_true,
      if_false]
    simp [Rd.emit]
  · unfold publish
    change c.env.sink _ = 0
    rw [hc]
    rfl

/-- One chunk, and the delivery behind the loop. -/
theorem one_sector_chunks {l : Loop} (hstep : chunk_step c 1 c.loop_start = (l, ACCUDISC_OK))
    (hr : l.r = w.r)
    (hpend : l.pend = { w.k with live := true })
    (hsink : (publish c 1 w.r { w.k with live := true }).2 = 0) :
    read_chunks c 1 = (ladder_restore c (publish c 1 w.r { w.k with live := true }).1, ACCUDISC_OK) := by
  have hcount : c.req.count.toNat = 1 := by rw [hc]; rfl
  have hloop : chunk_loop c 1 1 c.loop_start = (l, ACCUDISC_OK) := by
    unfold chunk_loop
    rw [if_neg (by rw [hc]; exact (show ¬1 = 0 by decide)), hstep]
    rfl
  have hdel : (deliver c 1 ⟨l.r, l.pend⟩).1.r = (publish c 1 w.r { w.k with live := true }).1 ∧
      (deliver c 1 ⟨l.r, l.pend⟩).2 = 0 := by
    rw [hr, hpend]
    exact ⟨rfl, hsink⟩
  unfold read_chunks
  rw [hcount, hloop]
  simp only [ne_eq, not_true_eq_false, if_false, hdel]

end

/-- **A disputed sector**: the second transfer differs, the first reread agrees, and the sector is
delivered recovered, as that reread had it. -/
theorem one_sector_disputed {d : Nat → Mem} (hq : (sub_q (ptr (d 0) 2352)).crc_ok = false)
    (hdiff : adsc_audio_diff (d 0) (d 2) ≠ 0) (hshift : adsc_shift_find (d 0) (d 2) = none)
    (hagree : adsc_audio_diff (d 4) (d 0) = 0) (hshift' : adsc_shift_find (d 4) (d 2) = none) :
    ∃ out t t' rest, Disputed d out t t' rest := by
  obtain ⟨c, hc⟩ : ∃ c, c = read_setup (answering d) (one_sector 1 2) := ⟨_, rfl⟩
  obtain ⟨w, t, t', hsettle, hw⟩ := one_sector_settle hc hq hdiff hshift hagree hshift'
  obtain ⟨l, hstep, hr, hpend⟩ := one_sector_step hc hsettle
  obtain ⟨rest, hlog, hsink, hnothing, hown⟩ := one_sector_publish hc hw
  have hbuffered : read_buffered c 1 =
      ⟨ACCUDISC_OK, ladder_restore c (publish c 1 w.r { w.k with live := true }).1⟩ := by
    unfold read_buffered
    rw [if_neg (by rw [hc]; exact (show ¬false = true by decide)),
      if_neg (by rw [hc]; exact fun h => h.2 rfl), one_sector_chunks hc hstep hr hpend hsink]
  have hrun : accudisc_read_cdda (answering d) 1 (some (one_sector 1 2)) 1 none =
      (ACCUDISC_OK, some { read_buffered c 1 with
        r := { (read_buffered c 1).r with st := { (read_buffered c 1).r.st with size := 0 } } }) := by
    have himp : read_req_import (one_sector 1 2) = .ok (one_sector 1 2) := rfl
    have hval : read_validate 1 (one_sector 1 2) = .ok () := rfl
    unfold accudisc_read_cdda
    simp only [himp, hval, ← hc, hbuffered]
    rfl
  refine ⟨_, t, t', rest, hrun, ?_, hw.flush, hw.flush', hnothing, hown⟩
  have hidle := ladder_restore_idle (c := c) (r := (publish c 1 w.r { w.k with live := true }).1)
  change (read_buffered c 1).r.log = _
  rw [hbuffered]
  exact hidle.same_log.trans (by rw [hlog, hw.log]; rfl)

/-- The engine's own events of such a run. -/
theorem Disputed.own_mem {d : Nat → Mem} {out : ReadOut} {t t' : Transfer} {rest : List ReadEvent}
    (h : Disputed d out t t' rest) : ∀ e ∈ out.r.log, e.own = true →
      e = .transfer ⟨.stream, 0, 1, 2448, ACCUDISC_OK, d 0⟩ ∨ e = .transfer t ∨
      e = .transfer ⟨.witness (.verify 2), 0, 1, 2448, ACCUDISC_OK, d 2⟩ ∨
      e = .dispute (.verify 2) 0 (record 2448 (d 0) 0) (some (record 2448 (d 2) 0)) ∨
      e = .transfer t' ∨ e = .transfer ⟨.consensus (.verify 2), 0, 1, 2448, ACCUDISC_OK, d 4⟩ ∨
      e = .accept (.consensus (.verify 2)) 0 (record 2448 (d 4) 0) := by
  intro e he ho
  rw [h.log] at he
  simp only [List.cons_append, List.nil_append, List.mem_cons] at he
  rcases he with he | he | he | he | he | he | he | he | he
  all_goals first | simp [he] | skip
  · rw [he] at ho
    cases ho
  · rw [h.own e he] at ho
    cases ho

/-- Every answer to a reread of such a run is that of the settlement. -/
theorem Disputed.reread {d : Nat → Mem} {out : ReadOut} {t t' u : Transfer} {rest : List ReadEvent}
    (h : Disputed d out t t' rest) (hu : .transfer u ∈ out.r.log) (hst : u.stage ≠ .flush)
    (hch : ¬u.stage.Chunk) : u = ⟨.consensus (.verify 2), 0, 1, 2448, ACCUDISC_OK, d 4⟩ := by
  have hmem := h.own_mem _ hu rfl
  simp only [ReadEvent.transfer.injEq, reduceCtorEq, false_or, or_false] at hmem
  rcases hmem with rfl | rfl | rfl | rfl | rfl
  · exact absurd (.inl rfl) hch
  · exact absurd h.flush hst
  · exact absurd (.inr ⟨_, rfl⟩) hch
  · exact absurd h.flush' hst
  · rfl

/-! ## Position -/

/-- A zero-filled sector names no position. -/
theorem synthetic_misplaced (c : Cfg) (lba : Nat) :
    misplaced (record_q c (synthetic c) 0) lba = false := by
  have hz : record_q c (synthetic c) 0 = sub_q fun _ => 0 := sub_q_congr fun i hi => by
    unfold ptr synthetic
    rw [if_neg (by omega)]
  have hcrc : (sub_q fun _ => 0).crc_ok = false := by decide +kernel
  unfold misplaced
  rw [hz, hcrc]
  rfl

section
variable (hq : read_req_import req = .ok q)
  (h : accudisc_read_cdda env dev (some req) sink stats_size = (rc, some out))
include hq h

/-- **Position**: in a run where no reread comes back with another LBA's frame and what a rescue asks of a
copy, a published sector that names another LBA is suspect. -/
theorem accudisc_read_cdda_placed (hsub : q.sub.toNat = ACCUDISC_SUB_RAW)
    (hfine : Fine (read_setup env q) (wire out.r.log)) :
    ∀ i p, (pubs out.r.log)[i]? = some p →
      (misplaced (record_q (read_setup env q) p.data 0) p.lba = true →
        map_state p.status = ACCUDISC_MAP_SUSPECT) ∧
      (q.subq_map ≠ 0 → out.r.subq_map i = ACCUDISC_SUBQ_MISPOSITION →
        map_state p.status = ACCUDISC_MAP_SUSPECT) := by
  obtain ⟨-, hrun, -⟩ := read_cdda_run hq h
  have hlen : (read_setup env q).sub_len = ACCUDISC_BYTES_SUB_RAW := by
    change read_sub_len q.sub.toNat = _
    rw [hsub]
    rfl
  intro i p hi
  obtain ⟨x, hs, hd, hheld, -, -⟩ := hrun.proven p (List.mem_of_getElem? hi)
  have hplaced : misplaced (record_q (read_setup env q) p.data 0) p.lba = true →
      map_state p.status = ACCUDISC_MAP_SUSPECT := fun hm => by
    rw [hs, x.state_suspect]
    cases hx : x.hard with
    | true =>
      rw [hd, hheld.sound.filled hx, synthetic_misplaced] at hm
      cases hm
    | false => exact ⟨rfl, hheld.placed hlen hfine hx (hd ▸ hm)⟩
  refine ⟨hplaced, fun hq' hmap => hplaced ?_⟩
  rw [hrun.books.subq_map hq' hlen i p hi] at hmap
  unfold Pub.subq at hmap
  split at hmap
  · exact absurd hmap (by decide)
  unfold adsc_subq_byte at hmap
  unfold misplaced
  split at hmap
  · exact absurd hmap (by decide)
  split at hmap
  · exact absurd hmap (by decide)
  split at hmap
  · simp_all
  · exact absurd hmap (by decide)

end

/-- A Q frame, as raw subcode. -/
def raw_frame (q : List (BitVec 8)) : Mem := fun i =>
  if (q.getD (i / 8) 0).getLsbD (7 - i % 8) then 0x40 else 0

/-- The frames at 00:00:00 and at 00:02:00. -/
def frame_zero : Mem := raw_frame [0x01, 0, 0, 0, 0, 0, 0, 0, 0, 0, 0x90, 0xba]
def frame_two : Mem := raw_frame [0x01, 0, 0, 0, 0, 0, 0, 0, 0x02, 0, 0xf6, 0xd8]

/-- A drive whose fifth answer has the audio of the first, and the frame. -/
def slipped (frame : Mem) (i : Nat) : Mem := fun a =>
  if i = 2 ∧ a = 0 then 1 else if i = 4 ∧ 2352 ≤ a then frame (a - 2352) else 0

/-- A drive whose every answer has the frame at 00:00:00. -/
def lost (_ : Nat) : Mem := fun a => if 2352 ≤ a then frame_zero (a - 2352) else 0

theorem shift_find_silence (b : Mem) : adsc_shift_find (fun _ => 0) b = none := by
  unfold adsc_shift_find
  rw [if_pos (by simp [ptr])]

section
variable (frame : Mem)

theorem slipped_silent : ∀ i < ACCUDISC_BYTES_AUDIO, slipped frame 4 i = 0 := fun i hi => by
  have : ¬2352 ≤ i := Nat.not_le.2 hi
  simp [slipped, this]

/-- The sector is disputed. -/
theorem slipped_run : ∃ out t t' rest, Disputed (slipped frame) out t t' rest := by
  have hzero : slipped frame 0 = fun _ => 0 := by
    funext a
    simp [slipped]
  exact @one_sector_disputed (slipped frame)
    (by rw [hzero]; decide +kernel)
    (fun h => absurd (adsc_audio_diff_eq_zero.1 h 0 (by decide)) (by simp [slipped]))
    (by rw [hzero]; exact shift_find_silence _)
    (adsc_audio_diff_eq_zero.2 fun i hi => by rw [slipped_silent frame i hi, hzero])
    (by rw [adsc_shift_find_congr (slipped_silent frame) fun _ _ => rfl]; exact shift_find_silence _)

theorem slipped_frame : record_q (read_setup (answering (slipped frame)) (one_sector 1 2))
    (record 2448 (slipped frame 4) 0) 0 = sub_q frame := sub_q_congr fun i hi => by
  have hi' : i < 96 := hi
  change record 2448 (slipped frame 4) 0 (0 + 2352 + 0 + i) = _
  rw [record_lt (by omega)]
  have h2 : 2352 ≤ 0 * 2448 + (0 + 2352 + 0 + i) := by omega
  simp only [slipped]
  rw [if_neg (by omega), if_pos ⟨trivial, h2⟩]
  exact congrArg frame (by omega)

end

/-- A settlement of one sector by a reread in its place: no answer is out of it. -/
theorem Disputed.fine {d : Nat → Mem} {out : ReadOut} {t t' : Transfer} {rest : List ReadEvent}
    (h : Disputed d out t t' rest)
    (hplace : misplaced (record_q (read_setup (answering d) (one_sector 1 2)) (record 2448 (d 4) 0) 0) 0 =
      false) :
    Fine (read_setup (answering d) (one_sector 1 2)) (wire out.r.log) := by
  refine ⟨fun p lba x hx => ?_, fun p lba x hx => ?_, fun lba x hx => ?_⟩
  · obtain ⟨pre, post, hl, -, u, hu, -, hst, k, hk, rfl, rfl⟩ := hx
    have hu : .transfer u ∈ out.r.log := mem_wire.1 (hl ▸ List.mem_append_right pre hu)
    obtain rfl := h.reread hu (by rw [hst]; simp) (by rw [hst]; simp [Stage.Chunk])
    obtain rfl : k = 0 := by simpa using hk
    exact hplace
  · obtain ⟨u, u', hs, ⟨-, hst, -⟩, -⟩ := hx
    have hu : .transfer u ∈ out.r.log := mem_wire.1 (hs.subset (List.mem_cons_self ..))
    rw [h.reread hu (by rw [hst]; simp) (by rw [hst]; simp [Stage.Chunk])] at hst
    cases hst
  · obtain ⟨⟨u, hu, -, hst, -⟩, -⟩ := hx
    rw [h.reread (mem_wire.1 hu) (by rw [hst]; simp) (by rw [hst]; simp [Stage.Chunk])] at hst
    cases hst

/-- A read of the pass over the disc, or of where the drive is. -/
def first_read : ReadEvent → Bool
  | .transfer t => t.stage = .stream ∨ t.stage = .flush ∨ t.stage = .qpos
  | _ => true

/-- A reread in its place with a valid frame, which is delivered; and a sector that every read finds
elsewhere, which is suspect. -/
theorem accudisc_read_cdda_placed_one : (∃ out p,
    accudisc_read_cdda (answering (slipped frame_two)) 1 (some (one_sector 1 2)) 1 none =
      (ACCUDISC_OK, some out) ∧
      .accept (.consensus (.verify 2)) 0 p.data ∈ out.r.log ∧ (pubs out.r.log)[0]? = some p ∧
      map_state p.status = ACCUDISC_MAP_RECOVERED ∧
      (record_q (read_setup (answering (slipped frame_two)) (one_sector 1 2)) p.data 0).crc_ok = true ∧
      out.r.subq_map 0 ≠ ACCUDISC_SUBQ_MISPOSITION) ∧
    ∃ out p, accudisc_read_cdda (answering lost) 1 (some (one_sector 1 0)) 1 none =
      (ACCUDISC_OK, some out) ∧
      (pubs out.r.log)[0]? = some p ∧
      misplaced (record_q (read_setup (answering lost) (one_sector 1 0)) p.data 0) p.lba = true ∧
      map_state p.status = ACCUDISC_MAP_SUSPECT := by
  refine ⟨?_, ?_⟩
  · obtain ⟨out, t, t', rest, hd⟩ := slipped_run frame_two
    have hframe := slipped_frame frame_two
    have hplace : misplaced (record_q (read_setup (answering (slipped frame_two)) (one_sector 1 2))
        (record 2448 (slipped frame_two 4) 0) 0) 0 = false := by
      rw [hframe]
      decide +kernel
    have hpubs : (pubs out.r.log)[0]? = some ⟨0, 0x14, record 2448 (slipped frame_two 4) 0⟩ := by
      rw [hd.log, pubs_append, hd.nothing]
      rfl
    have h := @accudisc_read_cdda_placed _ _ _ (one_sector 1 2) _ _ _ _ rfl hd.run rfl
      (hd.fine hplace) 0 _ hpubs
    refine ⟨out, _, hd.run, by rw [hd.log]; simp, hpubs, rfl, by rw [hframe]; decide +kernel,
      fun hmap => ?_⟩
    exact absurd (h.2 (by decide) hmap) (by decide)
  · have hrun : ∃ out, accudisc_read_cdda (answering lost) 1 (some (one_sector 1 0)) 1 none =
        (ACCUDISC_OK, some out) := ⟨_, rfl⟩
    have hall : ((accudisc_read_cdda (answering lost) 1 (some (one_sector 1 0)) 1 none).2.map fun out =>
        out.r.log.all first_read) = some true := by
      decide +kernel
    have hpub : ((accudisc_read_cdda (answering lost) 1 (some (one_sector 1 0)) 1 none).2.map fun out =>
        (pubs out.r.log).map fun p => (p.lba, misplaced
          (record_q (read_setup (answering lost) (one_sector 1 0)) p.data 0) p.lba)) =
            some [(0, true)] := by
      decide +kernel
    obtain ⟨out, hrun⟩ := hrun
    rw [hrun, Option.map_some, Option.some.injEq] at hall hpub
    have hstage : ∀ u, .transfer u ∈ wire out.r.log → u.stage = .stream ∨ u.stage = .flush ∨
      u.stage = .qpos :=
      fun u hu => of_decide_eq_true (List.all_eq_true.1 hall _ (mem_wire.1 hu))
    have hfine : Fine (read_setup (answering lost) (one_sector 1 0)) (wire out.r.log) := by
      refine ⟨fun p lba x hx => ?_, fun p lba x hx => ?_, fun lba x hx => ?_⟩
      · obtain ⟨pre, post, hl, -, u, hu, -, hst, -⟩ := hx
        have h := hstage u (hl ▸ List.mem_append_right pre hu)
        rw [hst] at h
        simp at h
      · obtain ⟨u, u', hs, ⟨-, hst, -⟩, -⟩ := hx
        have h := hstage u (hs.subset (List.mem_cons_self ..))
        rw [hst] at h
        simp at h
      · obtain ⟨⟨u, hu, -, hst, -⟩, -⟩ := hx
        have h := hstage u hu
        rw [hst] at h
        simp at h
    obtain ⟨p, hp, hplace⟩ := List.map_eq_singleton_iff.1 hpub
    rw [Prod.mk.injEq] at hplace
    have h0 : (pubs out.r.log)[0]? = some p := by rw [hp]; rfl
    refine ⟨out, p, hrun, h0, hplace.2, ?_⟩
    exact (@accudisc_read_cdda_placed _ _ _ (one_sector 1 0) _ _ _ _ rfl hrun rfl hfine 0 p h0).1 hplace.2

/-- A reread with the right audio and another sector's frame: the sector is recovered, not suspect. -/
theorem accudisc_read_cdda_placed_fails : ∃ d out p,
    accudisc_read_cdda (answering d) 1 (some (one_sector 1 2)) 1 none = (ACCUDISC_OK, some out) ∧
      (pubs out.r.log)[0]? = some p ∧ map_state p.status = ACCUDISC_MAP_RECOVERED ∧
      misplaced (record_q (read_setup (answering d) (one_sector 1 2)) p.data 0) p.lba = true ∧
      map_state (out.r.status_map 0) = ACCUDISC_MAP_RECOVERED ∧
      out.r.subq_map 0 = ACCUDISC_SUBQ_MISPOSITION := by
  obtain ⟨out, t, t', rest, hrun, hlog, -, -, hrest, -⟩ := slipped_run frame_zero
  have hpubs : pubs out.r.log = [⟨0, 0x14, record 2448 (slipped frame_zero 4) 0⟩] := by
    rw [hlog, pubs_append, hrest]
    rfl
  have hmis : misplaced (record_q (read_setup (answering (slipped frame_zero)) (one_sector 1 2))
      (record 2448 (slipped frame_zero 4) 0) 0) 0 = true := by
    rw [slipped_frame]
    decide +kernel
  obtain ⟨-, hr, -⟩ := @read_cdda_run _ _ _ (one_sector 1 2) _ _ _ _ rfl hrun
  have h0 : (pubs out.r.log)[0]? = some ⟨0, 0x14, record 2448 (slipped frame_zero 4) 0⟩ := by
    rw [hpubs]; rfl
  refine ⟨slipped frame_zero, out, _, hrun, h0, rfl, hmis, ?_, ?_⟩
  · rw [hr.books.status_map (show ¬(1 : UInt64) = 0 by decide) 0 _ h0]
    rfl
  · rw [hr.books.subq_map (show ¬(2 : UInt64) = 0 by decide) rfl 0 _ h0]
    unfold Pub.subq
    rw [if_neg (show ¬Pub.hard ⟨0, 0x14, record 2448 (slipped frame_zero 4) 0⟩ = true
      from Bool.false_ne_true)]
    unfold misplaced at hmis
    unfold adsc_subq_byte
    simp only [Bool.and_eq_true, beq_iff_eq, bne_iff_ne] at hmis
    rw [hmis.1.1, if_neg (by decide), if_neg (not_not.2 hmis.1.2), if_pos hmis.2]

/-! ## Witnesses -/

section
variable (hq : read_req_import req = .ok q)
  (h : accudisc_read_cdda env dev (some req) sink stats_size = (rc, some out))
include hq h

/-- **Verified means witnessed**: with verify passes, a sector published as good was confirmed by each of
them, and a recovered one by the last, unless that pass replaced it on evidence of its own. -/
theorem accudisc_read_cdda_verified (hv : 2 ≤ q.verify_passes.toNat) :
    ∀ p ∈ pubs out.r.log,
      (map_state p.status = ACCUDISC_MAP_OK ∨ map_state p.status = ACCUDISC_MAP_C2 →
        ∀ pass, 2 ≤ pass → pass ≤ q.verify_passes.toNat →
          Confirmed (read_setup env q).sector_len out.r.log (.verify pass) p.lba p.data) ∧
      (map_state p.status = ACCUDISC_MAP_RECOVERED →
        Confirmed (read_setup env q).sector_len out.r.log (.verify q.verify_passes.toNat) p.lba p.data ∨
        Agreed (read_setup env q).sector_len out.r.log (.verify q.verify_passes.toNat) p.lba p.data ∨
        Anchored (read_setup env q).sector_len out.r.log (.verify q.verify_passes.toNat) p.lba p.data) := by
  obtain ⟨-, hrun, -⟩ := read_cdda_run hq h
  have hpasses : (read_setup env q).passes = q.verify_passes.toNat := if_pos hv
  intro p hp
  obtain ⟨x, hs, hd, -, -, hver⟩ := hrun.proven p hp
  rw [hpasses] at hver
  rw [hs, hd]
  refine ⟨fun hst => ?_, fun hst => ?_⟩
  · have hclean := x.state_good.1 hst
    exact hver.clean hclean.1 hclean.2.1 hclean.2.2
  · obtain ⟨hh, hu, hr⟩ := x.state_recovered.1 hst
    refine (hver.recov hh hu hr hv).imp_right fun hb => ?_
    exact hb.imp (fun ha => ha.2.2.1 _ rfl) fun ha => ha.2.2.2 _ rfl

end

/-- A drive whose copies of a periodic sector agree but for one that is silent. -/
def periodic (i : Nat) : Mem := fun a =>
  if i ≠ 2 ∧ a < 2352 then BitVec.ofNat 8 (a % 4) else 0

/-- A periodic sector is a shift of itself, and not of silence. -/
theorem periodic_shift :
    (adsc_shift_find (record 2448 (periodic 0) 0) (record 2448 (periodic 0) 0)).isSome = true ∧
    adsc_shift_find (periodic 0) (periodic 2) = none := by
  have hrec : ∀ i < 2352, record 2448 (periodic 0) 0 i = BitVec.ofNat 8 (i % 4) := fun i hi => by
    rw [record_lt (by omega), Nat.zero_mul, Nat.zero_add]
    simp [periodic, hi]
  constructor
  · have hany : ((List.range ADSC_ANCHOR_BYTES).any fun i =>
        ptr (record 2448 (periodic 0) 0) ( ACCUDISC_BYTES_AUDIO / 2) i !=
          ptr (record 2448 (periodic 0) 0) ( ACCUDISC_BYTES_AUDIO / 2) 0) = true := by
      rw [List.any_eq_true]
      refine ⟨1, by decide, ?_⟩
      change (record 2448 (periodic 0) 0 (1176 + 1) != record 2448 (periodic 0) 0 (1176 + 0)) = true
      rw [hrec _ (by omega), hrec _ (by omega)]
      decide
    unfold adsc_shift_find
    simp only [hany, Bool.not_true, Bool.false_eq_true, if_false]
    rw [List.find?_isSome]
    refine ⟨1, List.mem_map.2 ⟨589, List.mem_range.2 (by decide), by decide⟩, ?_⟩
    unfold shift_at
    simp only
    rw [if_neg (by decide), if_neg]
    · rw [memeq_iff]
      intro i hi
      have hi' : i < 2348 := hi
      change record 2448 (periodic 0) 0 (0 + i) = record 2448 (periodic 0) 0 (4 + i)
      rw [hrec _ (by omega), hrec _ (by omega), show (4 + i) % 4 = (0 + i) % 4 by omega]
    · rw [Bool.not_eq_true', Bool.not_eq_false, memeq_iff]
      intro i hi
      have hi' : i < 64 := hi
      change record 2448 (periodic 0) 0 (1176 + i) = record 2448 (periodic 0) 0 (1180 + i)
      rw [hrec _ (by omega), hrec _ (by omega), show (1180 + i) % 4 = (1176 + i) % 4 by omega]
  · have hnone : ∀ d, shift_at (periodic 0) (periodic 2) d = false := fun d => by
      unfold shift_at
      simp only
      split
      · rfl
      rw [if_pos]
      rw [Bool.not_eq_true', Bool.eq_false_iff, ne_eq, memeq_iff]
      intro h
      have := h 1 (by decide)
      change periodic 0 (1176 + 1) = periodic 2 _ at this
      simp [periodic] at this
    unfold adsc_shift_find
    simp only
    split
    · rfl
    · exact List.find?_eq_none.2 fun d _ => by simp [hnone d]

theorem periodic_eq : periodic 4 = periodic 0 := by
  funext a
  simp [periodic]

theorem periodic_diff : adsc_audio_diff (periodic 0) (periodic 2) ≠ 0 := fun h =>
  absurd (adsc_audio_diff_eq_zero.1 h 1 (by decide)) (by decide)

/-- The sector is disputed. -/
theorem periodic_run : ∃ out t t' rest, Disputed periodic out t t' rest := @one_sector_disputed periodic
  (by
    have h : sub_q (ptr (periodic 0) 2352) = sub_q fun _ => 0 := sub_q_congr fun i _ => by
      simp [ptr, periodic]
    rw [h]
    decide +kernel)
  periodic_diff periodic_shift.2 (periodic_eq ▸ adsc_audio_diff_eq_zero.2 fun _ _ => rfl)
  (periodic_eq ▸ periodic_shift.2)

/-- The disputed sector of a periodic disc. -/
theorem accudisc_read_cdda_verified_one : ∃ d out p,
    accudisc_read_cdda (answering d) 1 (some (one_sector 1 2)) 1 none = (ACCUDISC_OK, some out) ∧
      p ∈ pubs out.r.log ∧ map_state p.status = ACCUDISC_MAP_RECOVERED ∧
      (Confirmed 2448 out.r.log (.verify 2) p.lba p.data ∨ Agreed 2448 out.r.log (.verify 2) p.lba p.data ∨
        Anchored 2448 out.r.log (.verify 2) p.lba p.data) := by
  obtain ⟨out, t, t', rest, hrun, hlog, -, -, hrest, -⟩ := periodic_run
  have hp : (⟨0, 0x14, record 2448 (periodic 4) 0⟩ : Pub) ∈ pubs out.r.log := by
    rw [hlog, pubs_append, hrest]
    exact List.mem_singleton_self _
  have h := @accudisc_read_cdda_verified _ _ _ (one_sector 1 2) _ _ _ _ rfl hrun (by decide) _ hp
  exact ⟨periodic, out, _, hrun, hp, rfl, h.2 rfl⟩

/-- A recovered sector whose copies agree although the detector relates them by a shift: they are the
same periodic audio, and two copies that agree are not compared for one. -/
theorem accudisc_read_cdda_verified_periodic : ∃ d out p,
    accudisc_read_cdda (answering d) 1 (some (one_sector 1 2)) 1 none = (ACCUDISC_OK, some out) ∧
      p ∈ pubs out.r.log ∧ map_state p.status = ACCUDISC_MAP_RECOVERED ∧
      ¬(Confirmed 2448 out.r.log (.verify 2) p.lba p.data ∨
        Anchored 2448 out.r.log (.verify 2) p.lba p.data ∨
        ∃ pre seg post sec alt, out.r.log = pre ++ .dispute (.verify 2) p.lba sec alt :: (seg ++ post) ∧
          AgreedIn 2448 (.verify 2) p.lba pre seg sec alt p.data ∧
          (sec :: (alt.toList ++ rereads 2448 (.verify 2) seg)).Pairwise fun y z =>
            adsc_shift_find y z = none ∧ adsc_shift_find z y = none) := by
  have hfour : periodic 4 = periodic 0 := periodic_eq
  have hdiff := periodic_diff
  obtain ⟨out, t, t', rest, hrun, hlog, ht, ht', hrest, hown⟩ := periodic_run
  have hpubs : pubs out.r.log = [⟨0, 0x14, record 2448 (periodic 4) 0⟩] := by
    rw [hlog, pubs_append, hrest]
    rfl
  refine ⟨periodic, out, ⟨0, 0x14, record 2448 (periodic 4) 0⟩, hrun, by rw [hpubs]; simp, rfl, ?_⟩
  have hdiff' : adsc_audio_diff (record 2448 (periodic 4) 0) (record 2448 (periodic 2) 0) ≠ 0 := by
    rw [hfour, ← adsc_audio_diff_congr (record_audio (by decide) 0) (record_audio (by decide) 0)]
    simpa [ptr_zero] using hdiff
  have hmem := Disputed.own_mem ⟨hrun, hlog, ht, ht', hrest, hown⟩
  rintro (⟨pre, post, hl, -, y, ⟨u, hu, -, hst, k, hk, -, rfl⟩, hd⟩ | ⟨u, u', hs, ⟨-, hst, -⟩, -⟩ |
    ⟨pre, seg, post, sec, alt, hl, ⟨-, -, -, ⟨ys, hys, -⟩, -, -⟩, hpw⟩)
  · have hu : ReadEvent.transfer u ∈ out.r.log := hl ▸ List.mem_append_right _ hu
    have := hmem _ hu rfl
    simp only [ReadEvent.transfer.injEq, reduceCtorEq, false_or, or_false] at this
    rcases this with rfl | rfl | rfl | rfl | rfl
    · simp at hst
    · simp [ht] at hst
    · simp only at hk hd
      obtain rfl : k = 0 := by omega
      exact hdiff' hd
    · simp [ht'] at hst
    · simp at hst
  · have hu : ReadEvent.transfer u ∈ out.r.log := hs.subset (by simp)
    have := hmem _ hu rfl
    simp only [ReadEvent.transfer.injEq, reduceCtorEq, false_or, or_false] at this
    rcases this with rfl | rfl | rfl | rfl | rfl
    · simp at hst
    · simp [ht] at hst
    · simp at hst
    · simp [ht'] at hst
    · simp at hst
  · have hu : ReadEvent.dispute (.verify 2) 0 sec alt ∈ out.r.log := hl ▸ by simp
    have := hmem _ hu rfl
    simp only [reduceCtorEq, false_or, or_false, ReadEvent.dispute.injEq, true_and] at this
    obtain ⟨rfl, rfl⟩ := this
    rw [hys] at hpw
    have := (List.pairwise_cons.1 hpw).1 (record 2448 (periodic 4) 0) (by simp)
    rw [hfour] at this
    have hsome := periodic_shift.1
    rw [this.1] at hsome
    cases hsome

end Accudisc
