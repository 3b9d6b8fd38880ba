import Accudisc.Read.Proof.CddaLoop

/-!
# What `accudisc_read_cdda` delivers

What a call delivers (`accudisc_read_cdda_delivers`), where every delivered record comes from
(`accudisc_read_cdda_provenance`), and what the counters and maps say of them
(`accudisc_read_cdda_stats`).
-/

namespace Accudisc

variable {env : ReadEnv} {dev : Nat} {req q : ReadReq} {sink : Nat} {stats_size : Option Nat} {rc : Int}
  {out : ReadOut}

/-- A request for the sector at LBA 0, with maps, unbuffered. -/
def one_sector (sub verify_passes : UInt8) : ReadReq :=
  { size := 80, lba := 0, count := 1, c2 := 0, sub, any_type := 0, retries := 0, chunk_sectors := 0
    speed_x := 0, c2_retries := 0, verify_passes, overlap_sectors := 0, speed_ladder := 0, ladder_len := 0
    status_map := 1, cancel := 0, subq_map := if sub = 1 then 2 else 0, buffer_bytes := 0xFFFFFFFF
    c2_witness := 0, tail := [] }

/-- A drive that answers every READ CD, the `i`-th with `d i`. -/
def answering (d : Nat → Mem) : ReadEnv :=
  { drive := fun i => ⟨ACCUDISC_OK, d i, ⟨false, 0, 0⟩⟩, malloc := fun _ => some fun _ => 0
    ladder := fun _ => 0, cancel := fun _ => false, sink := fun _ => 0, status_map := fun _ => 0
    subq_map := fun _ => 0, set_speed := 0, get_speed := (0, 0), fifo_bytes_for := fun _ => 0
    accubuf_start := 0, accubuf_stop := 0, peak_count := 0, stalls := 0 }

/-- A request for two sectors, a command each. -/
def sector_pair : ReadReq := { one_sector 0 0 with count := 2, chunk_sectors := 1 }

/-- A drive that reads the first, and nothing after it. -/
def scratched : ReadEnv :=
  { answering fun _ _ => 7 with
    drive := fun i => if i = 0 then ⟨ACCUDISC_OK, fun _ => 7, ⟨false, 0, 0⟩⟩
      else ⟨ACCUDISC_ERR_SENSE, fun _ => 0, ⟨true, 3, 0x11⟩⟩ }

/-- The engine of a call through the ring or not is a run. -/
theorem read_buffered_run (sink : Nat) (c : Cfg) (hL : c.sector_len < 2 ^ 32) :
    Run c sink (read_buffered c sink).r ∧ ((read_buffered c sink).rc = ACCUDISC_OK →
      (pubs (read_buffered c sink).r.log).length = c.req.count.toNat ∧
      (read_buffered c sink).r.st.hard_errors = (pubs (read_buffered c sink).r.log).countP Pub.hard) := by
  obtain ⟨hrun, hok⟩ := read_chunks_run (c := c) sink hL
  unfold read_buffered
  split
  · exact ⟨start_run, fun h => absurd h (show ¬ACCUDISC_ERR_NOMEM = ACCUDISC_OK by decide)⟩
  split
  · split
    · rename_i h
      exact ⟨start_run, fun h' => absurd h' h⟩
    · refine ⟨⟨⟨hrun.books.order, hrun.books.stored, hrun.books.status_map, hrun.books.subq_map,
        hrun.books.account.of_tally rfl⟩, hrun.sunk, hrun.proven, hrun.le⟩, fun h => hok ?_⟩
      simp only at h
      split at h
      · exact absurd h (show ¬ACCUDISC_ERR_CANCELLED = ACCUDISC_OK by decide)
      · exact h
  · exact ⟨hrun, hok⟩

section
variable (hq : read_req_import req = .ok q)
  (h : accudisc_read_cdda env dev (some req) sink stats_size = (rc, some out))
include hq h

/-- A call that gets to the engine leaves a run. -/
theorem read_cdda_run : read_validate dev q = .ok () ∧ Run (read_setup env q) sink out.r ∧
    (rc = ACCUDISC_OK → (pubs out.r.log).length = q.count.toNat ∧
      out.r.st.hard_errors = (pubs out.r.log).countP Pub.hard) := by
  have hL : (read_setup env q).sector_len < 2 ^ 32 :=
    Nat.lt_of_le_of_lt (sector_len_le q.c2.toNat q.sub.toNat) (by decide)
  obtain ⟨hrun, hok⟩ := read_buffered_run sink (read_setup env q) hL
  unfold accudisc_read_cdda at h
  simp only [hq] at h
  split at h
  · cases h
  rename_i stats_bytes _
  split at h
  · cases h
  rename_i hv
  simp only [Prod.mk.injEq, Option.some.injEq] at h
  obtain ⟨rfl, rfl⟩ := h
  refine ⟨hv, ⟨⟨hrun.books.order, hrun.books.stored, hrun.books.status_map, hrun.books.subq_map,
    hrun.books.account.of_tally rfl⟩, hrun.sunk, hrun.proven, hrun.le⟩, hok⟩

/-- The LBAs published. -/
theorem pubs_lba (hwrap : q.lba.toNat + q.count.toNat ≤ 2 ^ 32) :
    (pubs out.r.log).map Pub.lba = (List.range (pubs out.r.log).length).map (q.lba.toNat + ·) := by
  obtain ⟨-, hrun, -⟩ := read_cdda_run hq h
  refine List.ext_getElem? fun i => ?_
  rw [List.getElem?_map, List.getElem?_map]
  rcases Nat.lt_or_ge i (pubs out.r.log).length with hi | hi
  · have hle : (pubs out.r.log).length ≤ q.count.toNat := hrun.le
    rw [List.getElem?_eq_getElem hi, List.getElem?_range hi]
    have := hrun.books.order i _ (List.getElem?_eq_getElem hi)
    simp only [Option.map_some, this]
    exact congrArg some (u32_of_lt (show q.lba.toNat + i < 2 ^ 32 by omega))
  · rw [List.getElem?_eq_none hi, List.getElem?_eq_none (by simpa using hi)]
    rfl

/-- **Delivery**: on success the sink has had the sectors of the request, in order, each once, and each
entry of the map is stored once; whatever the call returns, the sink has had a prefix of them. -/
theorem accudisc_read_cdda_delivers (hwrap : q.lba.toNat + q.count.toNat ≤ 2 ^ 32) :
    (rc = ACCUDISC_OK →
      (sink ≠ 0 → (delivered out.r.log).map Prod.fst = (List.range q.count.toNat).map (q.lba.toNat + ·)) ∧
      (q.status_map ≠ 0 → (stores out.r.log).map Prod.fst = List.range q.count.toNat)) ∧
    (delivered out.r.log).map Prod.fst <+: (List.range q.count.toNat).map (q.lba.toNat + ·) := by
  obtain ⟨-, hrun, hok⟩ := read_cdda_run hq h
  have hlba := pubs_lba hq h hwrap
  have hsunk : sink ≠ 0 → (delivered out.r.log).map Prod.fst = (pubs out.r.log).map Pub.lba := fun hs => by
    rw [hrun.sunk, if_neg hs, List.map_map]
    rfl
  refine ⟨fun hrc => ⟨fun hs => ?_, fun hm => ?_⟩, ?_⟩
  · rw [hsunk hs, hlba, (hok hrc).1]
  · have hstored := hrun.books.stored
    rw [if_neg (show ¬(read_setup env q).req.status_map = 0 from hm)] at hstored
    rw [hstored, List.map_map, ← (hok hrc).1]
    refine List.ext_getElem? fun i => ?_
    simp only [List.getElem?_map, List.getElem?_zipIdx]
    rcases Nat.lt_or_ge i (pubs out.r.log).length with hi | hi
    · simp [List.getElem?_eq_getElem hi, List.getElem?_range hi]
    · simp [hi]
  · by_cases hs : sink = 0
    · rw [hrun.sunk, if_pos hs]
      exact List.nil_prefix
    · rw [hsunk hs, hlba]
      obtain ⟨m, hm⟩ := Nat.exists_eq_add_of_le (show (pubs out.r.log).length ≤ q.count.toNat from hrun.le)
      rw [hm, List.range_add, List.map_append]
      exact List.prefix_append ..

omit hq h in
/-- A sector that is read and one that is not. -/
theorem accudisc_read_cdda_delivers_two : ∃ out,
    accudisc_read_cdda scratched 1 (some sector_pair) 1 none = (ACCUDISC_OK, some out) ∧
      (delivered out.r.log).map Prod.fst = [0, 1] ∧ (stores out.r.log).map Prod.fst = [0, 1] := by
  have h := @accudisc_read_cdda_delivers scratched 1 sector_pair sector_pair 1 none ACCUDISC_OK _
    rfl rfl (by decide)
  exact ⟨_, rfl, (h.1 rfl).1 (by decide), (h.1 rfl).2 (by decide)⟩

/-- **Provenance**: what the sink has had is the published records, and each is the record of its LBA in
one good READ CD of the call, or hard and synthetic. -/
theorem accudisc_read_cdda_provenance :
    (delivered out.r.log = if sink = 0 then [] else (pubs out.r.log).map fun p => (p.lba, p.data)) ∧
    ∀ i p, (pubs out.r.log)[i]? = some p →
      (q.status_map ≠ 0 → out.r.status_map i = p.status) ∧
      (map_state p.status = ACCUDISC_MAP_HARD → p.data = synthetic (read_setup env q)) ∧
      (map_state p.status ≠ ACCUDISC_MAP_HARD →
        Copy (read_setup env q).sector_len out.r.log Stage.Reads p.lba p.data) := by
  obtain ⟨-, hrun, -⟩ := read_cdda_run hq h
  refine ⟨hrun.sunk, fun i p hi => ⟨fun hm => hrun.books.status_map hm i p hi, ?_⟩⟩
  obtain ⟨x, hs, hd, hheld, -, -⟩ := hrun.proven p (List.mem_of_getElem? hi)
  rw [hs, hd]
  refine ⟨fun hx => hheld.sound.filled (x.state_hard.1 hx), fun hn =>
    hheld.sound.copy (Bool.eq_false_iff.2 fun hx => hn (x.state_hard.2 hx))⟩

omit hq h in
/-- The one is a copy, the other is made up. -/
theorem accudisc_read_cdda_provenance_two : ∃ out p p',
    accudisc_read_cdda scratched 1 (some sector_pair) 1 none = (ACCUDISC_OK, some out) ∧
      (pubs out.r.log)[0]? = some p ∧ p.status = ACCUDISC_MAP_OK ∧
      Copy 2352 out.r.log Stage.Reads p.lba p.data ∧
      (pubs out.r.log)[1]? = some p' ∧ map_state p'.status = ACCUDISC_MAP_HARD ∧
      p'.data = synthetic (read_setup scratched sector_pair) := by
  have h := @accudisc_read_cdda_provenance scratched 1 sector_pair sector_pair 1 none ACCUDISC_OK _ rfl rfl
  exact ⟨_, _, _, rfl, rfl, rfl, (h.2 0 _ rfl).2.2 (show ¬ACCUDISC_MAP_OK = ACCUDISC_MAP_HARD by decide),
    rfl, rfl,
    (h.2 1 _ rfl).2.1 rfl⟩

/-- The entries of the map are the statuses published. -/
theorem status_map_count (hm : q.status_map ≠ 0) (f : BitVec 8 → Bool) :
    (List.range (pubs out.r.log).length).countP (fun i => f (out.r.status_map i)) =
      (pubs out.r.log).countP fun p => f p.status := by
  obtain ⟨-, hrun, -⟩ := read_cdda_run hq h
  have hmap : (List.range (pubs out.r.log).length).map out.r.status_map =
    (pubs out.r.log).map Pub.status := by
    refine List.ext_getElem? fun i => ?_
    rw [List.getElem?_map, List.getElem?_map]
    rcases Nat.lt_or_ge i (pubs out.r.log).length with hi | hi
    · rw [List.getElem?_eq_getElem hi, List.getElem?_range hi]
      exact congrArg some (hrun.books.status_map hm i _ (List.getElem?_eq_getElem hi))
    · rw [List.getElem?_eq_none hi, List.getElem?_eq_none (by simpa using hi)]
      rfl
  have := congrArg (List.countP f) hmap
  rwa [List.countP_map, List.countP_map] at this

/-- **Statistics**: on success the counters and the map describe the sectors published, and these are
the ones the sink has had. -/
theorem accudisc_read_cdda_stats (hrc : rc = ACCUDISC_OK) :
    out.r.st.sectors_read + out.r.st.hard_errors = q.count.toNat ∧
    (q.status_map ≠ 0 →
      out.r.st.hard_errors = (List.range q.count.toNat).countP
        (fun i => map_state (out.r.status_map i) == ACCUDISC_MAP_HARD) ∧
      out.r.st.sectors_suspect = (List.range q.count.toNat).countP
        (fun i => map_state (out.r.status_map i) == ACCUDISC_MAP_SUSPECT) ∧
      out.r.st.sectors_recovered = (List.range q.count.toNat).countP
        (fun i => map_state (out.r.status_map i) == ACCUDISC_MAP_RECOVERED)) ∧
    Account (read_setup env q) (pubs out.r.log) out.r.st ∧
    out.r.st.hard_errors = (pubs out.r.log).countP Pub.hard ∧
    delivered out.r.log = if sink = 0 then [] else (pubs out.r.log).map fun p => (p.lba, p.data) := by
  obtain ⟨-, hrun, hok⟩ := read_cdda_run hq h
  obtain ⟨hlen, hhard⟩ := hok hrc
  have hacc := hrun.books.account
  refine ⟨?_, fun hm => ⟨?_, ?_, ?_⟩, hacc, hhard, hrun.sunk⟩
  · rw [hacc.sectors_read, hhard, ← hlen, Nat.add_comm]
    exact (List.length_eq_countP_add_countP Pub.hard).symm.trans rfl |> fun h => by simpa using h
  · rw [hhard, ← hlen]
    exact (status_map_count hq h hm fun v => map_state v == ACCUDISC_MAP_HARD).symm
  · rw [hacc.sectors_suspect, ← hlen]
    exact (status_map_count hq h hm fun v => map_state v == ACCUDISC_MAP_SUSPECT).symm
  · rw [hacc.sectors_recovered, ← hlen]
    exact (status_map_count hq h hm fun v => map_state v == ACCUDISC_MAP_RECOVERED).symm

omit hq h in
/-- One sector is counted as read, one as hard. -/
theorem accudisc_read_cdda_stats_two : ∃ out,
    accudisc_read_cdda scratched 1 (some sector_pair) 1 none = (ACCUDISC_OK, some out) ∧
      out.r.st.sectors_read + out.r.st.hard_errors = 2 ∧ out.r.st.hard_errors = 1 ∧
      (List.range 2).countP (fun i => map_state (out.r.status_map i) == ACCUDISC_MAP_HARD) = 1 ∧
      Account (read_setup scratched sector_pair) (pubs out.r.log) out.r.st := by
  have h := @accudisc_read_cdda_stats scratched 1 sector_pair sector_pair 1 none ACCUDISC_OK _ rfl rfl rfl
  exact ⟨_, rfl, h.1, rfl, (h.2.1 (by decide)).1.symm, h.2.2.1⟩

end

end Accudisc
