import Accudisc.Repair.Proof.CtdbApply

/-!
# The repair is all-or-nothing and restores

* `ctdb_run_eq`: the run after the checks, with the passes' results in closed form.
* `accudisc_ctdb_repair_consistent`: for every request, parity blob and bitmap, a refusal changes no byte
  and a repair leaves columns that match the parity.
* `accudisc_ctdb_repair_restores`: damage within the capacity is undone.
-/

namespace Accudisc

open Finset

section
variable {m : Mem} {req : CtdbReq} (hacc : Accepted req) (kernel : Kernel)

/-- The accumulator after pass 1. -/
def pass1 (kernel : Kernel) (m : Mem) (req : CtdbReq) : SweepState :=
  adsc_ctdb_sweep kernel m req.pcm req.first.toNat req.S req.sc req.npar.toNat fun _ => 0

/-- The CRC-32 of the codeword region of the words at `base`. -/
def regionCrc (m : Mem) (req : CtdbReq) (base : Nat) : BitVec 32 :=
  crcBytes m 0xFFFFFFFF#32 (base + 2 * req.first.toNat) (req.sc * req.S * 2) ^^^ 0xFFFFFFFF#32

include hacc in
theorem column_error_eq {c r : Nat} (hc : c < req.S) (hr : r < req.npar.toNat) :
    column_error m req (pass1 kernel m req).acc c r =
      regionSyndrome m req req.pcm c r + published m req c r := by
  rw [column_error, pass1, (adsc_ctdb_sweep_spec m req.pcm req.first.toNat req.S kernel
    hacc.npar_le req.sc).1 r hr c hc]
  rfl

include hacc in
theorem pass1_crc : (pass1 kernel m req).crc = regionCrc m req req.pcm := by
  rw [pass1, (adsc_ctdb_sweep_spec m req.pcm req.first.toNat req.S kernel hacc.npar_le req.sc).2,
    regionCrc, Nat.mul_assoc]

theorem crc32_words_eq (m : Mem) (base : Nat) :
    adsc_ctdb_crc32_words m (base + 2 * req.first.toNat) (req.sc * req.S) = regionCrc m req base := by
  rw [adsc_ctdb_crc32_words, crc_update_eq, regionCrc]

include hacc in
/-- **The run**: a refused column stops it, otherwise the output is the copy with all corrections. -/
theorem ctdb_run_eq (out_pcm : Nat) (report : Option CtdbReport) :
    ∃ st, Pass2Inv m req (pass1 kernel m req).acc req.S st ∧
      ctdb_run kernel m req out_pcm report =
        if st.refused ≠ 0 then (ACCUDISC_ERR_NOTFOUND, m, report.map
          (fill_report req st (regionCrc m req req.pcm) (regionCrc m req req.pcm)))
        else (if st.unverified ≠ 0 then ACCUDISC_CTDB_UNVERIFIED else ACCUDISC_OK,
          repaired m req (pass1 kernel m req).acc out_pcm,
          report.map (fill_report req st (regionCrc m req req.pcm)
            (regionCrc (repaired m req (pass1 kernel m req).acc out_pcm) req out_pcm))) := by
  obtain ⟨st, hst, hinv⟩ := pass2_inv m req (pass1 kernel m req).acc
  refine ⟨st, hinv, ?_⟩
  have hfix : ctdb_apply (if out_pcm ≠ req.pcm then memmove m out_pcm req.pcm req.pcm_bytes.toNat
      else m) out_pcm st.fixes = repaired m req (pass1 kernel m req).acc out_pcm := by
    rw [hinv.fixes]
    rfl
  have hsweep : adsc_ctdb_sweep kernel m req.pcm req.first.toNat req.S req.sc req.npar.toNat
      (fun _ => 0) = pass1 kernel m req := rfl
  unfold ctdb_run
  dsimp only
  rw [hsweep, hst]
  dsimp only
  rw [hfix, pass1_crc hacc]
  by_cases hr : st.refused ≠ 0
  · rw [if_pos hr, if_pos hr]
  rw [if_neg hr, if_neg hr, crc32_words_eq]
  by_cases hlen : st.fixes.length ≠ 0
  · rw [if_pos hlen]
  · -- without corrections the output is the copy
    have hcrc : regionCrc m req req.pcm =
        regionCrc (repaired m req (pass1 kernel m req).acc out_pcm) req out_pcm := by
      have hnil : allFixes m req (pass1 kernel m req).acc = [] := by
        rw [allFixes, ← hinv.fixes]
        exact List.eq_nil_of_length_eq_zero (not_not.1 hlen)
      rw [regionCrc, regionCrc, repaired, hnil]
      congr 1
      refine crcBytes_congr (fun i hi => ?_) _
      have hfits := hacc.fits
      rw [CtdbReq.pcm_words] at hfits
      rw [Nat.add_assoc, Nat.add_assoc]
      exact (ctdb_copy_byte m req out_pcm (by omega)).symm
    rw [if_neg hlen, hcrc]

end

/-! ## All or nothing -/

/-- The column's syndromes disagree with the published ones. -/
def Disagrees (m : Mem) (req : CtdbReq) (c : Nat) : Prop :=
  ∃ r < req.npar.toNat, regionSyndrome m req req.pcm c r ≠ published m req c r

/-- The rows of column `c` that the bitmap flags. -/
def flaggedRows (m : Mem) (req : CtdbReq) (c : Nat) : List Nat :=
  (List.range req.sc).filter fun p => req.pcm_erasures ≠ 0 ∧ erased m req (req.word c p)

/-- The scan is the flagged rows, cut one past `npar`. -/
theorem erasure_scan_eq (m : Mem) (req : CtdbReq) (c : Nat) :
    erasure_scan m req c = (flaggedRows m req c).take (req.npar.toNat + 1) := by
  have key : ∀ (q : Nat → Bool) (N : Nat) (l es : List Nat), es.length ≤ N + 1 →
      l.foldl (fun es p => if es.length ≤ N ∧ q p then es ++ [p] else es) es =
        es ++ (l.filter q).take (N + 1 - es.length) := by
    intro q N l
    induction l with
    | nil => intro es _; simp
    | cons p l ih =>
      intro es hes
      rw [List.foldl_cons]
      by_cases hq : q p
      · by_cases hlen : es.length ≤ N
        · rw [if_pos ⟨hlen, hq⟩, ih _ (by rw [List.length_append, List.length_singleton]; omega),
            List.filter_cons_of_pos hq, List.length_append, List.length_singleton,
            show N + 1 - es.length = N + 1 - (es.length + 1) + 1 by omega, List.take_succ_cons,
            List.append_assoc, List.singleton_append]
        · have hfull : N + 1 - es.length = 0 := by omega
          rw [if_neg fun h => hlen h.1, ih es hes, hfull, List.take_zero, List.take_zero]
      · rw [if_neg fun h => hq h.2, ih es hes, List.filter_cons_of_neg hq]
  unfold erasure_scan flaggedRows
  split
  · rename_i h
    simp [h]
  · rename_i h
    rw [key (fun p => erased m req (req.word c p)) req.npar.toNat _ [] (Nat.zero_le _)]
    simp [h]

theorem length_erasure_scan (m : Mem) (req : CtdbReq) (c : Nat) :
    (erasure_scan m req c).length = req.npar.toNat ↔
      (flaggedRows m req c).length = req.npar.toNat := by
  rw [erasure_scan_eq, List.length_take]
  omega

/-- What a repair leaves. -/
structure Consistent (kernel : Kernel) (m : Mem) (req : CtdbReq) (out_pcm : Nat)
    (res : Int × Mem × Option CtdbReport) : Prop where
  syndromes : ∀ c < req.S, ∀ r < req.npar.toNat,
    regionSyndrome res.2.1 req out_pcm c r = published m req c r
  only : ∀ i < req.pcm_bytes.toNat, res.2.1 (out_pcm + i) ≠ m (req.pcm + i) →
    ∃ c < req.S, ∃ p < req.sc, i / 2 = req.word c p ∧ Disagrees m req c
  words : ∀ c < req.S, ((range req.sc).filter fun p =>
    load16 res.2.1 (out_pcm + 2 * req.word c p) ≠ load16 m (req.pcm + 2 * req.word c p)).card ≤
      req.npar.toNat
  report : ∀ r, res.2.2 = some r → r.dirty_columns = r.repaired_columns ∧ r.refused_columns = 0
  unverified : res.1 = ACCUDISC_CTDB_UNVERIFIED ↔ ∃ c < req.S, Disagrees m req c ∧
    (flaggedRows m req c).length = req.npar.toNat ∧
      0 < (column_first m req (pass1 kernel m req).acc c).n

section
variable {m : Mem} {req : CtdbReq} (hacc : Accepted req) (kernel : Kernel)

include hacc in
theorem dirty_iff {c : Nat} (hc : c < req.S) :
    Dirty m req (pass1 kernel m req).acc c ↔ Disagrees m req c := by
  refine exists_congr fun r => and_congr_right fun hr => ?_
  rw [column_error_eq hacc kernel hc hr, ← CharTwo.sub_eq_add, sub_ne_zero]

include hacc in
/-- With no column refused, every column's corrections reach the published syndromes. -/
theorem repaired_published (out_pcm : Nat) {c : Nat} (hc : c < req.S)
    (hok : Dirty m req (pass1 kernel m req).acc c → 0 < (column_final m req (pass1 kernel m req).acc c).n)
    {r : Nat} (hr : r < req.npar.toNat) :
    regionSyndrome (repaired m req (pass1 kernel m req).acc out_pcm) req out_pcm c r =
      published m req c r := by
  have herr := column_error_eq hacc kernel (m := m) hc hr
  have hsum : ((columnCorrections m req (pass1 kernel m req).acc c).map
      fun e => e.2 * alpha ^ (r * (req.sc - 1 - e.1))).sum =
      column_error m req (pass1 kernel m req).acc c r := by
    by_cases hd : Dirty m req (pass1 kernel m req).acc c
    · rw [columnCorrections, if_pos hd]
      exact (column_final_spec (hok hd)).syn r hr
    · rw [columnCorrections, if_neg hd]
      by_contra hne
      exact hd ⟨r, hr, fun h0 => hne h0.symm⟩
  rw [repaired_syndrome m _ out_pcm hacc hc, hsum, herr, ← add_assoc, CharTwo.add_self_eq_zero,
    zero_add]

include hacc in
/-- **A run that is not refused** leaves a consistent output. -/
theorem ctdb_run_consistent (out_pcm : Nat) (report : Option CtdbReport)
    (h : 0 ≤ (ctdb_run kernel m req out_pcm report).1) :
    Consistent kernel m req out_pcm (ctdb_run kernel m req out_pcm report) := by
  obtain ⟨st, hinv, hrun⟩ := ctdb_run_eq hacc kernel (m := m) out_pcm report
  have hrefused : st.refused = 0 := by
    by_contra hr
    rw [hrun, if_pos hr] at h
    exact absurd h (show ¬0 ≤ ACCUDISC_ERR_NOTFOUND by decide)
  have hok : ∀ c < req.S, Dirty m req (pass1 kernel m req).acc c →
      0 < (column_final m req (pass1 kernel m req).acc c).n := by
    intro c hc hd
    by_contra hn
    have hzero := hinv.refused
    rw [hrefused, eq_comm, List.countP_eq_zero] at hzero
    exact hzero c (List.mem_range.2 hc) (decide_eq_true ⟨hd, by omega⟩)
  rw [hrun, if_neg (not_not.2 hrefused)]
  refine ⟨fun c hc r hr => ?_, fun i hi hne => ?_, fun c hc => ?_, fun r hr => ?_, ?_⟩
  · exact repaired_published hacc kernel out_pcm hc (hok c hc) hr
  · by_contra hno
    refine hne (repaired_frame hi fun c hc e he hw => hno ?_)
    refine ⟨c, hc, e.1, lt_columnCorrections he, hw.symm, (dirty_iff hacc kernel hc).1 ?_⟩
    exact dirty_of_mem_columnCorrections he
  · refine le_trans (card_le_card (t := ((columnCorrections m req (pass1 kernel m req).acc c).map
      Prod.fst).toFinset) fun p hp => ?_) ((List.toFinset_card_le _).trans ?_)
    · obtain ⟨hp, hne⟩ := mem_filter.1 hp
      rw [List.mem_toFinset, List.mem_map]
      by_contra hno
      have hw := repaired_word m (pass1 kernel m req).acc out_pcm hacc hc (mem_range.1 hp)
      rw [errAt_of_not_mem fun e he hep => hno ⟨e, he, hep⟩, add_zero] at hw
      exact hne (congrArg BinField.bits hw)
    · rw [List.length_map]
      exact length_columnCorrections_le m req _ c
  · obtain ⟨r0, -, rfl⟩ := Option.map_eq_some_iff.1 hr
    have htotal := hinv.total
    rw [hrefused, Nat.add_zero] at htotal
    exact ⟨by simp only [fill_report, htotal], by simp only [fill_report, hrefused]; rfl⟩
  · have hcount : st.unverified ≠ 0 ↔ ∃ c < req.S, Determined m req (pass1 kernel m req).acc c := by
      rw [hinv.unverified, ← Nat.pos_iff_ne_zero, List.countP_pos_iff]
      simp only [List.mem_range, decide_eq_true_eq]
    have hrc : ACCUDISC_OK ≠ ACCUDISC_CTDB_UNVERIFIED := by decide
    have hif : (if st.unverified ≠ 0 then ACCUDISC_CTDB_UNVERIFIED else ACCUDISC_OK) =
        ACCUDISC_CTDB_UNVERIFIED ↔ st.unverified ≠ 0 := by
      split
      · exact iff_of_true rfl ‹_›
      · exact iff_of_false hrc ‹_›
    rw [hif, hcount]
    refine exists_congr fun c => and_congr_right fun hc => ?_
    rw [Determined, dirty_iff hacc kernel hc, length_erasure_scan, and_comm (a := 0 < _)]

end

theorem ctdb_run_refused {m : Mem} {req : CtdbReq} (hacc : Accepted req) (kernel : Kernel)
    (out_pcm : Nat) (report : Option CtdbReport)
    (h : (ctdb_run kernel m req out_pcm report).1 < 0) :
    (ctdb_run kernel m req out_pcm report).2.1 = m := by
  obtain ⟨st, -, hrun⟩ := ctdb_run_eq hacc kernel (m := m) out_pcm report
  rw [hrun] at h ⊢
  by_cases hr : st.refused ≠ 0
  · rw [if_pos hr]
  · rw [if_neg hr] at h
    have hrc : ¬(if st.unverified ≠ 0 then ACCUDISC_CTDB_UNVERIFIED else ACCUDISC_OK) < 0 := by
      split <;> decide
    exact absurd h hrc

/-- A call stops before the passes, with an error, or runs them. -/
theorem repair_cases (env : CtdbEnv) (m : Mem) (req : Option CtdbReq) (out_pcm : Nat)
    (report : Option CtdbReport) :
    (∃ rc < 0, accudisc_ctdb_repair env m req out_pcm report = (rc, m, report)) ∨
    ∃ r, req = some r ∧ Accepted r ∧
      accudisc_ctdb_repair env m req out_pcm report = ctdb_run env.kernel m r out_pcm report := by
  unfold accudisc_ctdb_repair
  cases req with
  | none => exact .inl ⟨_, by decide, rfl⟩
  | some r =>
    dsimp only
    cases hv : ctdb_validate r out_pcm report with
    | error rc => exact .inl ⟨rc, validate_error hv, rfl⟩
    | ok _ =>
      dsimp only
      split
      · exact .inl ⟨_, by decide, rfl⟩
      · exact .inr ⟨r, rfl, accepted_of_validate hv, rfl⟩

/-- **All or nothing**: a refused call changes no byte of memory, any other leaves a consistent
output, whatever the buffers share. -/
theorem accudisc_ctdb_repair_consistent (env : CtdbEnv) (m : Mem) (req : Option CtdbReq)
    (out_pcm : Nat) (report : Option CtdbReport) :
    let res := accudisc_ctdb_repair env m req out_pcm report
    (res.1 < 0 → res.2.1 = m) ∧
    (res.1 = ACCUDISC_OK ∨ res.1 = ACCUDISC_CTDB_UNVERIFIED →
      ∃ r, req = some r ∧ Consistent env.kernel m r out_pcm res) := by
  intro res
  have hpos : res.1 = ACCUDISC_OK ∨ res.1 = ACCUDISC_CTDB_UNVERIFIED → 0 ≤ res.1 := by
    rintro (h | h)
    · rw [h]; decide
    · rw [h]; decide
  rcases repair_cases env m req out_pcm report with ⟨rc, hrc, h⟩ | ⟨r, hreq, hacc, h⟩
  · rw [show res = _ from h] at hpos ⊢
    exact ⟨fun _ => rfl, fun h => absurd hrc (not_lt.2 (hpos h))⟩
  · rw [show res = _ from h] at hpos ⊢
    exact ⟨ctdb_run_refused hacc env.kernel out_pcm report, fun h =>
      ⟨r, hreq, ctdb_run_consistent hacc env.kernel out_pcm report (hpos h)⟩⟩

/-! ## Restoring -/

/-- What the damage adds to row `p` of column `c`. -/
def damage (m : Mem) (req : CtdbReq) (P : Mem) (c p : Nat) : Gf16 :=
  wordAt m req.pcm (req.word c p) + wordAt P 0 (req.word c p)

theorem damage_ne_zero {m P : Mem} {req : CtdbReq} {c p : Nat} : damage m req P c p ≠ 0 ↔
    load16 m (req.pcm + 2 * req.word c p) ≠ load16 P (2 * req.word c p) := by
  rw [damage, ← CharTwo.sub_eq_add, sub_ne_zero, wordAt, wordAt, Nat.zero_add]
  exact not_congr ⟨fun h => congrArg BinField.bits h, fun h => congrArg symbol h⟩

theorem errAt_wordErrata {n p : Nat} (err : Nat → Gf16) (hp : p < n) :
    errAt (wordErrata n err) p = err p := by
  by_cases h : err p = 0
  · rw [h]
    refine errAt_of_not_mem fun e he hep => ?_
    obtain ⟨-, hne, -⟩ := mem_wordErrata.1 he
    rw [hep] at hne
    exact hne h
  · exact errAt_of_mem (asc_wordErrata n err) (e := (p, err p)) (mem_wordErrata.2 ⟨hp, h, rfl⟩)

section
variable {m P : Mem} {req : CtdbReq} (hacc : Accepted req) (kernel : Kernel)
  (hnone : req.pcm_erasures = 0)
  (hparity : ∀ c < req.S, ∀ r < req.npar.toNat, published m req c r = regionSyndrome P req 0 c r)
  (hdamage : ∀ c < req.S, ((range req.sc).filter fun p =>
    load16 m (req.pcm + 2 * req.word c p) ≠ load16 P (2 * req.word c p)).card ≤ req.npar.toNat / 2)

include hacc hparity in
theorem column_error_damage {c : Nat} (hc : c < req.S) : ∀ r < req.npar.toNat,
    column_error m req (pass1 kernel m req).acc c r =
      ∑ p ∈ range req.sc, damage m req P c p * alpha ^ (r * (req.sc - 1 - p)) := by
  intro r hr
  rw [column_error_eq hacc kernel hc hr, hparity c hc r hr, regionSyndrome_eq hacc,
    regionSyndrome_eq hacc, ← sum_add_distrib]
  exact sum_congr rfl fun p _ => (add_mul _ _ _).symm

include hdamage in
theorem card_damage_le {c : Nat} (hc : c < req.S) :
    ((range req.sc).filter fun p => damage m req P c p ≠ 0).card ≤ req.npar.toNat / 2 := by
  rw [filter_congr fun p _ => damage_ne_zero]
  exact hdamage c hc

include hnone in
theorem column_final_none (acc : Nat → Gf16) (c : Nat) :
    column_final m req acc c = column_decode req (column_error m req acc c) [] := by
  have hscan : erasure_scan m req c = [] := if_pos hnone
  rw [column_final, column_first, hscan, if_neg fun h => h.2 rfl]

include hacc hparity hdamage in
/-- **One damaged column** decodes to the damage. -/
theorem column_decode_damage {c : Nat} (hc : c < req.S) :
    (column_decode req (column_error m req (pass1 kernel m req).acc c) []).corrections =
        wordErrata req.sc (damage m req P c) ∧
      (column_decode req (column_error m req (pass1 kernel m req).acc c) []).n =
        (wordErrata req.sc (damage m req P c)).length := by
  have hargs : DecodeArgs req.npar.toNat req.sc none 0 :=
    ⟨hacc.npar_pos, hacc.npar_le, hacc.sc_pos, hacc.sc_le, fun h => absurd rfl h,
      fun i hi => absurd hi (Nat.not_lt_zero i)⟩
  have hset : errorSet req.sc 0 (erasure_at none) (damage m req P c) =
      (range req.sc).filter fun p => damage m req P c p ≠ 0 :=
    filter_congr fun p _ => by simp [erasureList]
  have hcard := card_damage_le (m := m) hdamage hc
  have hcap : 0 + 2 * (errorSet req.sc 0 (erasure_at none) (damage m req P c)).card ≤
      req.npar.toNat := by
    rw [hset]
    omega
  have hout : (wordErrata req.sc (damage m req P c)).length ≤ ADSC_RS16_MAX_NPAR + 1 := by
    have := hacc.npar_le
    rw [length_wordErrata]
    show _ ≤ 33
    omega
  have hdec := adsc_rs16_decode_word hargs List.nodup_nil
    (column_error_damage hacc kernel hparity hc) hcap (fun _ => 0) (fun _ => 0) hout
  have hcol : column_decode req (column_error m req (pass1 kernel m req).acc c) [] =
      ⟨(wordErrata req.sc (damage m req P c)).length,
        writeList ((wordErrata req.sc (damage m req P c)).map Prod.fst) fun _ => 0,
        writeList ((wordErrata req.sc (damage m req P c)).map Prod.snd) fun _ => 0⟩ := by
    unfold column_decode
    rw [if_neg (not_not.2 List.length_nil), List.length_nil, hdec]
    rfl
  rw [hcol]
  exact ⟨map_range_writeList _, rfl⟩

include hacc hparity hdamage in
/-- A clean column is undamaged, and a dirty one is not refused. -/
theorem dirty_iff_damage {c : Nat} (hc : c < req.S) :
    Dirty m req (pass1 kernel m req).acc c ↔ wordErrata req.sc (damage m req P c) ≠ [] := by
  have hsyn := column_error_damage hacc kernel hparity hc
  constructor
  · rintro ⟨r, hr, hne⟩ hnil
    refine hne ((hsyn r hr).trans (sum_eq_zero fun p hp => ?_))
    have h0 : damage m req P c p = 0 := by
      by_contra h
      have := mem_wordErrata.2 (show (p, damage m req P c p).1 < req.sc ∧ _ ∧ _ from
        ⟨mem_range.1 hp, h, rfl⟩)
      rw [hnil] at this
      cases this
    rw [h0, zero_mul]
  · intro hne
    by_contra hd
    obtain ⟨e, he⟩ := List.exists_mem_of_ne_nil _ hne
    obtain ⟨hlt, hne, -⟩ := mem_wordErrata.1 he
    have hcard := card_damage_le (m := m) hdamage hc
    have hset : errorSet req.sc 0 (fun _ => 0) (damage m req P c) =
        (range req.sc).filter fun p => damage m req P c p ≠ 0 :=
      filter_congr fun p _ => by simp [erasureList]
    refine hne (word_eq_zero hacc.sc_le (fun i (hi : i < 0) => absurd hi (Nat.not_lt_zero i))
      List.nodup_nil hsyn (by rw [hset]; omega) (fun r hr => ?_) hlt)
    by_contra h
    exact hd ⟨r, hr, h⟩

include hacc hnone hparity hdamage in
theorem columnCorrections_damage {c : Nat} (hc : c < req.S) :
    columnCorrections m req (pass1 kernel m req).acc c = wordErrata req.sc (damage m req P c) := by
  unfold columnCorrections
  split
  · rw [column_final_none hnone]
    exact (column_decode_damage hacc kernel hparity hdamage hc).1
  · rename_i hd
    rw [dirty_iff_damage hacc kernel hparity hdamage hc, not_not] at hd
    exact hd.symm

include hacc hnone hparity hdamage in
/-- The counters of a run on a repairable image. -/
theorem pass2_damage {st : Pass2} (hinv : Pass2Inv m req (pass1 kernel m req).acc req.S st) :
    st.refused = 0 ∧ st.unverified = 0 := by
  rw [hinv.refused, hinv.unverified, List.countP_eq_zero, List.countP_eq_zero]
  constructor
  · intro c hc hbad
    have hc := List.mem_range.1 hc
    obtain ⟨hd, hn⟩ := of_decide_eq_true hbad
    rw [column_final_none hnone, (column_decode_damage hacc kernel hparity hdamage hc).2] at hn
    exact (dirty_iff_damage hacc kernel hparity hdamage hc).1 hd
      (List.eq_nil_of_length_eq_zero (by omega))
  · intro c _ hdet
    have hscan : erasure_scan m req c = [] := if_pos hnone
    have h : (erasure_scan m req c).length = req.npar.toNat := (of_decide_eq_true hdet).2.2
    rw [hscan, List.length_nil] at h
    exact absurd h hacc.npar_pos.ne

include hacc hnone hparity hdamage in
/-- The output's codeword words are the original's. -/
theorem repaired_original (out_pcm : Nat) {c p : Nat} (hc : c < req.S) (hp : p < req.sc) :
    load16 (repaired m req (pass1 kernel m req).acc out_pcm) (out_pcm + 2 * req.word c p) =
      load16 P (2 * req.word c p) := by
  have h := repaired_word m (pass1 kernel m req).acc out_pcm hacc hc hp
  rw [columnCorrections_damage hacc kernel hnone hparity hdamage hc, errAt_wordErrata _ hp, damage,
    ← add_assoc, CharTwo.add_self_eq_zero, zero_add] at h
  have hbits := congrArg BinField.bits h
  rwa [wordAt, wordAt, Nat.zero_add] at hbits

/-- Counting a grid by columns. -/
theorem card_grid (Q : Nat → Prop) [DecidablePred Q] (S n : Nat) :
    ∑ c ∈ range S, ((range n).filter fun p => Q (c + p * S)).card =
      ((range (n * S)).filter Q).card := by
  simp only [card_filter]
  rw [sum_comm]
  induction n with
  | zero => simp
  | succ n ih =>
    rw [sum_range_succ, ih, Nat.succ_mul, sum_range_add]
    simp only [Nat.add_comm]

include hacc hnone hparity hdamage in
/-- The corrections held are as many as the damaged words. -/
theorem length_fixes_damage {st : Pass2}
    (hinv : Pass2Inv m req (pass1 kernel m req).acc req.S st) :
    st.fixes.length = ((range (req.sc * req.S)).filter fun k =>
      load16 m (req.pcm + 2 * (req.first.toNat + k)) ≠ load16 P (2 * (req.first.toNat + k))).card := by
  rw [hinv.fixes, List.length_flatMap, ← card_grid, ← List.sum_toFinset _ List.nodup_range,
    List.toFinset_range]
  refine sum_congr rfl fun c hc => ?_
  rw [columnFixes, List.length_map,
    columnCorrections_damage hacc kernel hnone hparity hdamage (mem_range.1 hc), length_wordErrata,
    filter_congr fun p _ => damage_ne_zero]
  simp only [word_eq hacc, Nat.add_assoc]

/-- Equal words have equal bytes. -/
theorem byte_of_load16 {m m' : Mem} {a b w : Nat} (h : load16 m (a + 2 * w) = load16 m' (b + 2 * w))
    {i : Nat} (hi : i / 2 = w) : m (a + i) = m' (b + i) := by
  rcases Nat.mod_two_eq_zero_or_one i with h2 | h2
  · have h0 := congrArg (fun x : BitVec 16 => x.setWidth 8) h
    simp only [load16, setWidth_append] at h0
    rwa [show i = 2 * w by omega]
  · have h1 := congrArg (fun x : BitVec 16 => (x >>> 8).setWidth 8) h
    simp only [load16, shiftRight_append] at h1
    rwa [show i = 2 * w + 1 by omega]

/-- Every word of the region is a grid word. -/
theorem exists_word (hacc : Accepted req) {w : Nat} (h1 : req.first.toNat ≤ w)
    (h2 : w < req.first.toNat + req.sc * req.S) :
    ∃ c < req.S, ∃ p < req.sc, req.word c p = w := by
  have hS := hacc.S_pos
  refine ⟨(w - req.first.toNat) % req.S, Nat.mod_lt _ hS, (w - req.first.toNat) / req.S,
    (Nat.div_lt_iff_lt_mul hS).2 (by omega), ?_⟩
  have := Nat.mod_add_div' (w - req.first.toNat) req.S
  rw [word_eq hacc]
  omega

end

/-- **The repair restores the original**: when every column is damaged in at most half as many rows as
there are parity symbols, the output is the original on the codeword region and the input elsewhere. -/
theorem accudisc_ctdb_repair_restores {env : CtdbEnv} {m P : Mem} {req : CtdbReq} {out_pcm : Nat}
    {report : Option CtdbReport} (hvalid : ctdb_validate req out_pcm report = .ok ())
    (halloc : env.acc ∧ env.fixes) (hnone : req.pcm_erasures = 0)
    (hparity : ∀ c < req.S, ∀ r < req.npar.toNat, published m req c r = regionSyndrome P req 0 c r)
    (hdamage : ∀ c < req.S, ((range req.sc).filter fun p =>
      load16 m (req.pcm + 2 * req.word c p) ≠ load16 P (2 * req.word c p)).card ≤
        req.npar.toNat / 2) :
    let res := accudisc_ctdb_repair env m (some req) out_pcm report
    res.1 = ACCUDISC_OK ∧
    (∀ i < req.pcm_bytes.toNat, res.2.1 (out_pcm + i) =
      if req.first.toNat ≤ i / 2 ∧ i / 2 < req.first.toNat + req.sc * req.S then P i
      else m (req.pcm + i)) ∧
    ∀ r, res.2.2 = some r →
      r.corrections.toNat = ((range (req.sc * req.S)).filter fun k =>
        load16 m (req.pcm + 2 * (req.first.toNat + k)) ≠ load16 P (2 * (req.first.toNat + k))).card ∧
      r.crc32_after.toBitVec = regionCrc P req 0 := by
  have hacc := accepted_of_validate hvalid
  have hcall : accudisc_ctdb_repair env m (some req) out_pcm report =
      ctdb_run env.kernel m req out_pcm report := by
    simp only [accudisc_ctdb_repair, hvalid, halloc, and_self, not_true_eq_false, if_false]
  obtain ⟨st, hinv, hrun⟩ := ctdb_run_eq hacc env.kernel (m := m) out_pcm report
  obtain ⟨hrefused, hunverified⟩ := pass2_damage hacc env.kernel hnone hparity hdamage hinv
  -- the output inside and outside the region
  have hin : ∀ i, req.first.toNat ≤ i / 2 → i / 2 < req.first.toNat + req.sc * req.S →
      repaired m req (pass1 env.kernel m req).acc out_pcm (out_pcm + i) = P i := by
    intro i h1 h2
    obtain ⟨c, hc, p, hp, hw⟩ := exists_word hacc h1 h2
    have h := repaired_original hacc env.kernel hnone hparity hdamage out_pcm hc hp
    have hb := byte_of_load16 (b := 0) (h.trans (by rw [Nat.zero_add])) hw.symm
    rwa [Nat.zero_add] at hb
  have hcrc : regionCrc (repaired m req (pass1 env.kernel m req).acc out_pcm) req out_pcm =
      regionCrc P req 0 := by
    rw [regionCrc, regionCrc]
    congr 1
    refine crcBytes_congr (fun i hi => ?_) _
    rw [Nat.add_assoc, Nat.zero_add]
    exact hin _ (by omega) (by omega)
  intro res
  rw [show res = _ from hcall.trans hrun, if_neg (not_not.2 hrefused),
    if_neg (not_not.2 hunverified)]
  refine ⟨rfl, fun i hi => ?_, fun r hr => ?_⟩
  · split
    · rename_i h
      exact hin i h.1 h.2
    · rename_i h
      refine repaired_frame hi fun c hc e he hw => h ?_
      have hlt := word_lt hacc hc (lt_columnCorrections he)
      rw [word_eq hacc] at hw hlt
      omega
  · obtain ⟨r0, -, rfl⟩ := Option.map_eq_some_iff.1 hr
    have hlen := length_fixes_damage hacc env.kernel hnone hparity hdamage hinv
    have hcap := hacc.cap
    have hle : st.fixes.length ≤ req.fix_cap := by
      rw [hinv.fixes]
      exact length_fixes_le m req _ req.S
    refine ⟨?_, hcrc⟩
    simp only [fill_report, hrefused]
    rw [if_neg (not_not.2 rfl), UInt32.toNat_ofNat', Nat.mod_eq_of_lt (by omega), hlen]

/-- One frame with 392 columns of one row each. -/
def oneFrame : CtdbReq where
  size := 72
  npar := 2
  wire_stride := 196
  image_first_frame := 0
  image_frames := 1
  offset_pairs := 0
  pcm := 10000
  pcm_bytes := 2352
  parity := 20000
  parity_bytes := 1568
  pcm_erasures := 0
  pcm_erasures_bytes := 0

def silence : Mem := fun _ => 0

/-- Silence with one bit set in word 400 of `oneFrame`. -/
def oneBit : Mem := fun a => if a = 10800 then 1 else 0

/-- The scalar kernel, with memory to spare. -/
def scalarEnv : CtdbEnv := ⟨⟨false, true, none⟩, true, true⟩

/-- One damaged word of silence, repaired in place. -/
theorem accudisc_ctdb_repair_restores_silence :
    let res := accudisc_ctdb_repair scalarEnv oneBit (some oneFrame) oneFrame.pcm none
    res.1 = ACCUDISC_OK ∧
    (∀ i < oneFrame.pcm_bytes.toNat, res.2.1 (oneFrame.pcm + i) =
      if oneFrame.first.toNat ≤ i / 2 ∧ i / 2 < oneFrame.first.toNat + oneFrame.sc * oneFrame.S then
        silence i
      else oneBit (oneFrame.pcm + i)) ∧
    ∀ r, res.2.2 = some r →
      r.corrections.toNat = ((range (oneFrame.sc * oneFrame.S)).filter fun k =>
        load16 oneBit (oneFrame.pcm + 2 * (oneFrame.first.toNat + k)) ≠
          load16 silence (2 * (oneFrame.first.toNat + k))).card ∧
      r.crc32_after.toBitVec = regionCrc silence oneFrame 0 := by
  have hvalid : ctdb_validate oneFrame oneFrame.pcm none = .ok () := by decide +kernel
  refine accudisc_ctdb_repair_restores hvalid ⟨rfl, rfl⟩ rfl (fun c _ r _ => ?_)
    fun c _ => (card_filter_le _ _).trans (by rw [card_range]; decide)
  have hpub : published oneBit oneFrame c r = 0 := by
    have h : ∀ a, 20000 ≤ a → oneBit a = 0 := fun a ha => if_neg (by omega)
    rw [published, wordAt, load16, h _ (by simp only [oneFrame]; omega),
      h _ (by simp only [oneFrame]; omega)]
    rfl
  have hz : ∀ w, wordAt silence 0 w = 0 := fun w => by
    show symbol ((0 : BitVec 8) ++ (0 : BitVec 8)) = 0
    rfl
  rw [hpub, regionSyndrome, columnSyndrome, sum_eq_zero fun p _ => by rw [hz, zero_mul]]

end Accudisc
