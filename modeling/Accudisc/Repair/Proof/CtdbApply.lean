import Accudisc.Repair.Proof.CtdbPass2

/-!
# What the corrections leave in the output

* `ctdb_apply_word`, `ctdb_apply_frame`: the write loop changes the corrected words and nothing else.
* `repaired_word`: each codeword word of the output is the input's plus its column's correction, so
  the output's syndromes are the published ones (`repaired_syndrome`).
-/

namespace Accudisc

open Finset

/-! ## The write loop -/

theorem ctdb_apply_cons (m : Mem) (out : Nat) (f : Nat × BitVec 16) (fs : List (Nat × BitVec 16)) :
    ctdb_apply m out (f :: fs) = ctdb_apply (store16 m (out + 2 * f.1) f.2) out fs := rfl

/-- Bytes of no corrected word stay. -/
theorem ctdb_apply_frame {out i : Nat} {fixes : List (Nat × BitVec 16)}
    (h : ∀ f ∈ fixes, f.1 ≠ i / 2) (m : Mem) : ctdb_apply m out fixes (out + i) = m (out + i) := by
  induction fixes generalizing m with
  | nil => rfl
  | cons f fs ih =>
    have hf := h f List.mem_cons_self
    rw [ctdb_apply_cons, ih fun g hg => h g (List.mem_cons_of_mem f hg), store16,
      Function.update_of_ne (by omega), Function.update_of_ne (by omega)]

theorem ctdb_apply_word_frame {out w : Nat} {fixes : List (Nat × BitVec 16)}
    (h : ∀ f ∈ fixes, f.1 ≠ w) (m : Mem) :
    load16 (ctdb_apply m out fixes) (out + 2 * w) = load16 m (out + 2 * w) := by
  rw [load16, Nat.add_assoc, ctdb_apply_frame (i := 2 * w + 1) (fun f hf => by
      have := h f hf; omega), ctdb_apply_frame (fun f hf => by have := h f hf; omega)]
  rfl

/-- A corrected word has its new value, as long as no two corrections of it differ. -/
theorem ctdb_apply_word {out w : Nat} {v : BitVec 16} {fixes : List (Nat × BitVec 16)}
    (hcons : ∀ f ∈ fixes, f.1 = w → f.2 = v) (h : (w, v) ∈ fixes) (m : Mem) :
    load16 (ctdb_apply m out fixes) (out + 2 * w) = v := by
  induction fixes generalizing m with
  | nil => cases h
  | cons f fs ih =>
    rw [ctdb_apply_cons]
    by_cases hin : (w, v) ∈ fs
    · exact ih (fun g hg => hcons g (List.mem_cons_of_mem f hg)) hin _
    · have hf : f = (w, v) := ((List.mem_cons.1 h).resolve_right hin).symm
      rw [ctdb_apply_word_frame, hf, load16_store16]
      intro g hg hgw
      exact hin (by rw [← hgw, ← hcons g (List.mem_cons_of_mem f hg) hgw]; exact hg)

/-- The output before the corrections. -/
def ctdb_copy (m : Mem) (req : CtdbReq) (out_pcm : Nat) : Mem :=
  if out_pcm ≠ req.pcm then memmove m out_pcm req.pcm req.pcm_bytes.toNat else m

theorem ctdb_copy_byte (m : Mem) (req : CtdbReq) (out_pcm : Nat) {i : Nat}
    (h : i < req.pcm_bytes.toNat) : ctdb_copy m req out_pcm (out_pcm + i) = m (req.pcm + i) := by
  unfold ctdb_copy
  split
  · rw [memmove, if_pos (by omega), Nat.add_sub_cancel_left]
  · rename_i h'
    rw [not_not.1 h']

theorem ctdb_copy_word (m : Mem) (req : CtdbReq) (out_pcm : Nat) {w : Nat} (h : w < req.pcm_words) :
    load16 (ctdb_copy m req out_pcm) (out_pcm + 2 * w) = load16 m (req.pcm + 2 * w) := by
  have hb : 2 * w + 1 < req.pcm_bytes.toNat := by
    rw [CtdbReq.pcm_words] at h
    omega
  rw [load16, Nat.add_assoc, ctdb_copy_byte m req out_pcm hb, ctdb_copy_byte m req out_pcm (by omega)]
  rfl

/-! ## Corrections as an error word -/

/-- The symbol that a list of corrections adds at row `p`. -/
def errAt (cs : List (Nat × Gf16)) (p : Nat) : Gf16 := (cs.map fun e => if e.1 = p then e.2 else 0).sum

theorem errAt_of_not_mem {cs : List (Nat × Gf16)} {p : Nat} (h : ∀ e ∈ cs, e.1 ≠ p) :
    errAt cs p = 0 := by
  refine List.sum_eq_zero fun x hx => ?_
  obtain ⟨e, he, rfl⟩ := List.mem_map.1 hx
  exact if_neg (h e he)

theorem errAt_of_mem {cs : List (Nat × Gf16)} (hasc : cs.Pairwise fun a b => a.1 < b.1)
    {e : Nat × Gf16} (he : e ∈ cs) : errAt cs e.1 = e.2 := by
  induction cs with
  | nil => cases he
  | cons f cs ih =>
    obtain ⟨hf, hasc⟩ := List.pairwise_cons.1 hasc
    have hcons : errAt (f :: cs) e.1 = (if f.1 = e.1 then f.2 else 0) + errAt cs e.1 := rfl
    rw [hcons]
    rcases List.mem_cons.1 he with rfl | he
    · rw [if_pos rfl, errAt_of_not_mem fun g hg => (hf g hg).ne', add_zero]
    · rw [if_neg (hf e he).ne, zero_add, ih hasc he]

/-- The error word's sum is the corrections' sum. -/
theorem sum_errAt {cs : List (Nat × Gf16)} {n : Nat} (hlt : ∀ e ∈ cs, e.1 < n) (w : Nat → Gf16) :
    ∑ p ∈ range n, errAt cs p * w p = (cs.map fun e => e.2 * w e.1).sum := by
  induction cs with
  | nil => exact sum_eq_zero fun p _ => zero_mul _
  | cons e cs ih =>
    have hcons : ∀ p, errAt (e :: cs) p = (if e.1 = p then e.2 else 0) + errAt cs p := fun _ => rfl
    simp only [hcons, add_mul, sum_add_distrib]
    rw [ih fun g hg => hlt g (List.mem_cons_of_mem e hg), List.map_cons, List.sum_cons]
    congr 1
    rw [sum_eq_single e.1]
    · rw [if_pos rfl]
    · intro p _ hp
      rw [if_neg hp.symm, zero_mul]
    · exact fun h => absurd (mem_range.2 (hlt e List.mem_cons_self)) h

/-! ## The output's columns -/

section
variable {m : Mem} {req : CtdbReq} {acc : Nat → Gf16} {out_pcm : Nat}

/-- All corrections, in the order they are held. -/
def allFixes (m : Mem) (req : CtdbReq) (acc : Nat → Gf16) : List (Nat × BitVec 16) :=
  (List.range req.S).flatMap (columnFixes m req acc)

theorem mem_allFixes {f : Nat × BitVec 16} : f ∈ allFixes m req acc ↔
    ∃ c < req.S, ∃ e ∈ columnCorrections m req acc c, f = (req.word c e.1,
      load16 m (req.pcm + 2 * req.word c e.1) ^^^ e.2.bits) := by
  simp only [allFixes, columnFixes, List.mem_flatMap, List.mem_range, List.mem_map, eq_comm]

/-- The output the call writes. -/
def repaired (m : Mem) (req : CtdbReq) (acc : Nat → Gf16) (out_pcm : Nat) : Mem :=
  ctdb_apply (ctdb_copy m req out_pcm) out_pcm (allFixes m req acc)

variable (hacc : Accepted req)

theorem fits_word {c p : Nat} (hacc : Accepted req) (hc : c < req.S) (hp : p < req.sc) :
    req.word c p < req.pcm_words := (word_lt hacc hc hp).trans_le hacc.fits

variable (m acc out_pcm) in
include hacc in
/-- **A codeword word of the output** is the input's plus its column's correction. -/
theorem repaired_word {c p : Nat} (hc : c < req.S) (hp : p < req.sc) :
    wordAt (repaired m req acc out_pcm) out_pcm (req.word c p) =
      wordAt m req.pcm (req.word c p) + errAt (columnCorrections m req acc c) p := by
  have hw := fits_word hacc hc hp
  -- a correction of this word is one of this row of this column
  have hown : ∀ c' < req.S, ∀ e ∈ columnCorrections m req acc c', req.word c' e.1 = req.word c p →
      c' = c ∧ e.1 = p := by
    intro c' hc' e _ h
    rw [word_eq hacc, word_eq hacc] at h
    exact grid_inj hc' hc h
  by_cases h : ∃ e ∈ columnCorrections m req acc c, e.1 = p
  · obtain ⟨e, he, rfl⟩ := h
    rw [errAt_of_mem (asc_columnCorrections c) he, wordAt, repaired,
      ctdb_apply_word (v := load16 m (req.pcm + 2 * req.word c e.1) ^^^ e.2.bits)]
    · rfl
    · intro f hf hfw
      obtain ⟨c', hc', e', he', rfl⟩ := mem_allFixes.1 hf
      obtain ⟨rfl, hp'⟩ := hown c' hc' e' he' hfw
      dsimp only
      rw [hp', ← errAt_of_mem (asc_columnCorrections c') he',
        ← errAt_of_mem (asc_columnCorrections c') he, hp']
    · exact mem_allFixes.2 ⟨c, hc, e, he, rfl⟩
  · rw [errAt_of_not_mem fun e he hep => h ⟨e, he, hep⟩, add_zero, wordAt, repaired,
      ctdb_apply_word_frame, ctdb_copy_word m req out_pcm hw, wordAt]
    intro f hf hfw
    obtain ⟨c', hc', e', he', rfl⟩ := mem_allFixes.1 hf
    obtain ⟨rfl, hp'⟩ := hown c' hc' e' he' hfw
    exact h ⟨e', he', hp'⟩

/-- A byte of the output that no correction covers is the input's. -/
theorem repaired_frame {i : Nat} (hi : i < req.pcm_bytes.toNat)
    (h : ∀ c < req.S, ∀ e ∈ columnCorrections m req acc c, req.word c e.1 ≠ i / 2) :
    repaired m req acc out_pcm (out_pcm + i) = m (req.pcm + i) := by
  rw [repaired, ctdb_apply_frame, ctdb_copy_byte m req out_pcm hi]
  intro f hf
  obtain ⟨c, hc, e, he, rfl⟩ := mem_allFixes.1 hf
  exact h c hc e he

/-- The syndromes of column `c` of the words at `base`. -/
def regionSyndrome (m : Mem) (req : CtdbReq) (base c r : Nat) : Gf16 :=
  columnSyndrome (wordAt m base) (req.first.toNat + c) req.S req.sc r

/-- The published syndrome. -/
def published (m : Mem) (req : CtdbReq) (c r : Nat) : Gf16 := wordAt m req.parity (r * req.S + c)

theorem regionSyndrome_eq (hacc : Accepted req) (m : Mem) (base c r : Nat) :
    regionSyndrome m req base c r =
      ∑ p ∈ range req.sc, wordAt m base (req.word c p) * alpha ^ (r * (req.sc - 1 - p)) := by
  simp only [word_eq hacc]
  rfl

variable (m acc out_pcm) in
include hacc in
/-- **The output's syndromes** are the input's plus what the column's corrections add. -/
theorem repaired_syndrome {c : Nat} (hc : c < req.S) (r : Nat) :
    regionSyndrome (repaired m req acc out_pcm) req out_pcm c r =
      regionSyndrome m req req.pcm c r +
        ((columnCorrections m req acc c).map fun e => e.2 * alpha ^ (r * (req.sc - 1 - e.1))).sum := by
  rw [regionSyndrome_eq hacc, regionSyndrome_eq hacc,
    ← sum_errAt (fun e he => lt_columnCorrections he) fun p => alpha ^ (r * (req.sc - 1 - p)),
    ← sum_add_distrib]
  refine sum_congr rfl fun p hp => ?_
  rw [repaired_word m acc out_pcm hacc hc (mem_range.1 hp), add_mul]

end

end Accudisc
