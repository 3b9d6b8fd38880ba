import Accudisc.Repair.Ctdb
import Accudisc.Repair.Proof.Rs16Word
import Accudisc.Repair.Proof.SweepAvx2

/-!
# The grid and one column's decode

* `Accepted`, `accepted_of_validate`: what the checks leave of the geometry.
* `ColumnFix`: the corrections of one column; every decode that returns some gives a list that satisfies it
  (`column_decode_spec`), with or without the erasures (`column_final_spec`).
-/

namespace Accudisc

open Finset

/-! ## Geometry -/

/-- The geometry the checks accept. -/
structure Accepted (req : CtdbReq) : Prop where
  npar_pos : 0 < req.npar.toNat
  npar_le : req.npar.toNat ≤ 32
  S_pos : 0 < req.S
  sc_pos : 0 < req.sc
  sc_le : req.sc ≤ ADSC_GF16_ORDER
  first_nonneg : 0 ≤ req.first
  fits : req.first.toNat + req.sc * req.S ≤ req.pcm_words
  cap : req.fix_cap ≤ 0xFFFFFFFF

theorem uint32_toNat_pos {x : UInt32} (h : x ≠ 0) : 0 < x.toNat := by
  rcases Nat.eq_zero_or_pos x.toNat with h0 | h0
  · exact absurd (UInt32.toNat_inj.1 h0) h
  · exact h0

theorem accepted_of_validate {req : CtdbReq} {out_pcm : Nat} {report : Option CtdbReport}
    (h : ctdb_validate req out_pcm report = .ok ()) : Accepted req := by
  simp only [ctdb_validate, check_eq_ok] at h
  obtain ⟨-, -, -, -, -, hnpar, hstride, -, -, hrows, -, hwin, -, hcap, -⟩ := h
  have hn := uint32_toNat_pos fun h0 => hnpar (.inl h0)
  have hS := uint32_toNat_pos fun h0 => hstride (.inl h0)
  have hmax : ADSC_RS16_MAX_NPAR = 32 := rfl
  have hsc : req.sc = req.W / req.S - 2 := rfl
  have hlast : req.last = req.first + req.sc * req.S - 1 := rfl
  refine ⟨hn, by omega, by rw [CtdbReq.S]; omega, by omega, by omega, by omega, ?_, by omega⟩
  have hmul : ((req.sc * req.S : Nat) : Int) = (req.sc : Int) * req.S := Nat.cast_mul _ _
  omega

theorem validate_error {req : CtdbReq} {out_pcm : Nat} {report : Option CtdbReport} {rc : Int}
    (h : ctdb_validate req out_pcm report = .error rc) : rc < 0 := by
  unfold ctdb_validate at h
  have hinval : ACCUDISC_ERR_INVAL < 0 := by decide
  have habi : ACCUDISC_ERR_ABI < 0 := by decide
  -- each check's code is negative
  refine check_error (P := (· < 0)) h hinval fun h => ?_
  refine check_error (P := (· < 0)) h habi fun h => check_error (P := (· < 0)) h habi fun h => ?_
  iterate 11 refine check_error (P := (· < 0)) h hinval fun h => ?_
  cases h

section
variable {req : CtdbReq} (hacc : Accepted req)
include hacc

/-- Row `p` of column `c`, from the region's first word. -/
theorem word_eq (c p : Nat) : req.word c p = req.first.toNat + c + p * req.S := by
  have h0 := hacc.first_nonneg
  have hfirst : req.first = req.base + req.S + req.delta := rfl
  have hmul : ((p * req.S : Nat) : Int) = (p : Int) * req.S := Nat.cast_mul _ _
  rw [CtdbReq.word]
  omega

omit hacc in
/-- The rows' words are distinct. -/
theorem grid_inj {S c c' p p' a : Nat} (hc : c < S) (hc' : c' < S)
    (h : a + c + p * S = a + c' + p' * S) : c = c' ∧ p = p' := by
  have hp : p = p' := (mem_plane hc).1 ⟨by omega, by omega⟩
  subst hp
  exact ⟨by omega, rfl⟩

theorem word_lt {c p : Nat} (hc : c < req.S) (hp : p < req.sc) :
    req.word c p < req.first.toNat + req.sc * req.S := by
  have := Nat.mul_le_mul_right req.S (show p + 1 ≤ req.sc from hp)
  rw [Nat.succ_mul] at this
  rw [word_eq hacc]
  omega

end

/-! ## One column -/

/-- The corrections of one column. -/
structure ColumnFix (req : CtdbReq) (E : Nat → Gf16) (cs : List (Nat × Gf16)) : Prop where
  asc : cs.Pairwise fun a b => a.1 < b.1
  lt : ∀ e ∈ cs, e.1 < req.sc
  syn : ∀ r < req.npar.toNat,
    (cs.map fun e => e.2 * alpha ^ (r * (req.sc - 1 - e.1))).sum = E r
  length_le : cs.length ≤ req.npar.toNat

/-- The corrections that a decode holds. -/
def ColumnDecode.corrections (d : ColumnDecode) : List (Nat × Gf16) :=
  (List.range d.n.toNat).map fun i => (d.positions i, d.values i)

/-- No more corrections than the parity has symbols. -/
theorem Corrects.length_le {npar n_data ne : Nat} {E : Nat → Gf16} {era : Nat → Nat}
    {cs : List (Nat × Gf16)} (h : Corrects npar n_data ne E era cs) : cs.length ≤ npar := by
  have hsplit := List.length_eq_countP_add_countP (fun e => decide (e.1 ∈ erasureList era ne)) (l := cs)
  have hnot : cs.countP (fun e => decide ¬(decide (e.1 ∈ erasureList era ne) = true)) =
      cs.countP (fun e => e.1 ∉ erasureList era ne) := List.countP_congr fun e _ => by simp
  have hin : cs.countP (fun e => decide (e.1 ∈ erasureList era ne)) ≤ ne := by
    have hlen : (erasureList era ne).length = ne := by simp [erasureList]
    rw [List.countP_eq_length_filter, ← List.length_map (f := Prod.fst)]
    refine (List.Nodup.subperm ?_ fun p hp => ?_).length_le.trans hlen.le
    · rw [List.Nodup, List.pairwise_map]
      exact (h.asc.filter _).imp fun hab => hab.ne
    · obtain ⟨e, he, rfl⟩ := List.mem_map.1 hp
      simpa using (List.mem_filter.1 he).2
  have := h.cap
  omega

theorem map_range_writeList (cs : List (Nat × Gf16)) :
    ((List.range cs.length).map fun i => (writeList (cs.map Prod.fst) (fun _ => 0) i,
      writeList (cs.map Prod.snd) (fun _ => 0) i)) = cs := by
  refine List.ext_getElem (by simp) fun i h1 h2 => ?_
  rw [List.getElem_map, List.getElem_range, writeList_fst _ h2, writeList_snd _ h2]

section
variable {req : CtdbReq} (hacc : Accepted req) (E : Nat → Gf16) (erasures : List Nat)

/-- **A decode that returns corrections**: they correct the column. -/
theorem column_decode_spec (h : 0 < (column_decode req E erasures).n) :
    ColumnFix req E (column_decode req E erasures).corrections := by
  have hdec := adsc_rs16_decode_decoded req.npar.toNat E req.sc
    (if erasures.length ≠ 0 then some fun i => erasures.getD i 0 else none) erasures.length
    (fun _ => 0) (fun _ => 0) (ADSC_RS16_MAX_NPAR + 1)
  unfold column_decode at h ⊢
  generalize adsc_rs16_decode _ _ _ _ _ _ _ _ = out at hdec h ⊢
  cases hdec with
  | refused hrc => exact absurd h (by dsimp only; omega)
  | clean _ => exact absurd h (by dsimp only; omega)
  | @corrected cs hcs _ =>
    have hcorr : (⟨(cs.length : Int), writeList (cs.map Prod.fst) fun _ => 0,
        writeList (cs.map Prod.snd) fun _ => 0⟩ : ColumnDecode).corrections = cs :=
      map_range_writeList cs
    dsimp only [Option.getD_some]
    rw [hcorr]
    exact ⟨hcs.asc, hcs.lt, hcs.syn, hcs.length_le⟩

end

end Accudisc
