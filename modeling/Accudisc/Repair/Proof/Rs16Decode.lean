import Accudisc.Repair.Proof.Rs16Errata

/-!
# `adsc_rs16_decode` is sound

`Corrects` is what a list of corrections has to satisfy: ascending non-zero symbols that reproduce the
syndromes within the capacity. Whatever the syndromes, found errata correct them (`Found.corrects`).
-/

namespace Accudisc

open Polynomial Finset ErrorLocator

/-- The data indices of the erasure list. -/
def erasureList (era : Nat → Nat) (ne : Nat) : List Nat := (List.range ne).map era

theorem mem_erasureList {era : Nat → Nat} {ne j : Nat} :
    j ∈ erasureList era ne ↔ ∃ i < ne, era i = j := by simp [erasureList]

/-- The list `cs` of data indices and symbols corrects the syndromes `E`. -/
structure Corrects (npar n_data ne : Nat) (E : Nat → Gf16) (era : Nat → Nat)
    (cs : List (Nat × Gf16)) : Prop where
  asc : cs.Pairwise fun a b => a.1 < b.1
  lt : ∀ e ∈ cs, e.1 < n_data
  ne_zero : ∀ e ∈ cs, e.2 ≠ 0
  syn : ∀ r < npar, (cs.map fun e => e.2 * alpha ^ (r * (n_data - 1 - e.1))).sum = E r
  cap : ne + 2 * cs.countP (fun e => e.1 ∉ erasureList era ne) ≤ npar

theorem rootsBelow_lt {Λ : Gf16[X]} {n k : Nat} (h : k ∈ rootsBelow Λ n) : k < n :=
  (mem_rootsBelow.1 h).1

theorem nonzeroErrata_map (n_data : Nat) (roots : List Nat) (v : Nat → Gf16) :
    nonzeroErrata n_data (roots.map fun k => (k, v k)).reverse =
      ((roots.filter fun k => v k ≠ 0).map fun k => (n_data - 1 - k, v k)).reverse := by
  rw [nonzeroErrata, ← List.map_reverse, List.filter_map, List.map_map, ← List.map_reverse,
    ← List.filter_reverse]
  rfl

section
variable {npar n_data ne : Nat} {E : Nat → Gf16} {era : Nat → Nat}
  (hera : ∀ i < ne, era i < n_data) (hnd : (erasureList era ne).Nodup)

include hera in
/-- Every erasure is a root. -/
theorem isRoot_erasure (σ : Gf16[X]) {i : Nat} (hi : i < ne) :
    n_data - 1 - era i ∈ rootsBelow (σ * erasureLocator n_data ne era) n_data := by
  have := hera i hi
  rw [mem_rootsBelow]
  refine ⟨by omega, ?_⟩
  have h0 : (erasureLocator n_data ne era).eval (alpha ^ (n_data - 1 - era i))⁻¹ = 0 :=
    (eval_inv_locator (alpha_pow_ne_zero _)).2 ⟨i, mem_range.2 hi, rfl⟩
  rw [IsRoot, eval_mul, h0, mul_zero]

include hera hnd in
/-- The roots that are no erasures are no more than the recurrence's length. -/
theorem countP_roots_le {σ : Gf16[X]} {L : Nat}
    (hall : (rootsBelow (σ * erasureLocator n_data ne era) n_data).length = L + ne) :
    (rootsBelow (σ * erasureLocator n_data ne era) n_data).countP
      (fun k => n_data - 1 - k ∉ erasureList era ne) ≤ L := by
  generalize hR : rootsBelow (σ * erasureLocator n_data ne era) n_data = R at hall ⊢
  have hsplit := List.length_eq_countP_add_countP
    (fun k => decide (n_data - 1 - k ∈ erasureList era ne)) (l := R)
  have hle : ne ≤ R.countP fun k => decide (n_data - 1 - k ∈ erasureList era ne) := by
    have hlen : ((erasureList era ne).map fun j => n_data - 1 - j).length = ne := by
      simp [erasureList]
    refine hlen.symm.le.trans ?_
    rw [List.countP_eq_length_filter]
    refine (List.Nodup.subperm ?_ fun k hk => ?_).length_le
    · refine (List.nodup_map_iff_inj_on hnd).2 fun a ha b hb hab => ?_
      obtain ⟨i, hi, rfl⟩ := mem_erasureList.1 ha
      obtain ⟨j, hj, rfl⟩ := mem_erasureList.1 hb
      have := hera i hi
      have := hera j hj
      omega
    · obtain ⟨j, hj, rfl⟩ := List.mem_map.1 hk
      obtain ⟨i, hi, rfl⟩ := mem_erasureList.1 hj
      have hlt := hera i hi
      rw [List.mem_filter, ← hR]
      refine ⟨isRoot_erasure hera σ hi, ?_⟩
      rw [show n_data - 1 - (n_data - 1 - era i) = era i by omega]
      exact decide_eq_true (mem_erasureList.2 ⟨i, hi, rfl⟩)
  have heq : R.countP (fun k => n_data - 1 - k ∉ erasureList era ne) =
      R.countP (fun a => decide ¬(decide (n_data - 1 - a ∈ erasureList era ne) = true)) :=
    List.countP_congr fun k _ => by simp
  omega

/-- Dropping the zero magnitudes leaves the syndromes. -/
theorem sum_nonzero (R : List Nat) (v : Nat → Gf16) (w : Nat → Gf16) :
    (((R.filter fun k => v k ≠ 0).map fun k => v k * w k).sum) = (R.map fun k => v k * w k).sum := by
  induction R with
  | nil => rfl
  | cons k R ih =>
    by_cases hk : v k = 0
    · rw [List.filter_cons_of_neg (by simp [hk]), ih, List.map_cons, List.sum_cons, hk, zero_mul,
        zero_add]
    · rw [List.filter_cons_of_pos (by simp [hk]), List.map_cons, List.sum_cons, ih, List.map_cons,
        List.sum_cons]

theorem asc_nonzeroErrata {R : List Nat} (v : Nat → Gf16) (hasc : R.Pairwise (· < ·))
    (hlt : ∀ k ∈ R, k < n_data) :
    (nonzeroErrata n_data (R.map fun k => (k, v k)).reverse).Pairwise fun a b => a.1 < b.1 := by
  rw [nonzeroErrata_map, List.pairwise_reverse, List.pairwise_map]
  refine (hasc.filter _).imp_of_mem fun {i j} hi hj hij => ?_
  have := hlt j (List.mem_of_mem_filter hj)
  dsimp only
  omega

theorem mem_nonzeroErrata {R : List Nat} {v : Nat → Gf16} {e : Nat × Gf16} :
    e ∈ nonzeroErrata n_data (R.map fun k => (k, v k)).reverse ↔
      ∃ k ∈ R, v k ≠ 0 ∧ (n_data - 1 - k, v k) = e := by
  rw [nonzeroErrata_map, List.mem_reverse, List.mem_map]
  simp only [List.mem_filter, decide_eq_true_eq, and_assoc]

theorem corrects_of_roots {R : List Nat} {v : Nat → Gf16} (hasc : R.Pairwise (· < ·))
    (hlt : ∀ k ∈ R, k < n_data)
    (hver : ∀ r < npar, errata_syndrome (R.map fun k => (k, v k)) r = E r)
    (hcap : ne + 2 * R.countP (fun k => n_data - 1 - k ∉ erasureList era ne) ≤ npar) :
    Corrects npar n_data ne E era (nonzeroErrata n_data (R.map fun k => (k, v k)).reverse) := by
  refine ⟨asc_nonzeroErrata v hasc hlt, fun e he => ?_, fun e he => ?_, fun r hr => ?_, ?_⟩
  · obtain ⟨k, hk, -, rfl⟩ := mem_nonzeroErrata.1 he
    have := hlt k hk
    dsimp only
    omega
  · obtain ⟨k, -, hne, rfl⟩ := mem_nonzeroErrata.1 he
    exact hne
  · rw [nonzeroErrata_map, ← hver r hr, errata_syndrome_eq, List.map_reverse,
      List.sum_reverse, List.map_map,
      List.map_map]
    refine (congrArg List.sum (List.map_congr_left fun k hk => ?_)).trans
      (sum_nonzero R v fun k => alpha ^ (r * k))
    have := hlt k (List.mem_of_mem_filter hk)
    show v k * alpha ^ (r * (n_data - 1 - (n_data - 1 - k))) = _
    rw [show n_data - 1 - (n_data - 1 - k) = k by omega]
  · refine le_trans ?_ hcap
    rw [nonzeroErrata_map, List.countP_reverse, List.countP_map, List.countP_filter]
    refine Nat.add_le_add_left (Nat.mul_le_mul_left 2 (List.countP_mono_left fun k _ h => ?_)) ne
    simp only [Function.comp, Bool.and_eq_true, decide_eq_true_eq] at h ⊢
    exact h.1

include hera hnd in
/-- **Found errata correct the syndromes.** -/
theorem Found.corrects {st : Massey.State Gf16} {errata : List (Nat × Gf16)}
    (h : Found npar n_data ne E era st errata) :
    Corrects npar n_data ne E era (nonzeroErrata n_data errata.reverse) := by
  have hver := h.verified
  have hroots := countP_roots_le hera hnd h.all
  have hcap := h.cap
  rw [h.eq] at hver ⊢
  exact corrects_of_roots (List.pairwise_lt_range.filter _) (fun k => rootsBelow_lt) hver
    (by omega)

/-- A list that corrects syndromes that are not all zero is not empty. -/
theorem Corrects.ne_nil {cs : List (Nat × Gf16)} (h : Corrects npar n_data ne E era cs)
    (hE : ∃ r < npar, E r ≠ 0) : cs ≠ [] := by
  rintro rfl
  obtain ⟨r, hr, hne⟩ := hE
  exact hne (h.syn r hr).symm

end

/-! ## The call -/

/-- The arguments that pass the decoder's checks ahead of the clean test. -/
structure DecodeArgs (npar n_data : Nat) (erasures : Option (Nat → Nat)) (nerasures : Nat) :
    Prop where
  npar_pos : 0 < npar
  npar_le : npar ≤ ADSC_RS16_MAX_NPAR
  data_pos : 0 < n_data
  data_le : n_data ≤ ADSC_GF16_ORDER
  isSome : nerasures ≠ 0 → erasures.isSome
  lt : ∀ i < nerasures, erasure_at erasures i < n_data

/-- What a decode returns: it refuses, has nothing to do, or writes corrections. -/
inductive Decoded (npar : Nat) (E : Nat → Gf16) (n_data : Nat) (era : Nat → Nat) (ne : Nat)
    (pos : Nat → Nat) (val : Nat → Gf16) : Int × Option (Nat → Nat) × Option (Nat → Gf16) → Prop
  | refused {rc : Int} (h : rc < 0) : Decoded npar E n_data era ne pos val (rc, some pos, some val)
  | clean (h : ∀ r < npar, E r = 0) : Decoded npar E n_data era ne pos val (0, some pos, some val)
  | corrected {cs : List (Nat × Gf16)} (h : Corrects npar n_data ne E era cs)
      (hdirty : ∃ r < npar, E r ≠ 0) :
      Decoded npar E n_data era ne pos val (cs.length,
        some (writeList (cs.map Prod.fst) pos), some (writeList (cs.map Prod.snd) val))

open Classical in
/-- The call, with its checks as propositions and its output as a list. -/
theorem adsc_rs16_decode_eq (npar : Nat) (E : Nat → Gf16) (n_data : Nat)
    (erasures : Option (Nat → Nat)) (ne : Nat) (pos : Nat → Nat) (val : Nat → Gf16)
    (out_cap : Nat) :
    adsc_rs16_decode npar (some E) n_data erasures ne (some pos) (some val) out_cap =
      if ¬DecodeArgs npar n_data erasures ne then (ACCUDISC_ERR_INVAL, some pos, some val)
      else if ∀ r < npar, E r = 0 then (0, some pos, some val)
      else if npar < ne then (ACCUDISC_ERR_NOTFOUND, some pos, some val)
      else if ¬(erasureList (erasure_at erasures) ne).Nodup then
        (ACCUDISC_ERR_INVAL, some pos, some val)
      else
        match rs16_errata npar E n_data (erasure_at erasures) ne with
        | .error rc => (rc, some pos, some val)
        | .ok errata =>
          let cs := nonzeroErrata n_data errata.reverse
          if cs.length > out_cap then (ACCUDISC_ERR_INVAL, some pos, some val)
          else (cs.length, some (writeList (cs.map Prod.fst) pos),
            some (writeList (cs.map Prod.snd) val)) := by
  unfold adsc_rs16_decode
  dsimp only
  by_cases hargs : DecodeArgs npar n_data erasures ne
  · have hnull : ¬(ne ≠ 0 ∧ erasures.isNone = true) := fun h => by
      have := hargs.isSome h.1
      rw [Option.isNone_iff_eq_none.1 h.2] at this
      cases this
    have hrange : ¬((List.range ne).any fun i => decide (erasure_at erasures i ≥ n_data)) = true := by
      simpa using hargs.lt
    have := hargs.npar_pos
    have := hargs.npar_le
    have := hargs.data_pos
    have := hargs.data_le
    rw [if_neg (not_not.2 hargs), if_neg (by omega : ¬(npar = 0 ∨ npar > ADSC_RS16_MAX_NPAR)),
      if_neg (by omega : ¬(n_data = 0 ∨ n_data > ADSC_GF16_ORDER)), if_neg hnull, if_neg hrange]
    refine if_congr (by simp) rfl (if_congr Iff.rfl rfl (if_congr Iff.rfl rfl ?_))
    cases rs16_errata npar E n_data (erasure_at erasures) ne with
    | error rc => rfl
    | ok errata =>
      dsimp only
      rw [← length_nonzeroErrata n_data, emit_errata_eq]
      rfl
  · rw [if_pos hargs]
    by_cases h1 : npar = 0 ∨ npar > ADSC_RS16_MAX_NPAR
    · rw [if_pos h1]
    by_cases h2 : n_data = 0 ∨ n_data > ADSC_GF16_ORDER
    · rw [if_neg h1, if_pos h2]
    by_cases h3 : ne ≠ 0 ∧ erasures.isNone = true
    · rw [if_neg h1, if_neg h2, if_pos h3]
    by_cases h4 : ((List.range ne).any fun i => decide (erasure_at erasures i ≥ n_data)) = true
    · rw [if_neg h1, if_neg h2, if_neg h3, if_pos h4]
    refine absurd ⟨by omega, by omega, by omega, by omega, fun h => ?_, by simpa using h4⟩ hargs
    rw [Option.isSome_iff_ne_none]
    exact fun h' => h3 ⟨h, Option.isNone_iff_eq_none.2 h'⟩

/-- **Soundness**: whatever the syndromes, the call refuses, has nothing to do or corrects. -/
theorem adsc_rs16_decode_decoded (npar : Nat) (E : Nat → Gf16) (n_data : Nat)
    (erasures : Option (Nat → Nat)) (ne : Nat) (pos : Nat → Nat) (val : Nat → Gf16)
    (out_cap : Nat) : Decoded npar E n_data (erasure_at erasures) ne pos val
      (adsc_rs16_decode npar (some E) n_data erasures ne (some pos) (some val) out_cap) := by
  classical
  rw [adsc_rs16_decode_eq]
  split
  · exact .refused (by decide)
  rename_i hargs
  obtain ⟨hpos, hnpar, -, hn, -, hera⟩ := not_not.1 hargs
  split
  · exact .clean ‹_›
  rename_i hE
  split
  · exact .refused (by decide)
  split
  · exact .refused (by decide)
  rename_i hne hnd
  obtain ⟨st, -, hfound, herr⟩ :=
    @rs16_errata_spec _ _ _ E (erasure_at erasures) hnpar (Nat.not_lt.1 hne) hn hpos
  split
  · rename_i rc h
    rw [herr rc h]
    exact .refused (by decide)
  · rename_i errata h
    have hcs := ((hfound errata).1 h).corrects hera (not_not.1 hnd)
    dsimp only
    split
    · exact .refused (by decide)
    · exact .corrected hcs (by simpa using hE)

theorem mem_asc_getElem {cs : List (Nat × Gf16)} (h : cs.Pairwise fun a b => a.1 < b.1) {i j : Nat}
    (hij : i < j) (hj : j < cs.length) : (cs.get ⟨i, hij.trans hj⟩).1 < cs[j].1 :=
  List.pairwise_iff_getElem.1 h i j _ hj hij

/-- The two arrays written for a list of corrections, entry by entry. -/
theorem writeList_fst {cs : List (Nat × Gf16)} (pos : Nat → Nat) {i : Nat} (h : i < cs.length) :
    writeList (cs.map Prod.fst) pos i = cs[i].1 := by
  rw [writeList_lt pos (by simpa using h)]; simp

theorem writeList_snd {cs : List (Nat × Gf16)} (val : Nat → Gf16) {i : Nat} (h : i < cs.length) :
    writeList (cs.map Prod.snd) val i = cs[i].2 := by
  rw [writeList_lt val (by simpa using h)]; simp

/-- What `n` written positions and values satisfy. -/
structure ErrataSound (npar n_data nerasures : Nat) (E : Nat → Gf16) (erasures : Option (Nat → Nat))
    (n : Nat) (positions : Nat → Nat) (values : Nat → Gf16) : Prop where
  ascending : ∀ i j, i < j → j < n → positions i < positions j
  in_range : ∀ i < n, positions i < n_data
  ne_zero : ∀ i < n, values i ≠ 0
  reproduce : ∀ r < npar, ∑ i ∈ range n, values i * alpha ^ (r * (n_data - 1 - positions i)) = E r
  capacity : nerasures + 2 * ((range n).filter fun i =>
    ∀ k < nerasures, erasure_at erasures k ≠ positions i).card ≤ npar

/-- A sum over the indices of a list. -/
theorem sum_range_getElem {M : Type*} [AddCommMonoid M] {cs : List (Nat × Gf16)}
    (g : Nat × Gf16 → M) (f : Nat → M) (h : ∀ i (hi : i < cs.length), f i = g cs[i]) :
    ∑ i ∈ range cs.length, f i = (cs.map g).sum := by
  induction cs generalizing f with
  | nil => rfl
  | cons c cs ih =>
    rw [List.length_cons, sum_range_succ', ih (fun i => f (i + 1)) fun i hi => h (i + 1)
      (Nat.succ_lt_succ hi), List.map_cons, List.sum_cons, add_comm, h 0 (Nat.succ_pos _)]
    rfl

theorem sum_ite_eq_countP (cs : List (Nat × Gf16)) (p : Nat × Gf16 → Prop) [DecidablePred p] :
    (cs.map fun e => if p e then 1 else 0).sum = cs.countP (fun e => p e) := by
  induction cs with
  | nil => rfl
  | cons c cs ih =>
    rw [List.map_cons, List.sum_cons, ih, List.countP_cons, Nat.add_comm]
    simp

theorem Corrects.sound {npar n_data ne : Nat} {E : Nat → Gf16} {erasures : Option (Nat → Nat)}
    {cs : List (Nat × Gf16)} (h : Corrects npar n_data ne E (erasure_at erasures) cs)
    (pos : Nat → Nat) (val : Nat → Gf16) :
    ErrataSound npar n_data ne E erasures cs.length (writeList (cs.map Prod.fst) pos)
      (writeList (cs.map Prod.snd) val) where
  ascending i j hij hj := by
    rw [writeList_fst pos (hij.trans hj), writeList_fst pos hj]
    exact mem_asc_getElem h.asc hij hj
  in_range i hi := by
    rw [writeList_fst pos hi]
    exact h.lt _ (List.getElem_mem hi)
  ne_zero i hi := by
    rw [writeList_snd val hi]
    exact h.ne_zero _ (List.getElem_mem hi)
  reproduce r hr := by
    rw [← h.syn r hr]
    exact sum_range_getElem _ _ fun i hi => by rw [writeList_fst pos hi, writeList_snd val hi]
  capacity := by
    refine le_trans (Nat.le_of_eq ?_) h.cap
    rw [card_filter, sum_range_getElem
      (fun e => if e.1 ∉ erasureList (erasure_at erasures) ne then 1 else 0), sum_ite_eq_countP]
    intro i hi
    refine if_congr ?_ rfl rfl
    rw [writeList_fst pos hi]
    simp [mem_erasureList]

/-- **Soundness for arbitrary syndromes.** -/
theorem adsc_rs16_decode_sound (npar : Nat) (err_syn : Option (Nat → Gf16)) (n_data : Nat)
    (erasures : Option (Nat → Nat)) (nerasures : Nat) (positions : Option (Nat → Nat))
    (values : Option (Nat → Gf16)) (out_cap : Nat) :
    let out := adsc_rs16_decode npar err_syn n_data erasures nerasures positions values out_cap
    (0 < out.1 → ∃ E positions' values', err_syn = some E ∧
      out.2 = (some positions', some values') ∧
      ErrataSound npar n_data nerasures E erasures out.1.toNat positions' values') ∧
    (out.1 = 0 ↔ DecodeArgs npar n_data erasures nerasures ∧ positions.isSome ∧ values.isSome ∧
      ∃ E, err_syn = some E ∧ ∀ r < npar, E r = 0) ∧
    (out.1 < 0 → out.2 = (positions, values)) := by
  intro out
  by_cases hnull : ∃ E pos val, err_syn = some E ∧ positions = some pos ∧ values = some val
  · obtain ⟨E, pos, val, rfl, rfl, rfl⟩ := hnull
    have hclean : DecodeArgs npar n_data erasures nerasures → (∀ r < npar, E r = 0) →
        out = (0, some pos, some val) := fun hargs hE => by
      classical
      rw [show out = _ from adsc_rs16_decode_eq npar E n_data erasures nerasures pos val out_cap,
        if_neg (not_not.2 hargs), if_pos hE]
    have hargs : out.1 = 0 → DecodeArgs npar n_data erasures nerasures := fun h0 => by
      classical
      by_contra hargs
      rw [show out = _ from adsc_rs16_decode_eq npar E n_data erasures nerasures pos val out_cap,
        if_pos hargs] at h0
      cases h0
    have hdec : Decoded npar E n_data (erasure_at erasures) nerasures pos val out :=
      adsc_rs16_decode_decoded npar E n_data erasures nerasures pos val out_cap
    clear_value out
    refine ⟨fun h => ?_, ⟨fun h => ⟨hargs h, rfl, rfl, E, rfl, ?_⟩, ?_⟩, fun h => ?_⟩
    · cases hdec with
      | refused hrc => exact absurd hrc (by omega)
      | clean _ => exact absurd h (Int.lt_irrefl 0)
      | corrected hcs _ => exact ⟨E, _, _, rfl, rfl, hcs.sound pos val⟩
    · cases hdec with
      | refused hrc => exact absurd h hrc.ne
      | clean hE => exact hE
      | @corrected cs hcs hdirty =>
        have hlen : (cs.length : Int) = 0 := h
        exact absurd (List.length_eq_zero_iff.1 (by omega)) (hcs.ne_nil hdirty)
    · rintro ⟨hargs, -, -, E', hE', hE⟩
      cases hE'
      rw [hclean hargs hE]
    · cases hdec with
      | refused _ => rfl
      | clean _ => rfl
      | @corrected cs hcs _ =>
        have hlen : (cs.length : Int) < 0 := h
        omega
  · have hout : out = (ACCUDISC_ERR_INVAL, positions, values) := by
      show adsc_rs16_decode _ _ _ _ _ _ _ _ = _
      unfold adsc_rs16_decode
      split
      · exact absurd ⟨_, _, _, rfl, rfl, rfl⟩ hnull
      · rfl
    rw [hout]
    have hrc : ACCUDISC_ERR_INVAL < 0 := by decide
    refine ⟨fun h => absurd h hrc.not_gt, ⟨fun h => absurd h hrc.ne, ?_⟩, fun _ => rfl⟩
    rintro ⟨-, hpos, hval, E, hE, -⟩
    obtain ⟨pos, hpos⟩ := Option.isSome_iff_exists.1 hpos
    obtain ⟨val, hval⟩ := Option.isSome_iff_exists.1 hval
    exact absurd ⟨E, pos, val, hE, hpos, hval⟩ hnull

end Accudisc
