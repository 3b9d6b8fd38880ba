import Accudisc.Repair.Proof.Rs16Bm

/-!
# Roots, magnitudes and output order

* `chien_search`: the search visits the roots `alpha ^ (-k)` in ascending `k` and, as there are no more
  of them than the degree, never leaves early.
* `forney_at_eq`: the magnitude at a root.
* `errata_syndrome_eq`: the sum that the re-verification compares.
* `emit_errata_eq`: what the output loop writes is the non-zero errata, reversed.
-/

namespace Accudisc

open Polynomial Finset ErrorLocator

/-! ## Chien search -/

theorem alpha_inv_pow (d : Nat) (hd : d ≤ ADSC_GF16_ORDER) :
    alpha ^ (ADSC_GF16_ORDER - d) = (alpha⁻¹) ^ d := by
  rw [inv_pow]
  refine eq_inv_of_mul_eq_one_left ?_
  rw [← pow_add, Nat.sub_add_cancel hd, alpha_pow_order]

/-- The search's root condition at `k`. -/
def IsRoot (Λ : Gf16[X]) (k : Nat) : Prop := Λ.eval (alpha ^ k)⁻¹ = 0

noncomputable instance (Λ : Gf16[X]) (k : Nat) : Decidable (IsRoot Λ k) :=
  inferInstanceAs (Decidable (_ = _))

/-- The roots among the first `n` positions, ascending. -/
noncomputable def rootsBelow (Λ : Gf16[X]) (n : Nat) : List Nat :=
  (List.range n).filter fun k => IsRoot Λ k

theorem mem_rootsBelow {Λ : Gf16[X]} {n k : Nat} :
    k ∈ rootsBelow Λ n ↔ k < n ∧ IsRoot Λ k := by simp [rootsBelow]

theorem rootsBelow_succ (Λ : Gf16[X]) (n : Nat) :
    rootsBelow Λ (n + 1) = rootsBelow Λ n ++ if IsRoot Λ n then [n] else [] := by
  rw [rootsBelow, List.range_succ, List.filter_append, rootsBelow]
  split <;> simp_all

theorem nodup_rootsBelow (Λ : Gf16[X]) (n : Nat) : (rootsBelow Λ n).Nodup :=
  List.nodup_range.filter _

theorem alpha_pow_inv_inj {i j : Nat} (hi : i < ADSC_GF16_ORDER) (hj : j < ADSC_GF16_ORDER)
    (h : (alpha ^ i)⁻¹ = (alpha ^ j)⁻¹) : i = j := alpha_pow_inj hi hj (inv_injective h)

/-- There are no more roots than the degree. -/
theorem length_rootsBelow_le {Λ : Gf16[X]} (hΛ : Λ ≠ 0) {n : Nat} (hn : n ≤ ADSC_GF16_ORDER) :
    (rootsBelow Λ n).length ≤ Λ.natDegree := by
  have hinj : Set.InjOn (fun k => (alpha ^ k)⁻¹) (rootsBelow Λ n).toFinset := by
    intro i hi j hj h
    simp only [List.coe_toFinset, Set.mem_ofPred_eq, mem_rootsBelow] at hi hj
    exact alpha_pow_inv_inj (by omega) (by omega) h
  calc (rootsBelow Λ n).length
      = ((rootsBelow Λ n).toFinset.image fun k => (alpha ^ k)⁻¹).card := by
        rw [card_image_of_injOn hinj, List.toFinset_card_of_nodup (nodup_rootsBelow Λ n)]
    _ ≤ Λ.natDegree := by
        refine Polynomial.card_le_degree_of_subset_roots fun a ha => ?_
        rw [Finset.mem_val, mem_image] at ha
        obtain ⟨k, hk, rfl⟩ := ha
        exact (mem_roots hΛ).2 (mem_rootsBelow.1 (List.mem_toFinset.1 hk)).2

section
variable {Λ : Gf16[X]} {D : Nat} (hΛ : Λ ≠ 0) (hdeg : Λ.natDegree ≤ D)

/-- The registers and roots before step `k`. -/
structure ChienInv (Λ : Gf16[X]) (D k : Nat) (st : Chien) : Prop where
  reg : ∀ d ≤ D, Buf.get st.reg d = Λ.coeff d * (alpha⁻¹) ^ (k * d)
  root : st.root = rootsBelow Λ k

include hdeg in
theorem ChienInv.sum_eq {k : Nat} {st : Chien} (h : ChienInv Λ D k st) :
    (List.range (D + 1)).foldl (fun s d => s ^^^ Buf.get st.reg d) 0 = Λ.eval (alpha ^ k)⁻¹ := by
  rw [Loop.foldl_range_add (Buf.get st.reg) fun _ _ _ => BinField.xor_eq_add _ _, zero_add,
    eval_eq_sum_range' (Nat.lt_succ_of_le hdeg)]
  refine sum_congr rfl fun d hd => ?_
  rw [h.reg d (Nat.lt_succ_iff.1 (mem_range.1 hd)), ← inv_pow, ← pow_mul]

/-- The registers one step on. -/
theorem chien_reg_get (D : Nat) (hD : D ≤ 32) (reg : Buf Gf16 33) (d : Nat) :
    Buf.get ((List.range D).foldl (fun reg i => Buf.set reg (i + 1)
      (adsc_gf16_mul_pow (Buf.get reg (i + 1)) (ADSC_GF16_ORDER - (i + 1)))) reg) d =
    if d ≤ D then Buf.get reg d * (alpha⁻¹) ^ d else Buf.get reg d := by
  refine (Loop.foldl_range_inv (fun n (b : Buf Gf16 33) => n ≤ 32 → Buf.get b d =
    if d ≤ n then Buf.get reg d * (alpha⁻¹) ^ d else Buf.get reg d) ?_ ?_) hD
  · intro _
    split
    · rw [show d = 0 by omega, pow_zero, mul_one]
    · rfl
  · intro n _ b h hn
    rw [Buf.get_set]
    split
    · rename_i hd
      rw [if_pos (by omega), adsc_gf16_mul_pow_eq, alpha_inv_pow _ (show n + 1 ≤ 65535 by omega), ← hd.1,
        h (by omega), if_neg (by omega)]
    · rw [h (by omega)]
      exact if_congr (by omega) rfl rfl

include hΛ hdeg in
theorem chien_step_ok (hD : D ≤ 32) {k : Nat} (hk : k < ADSC_GF16_ORDER) {st : Chien}
    (h : ChienInv Λ D k st) : ∃ st', chien_step D st k = .ok st' ∧ ChienInv Λ D (k + 1) st' := by
  have hreg : ∀ d ≤ D, Buf.get ((List.range D).foldl (fun reg i => Buf.set reg (i + 1)
      (adsc_gf16_mul_pow (Buf.get reg (i + 1)) (ADSC_GF16_ORDER - (i + 1)))) st.reg) d =
      Λ.coeff d * (alpha⁻¹) ^ ((k + 1) * d) := by
    intro d hd
    rw [chien_reg_get D hD, if_pos hd, h.reg d hd, mul_assoc, ← pow_add, Nat.succ_mul]
  unfold chien_step
  simp only [h.sum_eq hdeg]
  by_cases hr : Λ.eval (alpha ^ k)⁻¹ = 0
  · have hroot : rootsBelow Λ (k + 1) = rootsBelow Λ k ++ [k] := by
      rw [rootsBelow_succ, if_pos (show IsRoot Λ k from hr)]
    -- one more root than the degree would be needed to leave here
    have hlen : st.root.length ≠ D := by
      have := length_rootsBelow_le hΛ (show k + 1 ≤ ADSC_GF16_ORDER by omega)
      rw [hroot, List.length_append, List.length_singleton] at this
      rw [h.root]
      omega
    rw [if_pos hr, if_neg hlen]
    exact ⟨_, rfl, hreg, by rw [h.root, hroot]⟩
  · rw [if_neg hr]
    refine ⟨_, rfl, hreg, ?_⟩
    rw [h.root, rootsBelow_succ, if_neg (show ¬IsRoot Λ k from hr), List.append_nil]

include hΛ hdeg in
/-- **The search finds the roots**, ascending. -/
theorem chien_search (hD : D ≤ 32) {n : Nat} (hn : n ≤ ADSC_GF16_ORDER) (lambda : Nat → Gf16)
    (hl : ∀ d ≤ D, lambda d = Λ.coeff d) :
    ∃ reg, (List.range n).foldlM (chien_step D)
      ⟨Buf.fill 33 fun i => if i ≤ D then lambda i else 0, []⟩ =
      .ok ⟨reg, rootsBelow Λ n⟩ := by
  obtain ⟨st, hst, hinv⟩ := Loop.foldlM_range_ok (ChienInv Λ D) (f := chien_step D) (n := n)
    (s := ⟨Buf.fill 33 fun i => if i ≤ D then lambda i else 0, []⟩)
    ⟨fun d hd => by simp [hd, hl, show d < 33 by omega], by simp [rootsBelow]⟩
    (fun k hk st h => chien_step_ok hΛ hdeg hD (by omega) h)
  exact ⟨st.reg, by rw [hst, ← hinv.root]⟩

end

/-! ## Magnitudes -/

theorem forney_at_eq (npar : Nat) (hnpar : 0 < npar) (D : Nat) (lambda omega : Nat → Gf16) {k : Nat}
    (hk : k ≤ ADSC_GF16_ORDER) :
    forney_at npar D lambda omega k =
      if (derivative (series lambda (D + 1))).eval (alpha ^ k)⁻¹ = 0 then
        .error ACCUDISC_ERR_NOTFOUND
      else .ok (alpha ^ k * ((series omega npar).eval (alpha ^ k)⁻¹ /
        (derivative (series lambda (D + 1))).eval (alpha ^ k)⁻¹)) := by
  have hx : alpha ^ (ADSC_GF16_ORDER - k) = (alpha ^ k)⁻¹ := by rw [alpha_inv_pow k hk, inv_pow]
  simp only [forney_at, adsc_gf16_pow_eq, hx, poly_eval_eq, poly_deriv_eval_eq, adsc_gf16_mul_eq,
    adsc_gf16_div_eq, Nat.sub_add_cancel hnpar]

/-- A `mapM` whose step fails, with one error, exactly where `p` holds. -/
theorem mapM_ite {α β ε : Type*} {f : α → Except ε β} (p : α → Prop) [DecidablePred p] (e : ε)
    (g : α → β) {l : List α} (h : ∀ a ∈ l, f a = if p a then Except.error e else .ok (g a)) :
    l.mapM f = if ∃ a ∈ l, p a then .error e else .ok (l.map g) := by
  induction l with
  | nil => simp [pure, Except.pure]
  | cons a l ih =>
    rw [List.mapM_cons, h a List.mem_cons_self, ih fun b hb => h b (List.mem_cons_of_mem a hb)]
    by_cases ha : p a
    · simp [ha, bind, Except.bind]
    · by_cases hl : ∃ b ∈ l, p b
      · have hl' : ∃ b ∈ a :: l, p b := by simpa [ha] using hl
        rw [if_neg ha, if_pos hl, if_pos hl']
        rfl
      · have hl' : ¬∃ b ∈ a :: l, p b := by simpa [ha] using hl
        rw [if_neg ha, if_neg hl, if_neg hl']
        rfl

/-! ## Re-verification -/

theorem errata_syndrome_eq (errata : List (Nat × Gf16)) (r : Nat) :
    errata_syndrome errata r = (errata.map fun e => e.2 * alpha ^ (r * e.1)).sum := by
  have key : ∀ (l : List (Nat × Gf16)) (a : Gf16), l.foldl (fun acc e =>
      if e.2 = 0 then acc else acc ^^^ adsc_gf16_mul_pow e.2 (r * e.1)) a =
      a + (l.map fun e => e.2 * alpha ^ (r * e.1)).sum := by
    intro l
    induction l with
    | nil => intro a; simp
    | cons e l ih =>
      intro a
      rw [List.foldl_cons, ih, List.map_cons, List.sum_cons, adsc_gf16_mul_pow_eq,
        BinField.xor_eq_add]
      split
      · rename_i h
        rw [h, zero_mul, zero_add]
      · rw [add_assoc]
  rw [errata_syndrome, key, zero_add]

/-! ## Output -/

/-- An output array with its first entries replaced by a list. -/
def writeList {α : Type*} (l : List α) (f : Nat → α) : Nat → α := fun i => l[i]?.getD (f i)

theorem writeList_lt {α : Type*} {l : List α} (f : Nat → α) {i : Nat} (h : i < l.length) :
    writeList l f i = l[i] := by simp [writeList, h]

theorem writeList_ge {α : Type*} {l : List α} (f : Nat → α) {i : Nat} (h : l.length ≤ i) :
    writeList l f i = f i := by simp [writeList, Nat.not_lt.2 h]

/-- Storing at the end of what is written appends. -/
theorem update_writeList {α : Type*} (l : List α) (f : Nat → α) (a : α) :
    Function.update (writeList l f) l.length a = writeList (l ++ [a]) f := by
  funext i
  rcases Nat.lt_trichotomy i l.length with h | rfl | h
  · rw [Function.update_of_ne h.ne, writeList_lt f h,
      writeList_lt f (by rw [List.length_append]; omega), List.getElem_append_left h]
  · rw [Function.update_self, writeList_lt f (by simp)]; simp
  · rw [Function.update_of_ne h.ne', writeList_ge f h.le, writeList_ge f (by simp; omega)]

/-- The non-zero errata as data indices and symbols, in the order of the list. -/
def nonzeroErrata (n_data : Nat) (errata : List (Nat × Gf16)) : List (Nat × Gf16) :=
  (errata.filter fun e => e.2 ≠ 0).map fun e => (n_data - 1 - e.1, e.2)

/-- What the output loop has written after the errata in `done`. -/
def emitted (positions : Nat → Nat) (values : Nat → Gf16) (done : List (Nat × Gf16)) : Emitted :=
  ⟨writeList (done.map Prod.fst) positions, writeList (done.map Prod.snd) values, done.length⟩

theorem emit_step_emitted (n_data : Nat) (positions : Nat → Nat) (values : Nat → Gf16)
    (done : List (Nat × Gf16)) (e : Nat × Gf16) :
    emit_step n_data (emitted positions values done) e =
      emitted positions values (done ++ nonzeroErrata n_data [e]) := by
  unfold emit_step
  by_cases he : e.2 = 0
  · simp [he, nonzeroErrata]
  · have h1 := update_writeList (done.map Prod.fst) positions (n_data - 1 - e.1)
    have h2 := update_writeList (done.map Prod.snd) values e.2
    rw [List.length_map] at h1 h2
    simp [he, nonzeroErrata, emitted, h1, h2]

/-- **The output loop** writes the non-zero errata in reverse. -/
theorem emit_errata_eq (n_data : Nat) (errata : List (Nat × Gf16)) (positions : Nat → Nat)
    (values : Nat → Gf16) :
    emit_errata n_data errata positions values =
      emitted positions values (nonzeroErrata n_data errata.reverse) := by
  have key : ∀ (l done : List (Nat × Gf16)),
      l.foldl (emit_step n_data) (emitted positions values done) =
        emitted positions values (done ++ nonzeroErrata n_data l) := by
    intro l
    induction l with
    | nil => intro done; simp [nonzeroErrata]
    | cons e l ih =>
      intro done
      rw [List.foldl_cons, emit_step_emitted, ih, List.append_assoc]
      congr 2
      rw [nonzeroErrata, nonzeroErrata, nonzeroErrata, ← List.map_append, ← List.filter_append,
        List.singleton_append]
  exact key errata.reverse []

theorem length_nonzeroErrata (n_data : Nat) (errata : List (Nat × Gf16)) :
    (nonzeroErrata n_data errata.reverse).length = errata.countP (fun e => e.2 ≠ 0) := by
  rw [nonzeroErrata, List.length_map, ← List.countP_eq_length_filter, List.countP_reverse]

end Accudisc
