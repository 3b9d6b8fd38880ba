import Accudisc.Cdda.Proof.Gf6
import Accudisc.Lib.ErrorLocator
import Mathlib.Tactic.LinearCombination

/-!
# What the R-W correction finds

`rs_correct` is exact bounded-distance decoding: it corrects to the codeword within half the number of
syndromes where there is one (`RsNear.unique`, at most one), and refuses where there is none.

* `syn_differs`: the syndromes of a word are the power sums over the positions where it differs from a
  codeword.
* `rs_fix_one_near`, `rs_fix_two_near`: what the closed forms accept is a codeword.
* `rs_fix_one_of_near`, `rs_fix_two_of_near`: one wrong symbol, and two, solve the closed forms.
-/

namespace Accudisc

open Finset ErrorLocator

/-- The locator of a position. -/
def rs_locator (n j : Nat) : Gf6 := beta ^ (n - 1 - j)

/-- A syndrome, in the field. -/
def syn (n : Nat) (v : Symbols) (r : Nat) : Gf6 :=
  powerSum (range n) (rs_locator n) (fun j => sym (v.get j)) r

/-- Every symbol is six bits. -/
def SixBits (v : Symbols) : Prop := ∀ j, SixBit (v.get j)

/-- A codeword. -/
def RsCode (n nsyn : Nat) (c : Symbols) : Prop := SixBits c ∧ ∀ r < nsyn, rs_syndrome c n r = 0

/-- The positions of the code where two words differ. -/
def differs (n : Nat) (v c : Symbols) : Finset Nat := (range n).filter fun j => v.get j ≠ c.get j

/-- `c` is a codeword that differs from `v` in at most `t` symbols. -/
structure RsNear (n nsyn t : Nat) (v c : Symbols) : Prop where
  code : RsCode n nsyn c
  beyond : ∀ j, n ≤ j → c.get j = v.get j
  near : (differs n v c).card ≤ t

/-- **Exact bounded-distance decoding**, to half the number of syndromes. -/
structure RsExact (n nsyn : Nat) (v : Symbols) : Prop where
  corrects_iff : 0 ≤ (rs_correct v n nsyn).1 ↔ ∃ c, RsNear n nsyn (nsyn / 2) v c
  corrects : ∀ c, RsNear n nsyn (nsyn / 2) v c → rs_correct v n nsyn = (((differs n v c).card : Int), c)
  refuses : (¬∃ c, RsNear n nsyn (nsyn / 2) v c) → rs_correct v n nsyn = (-1, v)

variable {n nsyn t : Nat} {v c c' w : Symbols}

/-! ## Syndromes -/

theorem rs_locator_ne_zero (n j : Nat) : rs_locator n j ≠ 0 := BinField.gen_pow_ne_zero _

theorem rs_locator_inj (hn : n ≤ 24) {i j : Nat} (hi : i < n) (hj : j < n)
    (h : rs_locator n i = rs_locator n j) :
    i = j := by
  have := beta_pow_inj (by unfold GF_ORDER; omega) (by unfold GF_ORDER; omega) h
  omega

/-- A syndrome is the power sum of the symbols. -/
theorem rs_syndrome_eq (hv : SixBits v) (n r : Nat) : rs_syndrome v n r = (syn n v r).byte := by
  suffices h : ∀ m, (List.range m).foldl (fun acc j =>
      if v.get j = 0 then acc
      else acc ^^^ (if r ≠ 0 then gf_mul (v.get j) (gf_pow (r * (n - 1 - j))) else v.get j)) 0 =
      (∑ j ∈ range m, sym (v.get j) * rs_locator n j ^ r).byte from h n
  intro m
  induction m with
  | zero => rfl
  | succ m ih =>
    rw [List.range_succ, List.foldl_append, ih, sum_range_succ]
    simp only [List.foldl_cons, List.foldl_nil]
    have hm := byte_sym (hv m)
    by_cases h0 : v.get m = 0
    · have : sym (v.get m) = 0 := by rw [h0]; rfl
      rw [if_pos h0, this, zero_mul, add_zero]
    · rw [if_neg h0, byte_add]
      congr 1
      by_cases hr : r = 0
      · rw [if_neg (not_not.2 hr), hr, pow_zero, mul_one, hm]
      · rw [if_pos hr, gf_pow_eq, ← gf_mul_eq, hm, rs_locator, ← pow_mul, Nat.mul_comm r]

theorem rs_verify_iff : rs_verify v n nsyn = true ↔ ∀ r < nsyn, rs_syndrome v n r = 0 := by
  simp [rs_verify]

theorem RsCode.verify (h : RsCode n nsyn c) : rs_verify c n nsyn = true := rs_verify_iff.2 h.2

theorem RsCode.syn_zero (h : RsCode n nsyn c) {r : Nat} (hr : r < nsyn) : syn n c r = 0 := by
  have := h.2 r hr
  rwa [rs_syndrome_eq h.1, byte_eq_zero] at this

/-- The positions where two words agree cancel. -/
theorem syn_add (n : Nat) (v c : Symbols) (r : Nat) :
    syn n v r + syn n c r =
      powerSum (differs n v c) (rs_locator n) (fun j => sym (v.get j) + sym (c.get j)) r := by
  unfold syn powerSum
  rw [← sum_add_distrib, differs, sum_filter]
  refine sum_congr rfl fun j _ => ?_
  by_cases h : v.get j = c.get j
  · simp only [h, gf6_add_self, ne_eq, not_true, if_false]
  · rw [if_pos h, add_mul]

/-- **The syndromes of a word are those of its errors.** -/
theorem RsCode.syn_differs (hc : RsCode n nsyn c) (v : Symbols) {r : Nat} (hr : r < nsyn) :
    syn n v r = powerSum (differs n v c) (rs_locator n) (fun j => sym (v.get j) + sym (c.get j)) r := by
  rw [← syn_add, hc.syn_zero hr, add_zero]

/-! ## At most one codeword is near -/

theorem mem_differs {j : Nat} : j ∈ differs n v c ↔ j < n ∧ v.get j ≠ c.get j := by
  simp [differs]

theorem differs_eq_empty (hb : ∀ j, n ≤ j → c.get j = v.get j) (h : differs n v c = ∅) : c = v := by
  refine Buf.ext_get fun j _ => ?_
  by_contra hne
  by_cases hj : j < n
  · have : j ∈ differs n v c := mem_differs.2 ⟨hj, Ne.symm hne⟩
    rw [h] at this
    exact notMem_empty j this
  · exact hne (hb j (by omega))

theorem differs_triangle (n : Nat) (v c c' : Symbols) :
    differs n c c' ⊆ differs n v c ∪ differs n v c' := by
  intro j hj
  obtain ⟨hn, hne⟩ := mem_differs.1 hj
  rw [mem_union, mem_differs, mem_differs]
  by_cases h : v.get j = c.get j
  · exact .inr ⟨hn, fun h' => hne (h.symm.trans h')⟩
  · exact .inl ⟨hn, h⟩

/-- Two codewords that differ in no more symbols than there are syndromes are one. -/
theorem RsCode.eq_of_card (hn : n ≤ 24) (hc : RsCode n nsyn c) (hc' : RsCode n nsyn c')
    (hd : (differs n c c').card ≤ nsyn) : differs n c c' = ∅ := by
  have hx : Set.InjOn (rs_locator n) (differs n c c') := fun i hi j hj h =>
    rs_locator_inj hn (mem_differs.1 (mem_coe.1 hi)).1 (mem_differs.1 (mem_coe.1 hj)).1 h
  have hy := powerSum_inj hx (fun j _ => rs_locator_ne_zero n j) hd fun r hr => by
    rw [← hc'.syn_differs c hr, hc.syn_zero hr]
  refine eq_empty_of_forall_notMem fun j hj => (mem_differs.1 hj).2 ?_
  exact sym_inj (hc.1 j) (hc'.1 j) (gf6_add_eq_zero.1 (hy j hj))

/-- **At most one codeword is near.** -/
theorem RsNear.unique (hn : n ≤ 24) (ht : 2 * t ≤ nsyn) (h : RsNear n nsyn t v c)
    (h' : RsNear n nsyn t v c') :
    c = c' := by
  have hcard : (differs n c c').card ≤ nsyn := by
    have h1 := card_le_card (differs_triangle n v c c')
    have h2 := card_union_le (differs n v c) (differs n v c')
    have h3 := h.near
    have h4 := h'.near
    omega
  refine (differs_eq_empty (fun j hj => ?_) (h.code.eq_of_card hn h'.code hcard)).symm
  rw [h'.beyond j hj, h.beyond j hj]

/-! ## One wrong symbol -/

theorem SixBit.xor {x y : BitVec 8} (hx : SixBit x) (hy : SixBit y) : SixBit (x ^^^ y) := by
  rw [← byte_sym hx, ← byte_sym hy, ← byte_add]
  exact byte_sixBit _

theorem SixBits.set (hv : SixBits v) {x : BitVec 8} (hx : SixBit x) (j : Nat) : SixBits (v.set j x) := by
  intro i
  rw [Buf.get_set]
  split
  · exact hx
  · exact hv i

theorem SixBits.syndrome (hv : SixBits v) (n r : Nat) : SixBit (rs_syndrome v n r) := by
  rw [rs_syndrome_eq hv]
  exact byte_sixBit _

/-- Adding the error to a symbol restores it. -/
theorem symbol_fixed {x y : BitVec 8} (hx : SixBit x) (hy : SixBit y) : x ^^^ (sym x + sym y).byte = y := by
  rw [byte_add, byte_sym hx, byte_sym hy, ← BitVec.xor_assoc, BitVec.xor_self, BitVec.zero_xor]

theorem RsNear.mono {t' : Nat} (h : RsNear n nsyn t v c) (ht : t ≤ t') : RsNear n nsyn t' v c :=
  ⟨h.code, h.beyond, h.near.trans ht⟩

theorem RsNear.agree (h : RsNear n nsyn t v c) {j : Nat} (hj : j ∉ differs n v c) : v.get j = c.get j := by
  by_contra hne
  by_cases hlt : j < n
  · exact hj (mem_differs.2 ⟨hlt, hne⟩)
  · exact hne (h.beyond j (by omega)).symm

theorem RsNear.error_ne_zero (h : RsNear n nsyn t v c) (hv : SixBits v) {j : Nat} (hj : j ∈ differs n v c) :
    sym (v.get j) + sym (c.get j) ≠ 0 := fun h0 =>
  (mem_differs.1 hj).2 (sym_inj (hv j) (h.code.1 j) (gf6_add_eq_zero.1 h0))

/-- A changed symbol is where the words differ. -/
theorem differs_set (n : Nat) (v : Symbols) (j : Nat) (x : BitVec 8) : differs n v (v.set j x) ⊆ {j} := by
  intro i hi
  by_contra hne
  rw [mem_singleton] at hne
  refine (mem_differs.1 hi).2 ?_
  rw [Buf.get_set, if_neg fun h => hne h.1]

theorem set_beyond {i j : Nat} {x : BitVec 8} (hj : j < n) (hi : n ≤ i) : (v.set j x).get i = v.get i := by
  rw [Buf.get_set, if_neg fun h => by omega]

/-- What the closed form for one error accepts is a codeword. -/
theorem rs_fix_one_near (hv : SixBits v) (h : rs_fix_one v n nsyn = some w) : RsNear n nsyn 1 v w := by
  simp only [rs_fix_one] at h
  split at h
  · cases h
  split at h
  · rename_i hk
    split at h
    · rename_i hw
      cases h
      refine ⟨⟨hv.set ((hv _).xor (hv.syndrome n 0)) _, rs_verify_iff.1 hw⟩, fun i hi => ?_, ?_⟩
      · exact set_beyond (by omega) hi
      · exact (card_le_card (differs_set n v _ _)).trans (card_singleton _).le
    · cases h
  · cases h

/-- One wrong symbol solves the closed form. -/
theorem rs_fix_one_of_near (hn : n ≤ 24) (hs : 2 ≤ nsyn) (hv : SixBits v) (h : RsNear n nsyn t v c)
    (h1 : (differs n v c).card = 1) : rs_fix_one v n nsyn = some c := by
  obtain ⟨j, hj⟩ := card_eq_one.1 h1
  have hmem : j ∈ differs n v c := by rw [hj]; exact mem_singleton_self j
  have hjn := (mem_differs.1 hmem).1
  have he := h.error_ne_zero hv hmem
  have hsyn : ∀ r < nsyn, rs_syndrome v n r =
    ((sym (v.get j) + sym (c.get j)) * rs_locator n j ^ r).byte := by
    intro r hr
    rw [rs_syndrome_eq hv, h.code.syn_differs v hr, hj, powerSum, sum_singleton]
  have h0 := hsyn 0 (by omega)
  have h1 := hsyn 1 (by omega)
  rw [pow_zero, mul_one] at h0
  rw [pow_one] at h1
  have hk : gf_log (gf_div (rs_syndrome v n 1) (rs_syndrome v n 0)) = n - 1 - j := by
    rw [h0, h1, gf_div_eq _ he, mul_div_cancel_left₀ _ he]
    exact gf_log_pow (by unfold GF_ORDER; omega)
  have hset : v.set j (v.get j ^^^ rs_syndrome v n 0) = c := by
    refine Buf.ext_get fun i _ => ?_
    rw [Buf.get_set]
    by_cases hi : i = j
    · rw [if_pos ⟨hi, by omega⟩, h0, symbol_fixed (hv j) (h.code.1 j), hi]
    · rw [if_neg fun h => hi h.1]
      refine h.agree ?_
      rw [hj]
      exact fun hm => hi (mem_singleton.1 hm)
  have hne0 : rs_syndrome v n 0 ≠ 0 := by
    rw [h0]
    exact fun hz => he (byte_eq_zero.1 hz)
  have hne1 : rs_syndrome v n 1 ≠ 0 := by
    rw [h1]
    exact fun hz => mul_ne_zero he (rs_locator_ne_zero n j) (byte_eq_zero.1 hz)
  simp only [rs_fix_one, hk]
  rw [if_neg hne0, if_pos ⟨hne1, by omega⟩, show n - 1 - (n - 1 - j) = j by omega, hset,
    if_pos h.code.verify]

/-! ## Two wrong symbols -/

section Locator

variable (e1 e2 x1 x2 : Gf6)

/-- The syndromes of two errors. -/
def twoSyn (r : Nat) : Gf6 := e1 * x1 ^ r + e2 * x2 ^ r

theorem two_det : twoSyn e1 e2 x1 x2 1 * twoSyn e1 e2 x1 x2 1 + twoSyn e1 e2 x1 x2 0 *
    twoSyn e1 e2 x1 x2 2 =
    e1 * e2 * (x1 + x2) ^ 2 := by
  unfold twoSyn
  linear_combination (e1 ^ 2 * x1 ^ 2 + e2 ^ 2 * x2 ^ 2) * gf6_two

theorem two_l1 : twoSyn e1 e2 x1 x2 2 * twoSyn e1 e2 x1 x2 1 + twoSyn e1 e2 x1 x2 0 * twoSyn e1 e2 x1 x2 3 =
    (x1 + x2) * (e1 * e2 * (x1 + x2) ^ 2) := by
  unfold twoSyn
  linear_combination (e1 ^ 2 * x1 ^ 3 + e2 ^ 2 * x2 ^ 3 - e1 * e2 * x1 * x2 * (x1 + x2)) * gf6_two

theorem two_l2 : twoSyn e1 e2 x1 x2 1 * twoSyn e1 e2 x1 x2 3 + twoSyn e1 e2 x1 x2 2 * twoSyn e1 e2 x1 x2 2 =
    x1 * x2 * (e1 * e2 * (x1 + x2) ^ 2) := by
  unfold twoSyn
  linear_combination (e1 ^ 2 * x1 ^ 4 + e2 ^ 2 * x2 ^ 4) * gf6_two

theorem two_e1 : twoSyn e1 e2 x1 x2 1 + twoSyn e1 e2 x1 x2 0 * x2 = e1 * (x1 + x2) := by
  unfold twoSyn
  linear_combination (e2 * x2) * gf6_two

theorem two_e2 : twoSyn e1 e2 x1 x2 0 + e1 = e2 := by
  unfold twoSyn
  linear_combination e1 * gf6_two

/-- The roots are the inverses of the two locators. -/
theorem two_roots (y : Gf6) : 1 + (x1 + x2) * y + x1 * x2 * (y * y) = 0 ↔ x1 * y = 1 ∨ x2 * y = 1 := by
  rw [show 1 + (x1 + x2) * y + x1 * x2 * (y * y) = (1 + x1 * y) * (1 + x2 * y) by ring, mul_eq_zero,
    gf6_add_eq_zero, gf6_add_eq_zero, eq_comm, eq_comm (a := (1 : Gf6))]

end Locator

/-- Two places of a range. -/
theorem filter_range_two {k1 k2 : Nat} (h : k1 < k2) (n : Nat) :
    (List.range n).filter (fun k => k = k1 ∨ k = k2) =
    if k2 < n then [k1, k2] else if k1 < n then [k1] else [] := by
  induction n with
  | zero => rfl
  | succ n ih =>
    rw [List.range_succ, List.filter_append, ih]
    rcases Nat.lt_trichotomy n k1 with h1 | rfl | h1
    · simp [show ¬k2 < n by omega, show ¬k1 < n by omega, show ¬k2 < n + 1 by omega,
        show ¬k1 < n + 1 by omega,
        show n ≠ k1 by omega, show n ≠ k2 by omega]
    · simp [show ¬k2 < n by omega, show ¬k2 < n + 1 by omega]
    · rcases Nat.lt_trichotomy n k2 with h2 | rfl | h2
      · simp [show ¬k2 < n by omega, show ¬k2 < n + 1 by omega, h1, show k1 < n + 1 by omega,
          show n ≠ k1 by omega, show n ≠ k2 by omega]
      · simp [h1]
      · simp [h2, show k2 < n + 1 by omega, show n ≠ k1 by omega, show n ≠ k2 by omega]

/-- The search finds the two positions. -/
theorem rs_roots_two (hn : n ≤ 24) {k1 k2 : Nat} (h : k1 < k2) (hk : k2 < n) :
    rs_roots n (beta ^ k1 + beta ^ k2).byte (beta ^ k1 * beta ^ k2).byte = [k1, k2] := by
  have hroot : ∀ k < n, ∀ i < n, beta ^ i * beta ^ (GF_ORDER - k % GF_ORDER) = 1 ↔ k = i := by
    intro k hkn i hi
    have hk63 : k % 63 = k := Nat.mod_eq_of_lt (by omega)
    have hinv : beta ^ k * beta ^ (GF_ORDER - k % GF_ORDER) = 1 := by
      rw [← pow_add, ← beta_pow_order]
      unfold GF_ORDER
      congr 1
      omega
    refine ⟨fun h1 => ?_, fun h1 => h1 ▸ hinv⟩
    have := mul_right_cancel₀ (BinField.gen_pow_ne_zero _) (hinv.trans h1.symm)
    exact beta_pow_inj (by unfold GF_ORDER; omega) (by unfold GF_ORDER; omega) this
  unfold rs_roots
  rw [List.filter_congr (q := fun k => k = k1 ∨ k = k2), filter_range_two h, if_pos hk]
  · rfl
  · intro k hkn
    have hkn := List.mem_range.1 hkn
    simp only [gf_pow_eq, gf_mul_eq, show (1 : BitVec 8) = (1 : Gf6).byte from rfl,
      ← byte_add, byte_eq_zero,
      two_roots, hroot k hkn k1 (by omega), hroot k hkn k2 hk]

theorem set_two_beyond {i j k : Nat} {x y : BitVec 8} (hj : j < n) (hk : k < n) (hi : n ≤ i) :
    ((v.set j x).set k y).get i = v.get i := (set_beyond hk hi).trans (set_beyond hj hi)

theorem differs_set_two (n : Nat) (v : Symbols) (j k : Nat) (x y : BitVec 8) :
    differs n v ((v.set j x).set k y) ⊆ {j, k} := by
  intro i hi
  by_contra hne
  rw [mem_insert, mem_singleton, not_or] at hne
  refine (mem_differs.1 hi).2 ?_
  rw [Buf.get_set, if_neg fun h => hne.2 h.1, Buf.get_set, if_neg fun h => hne.1 h.1]

theorem rs_roots_lt {l1 l2 : BitVec 8} {k : Nat} (h : k ∈ rs_roots n l1 l2) : k < n :=
  List.mem_range.1 (List.mem_of_mem_filter (List.mem_of_mem_take h))

/-- Division stays in six bits. -/
theorem gf_div_sixBit {x : BitVec 8} (hx : SixBit x) (y : BitVec 8) : SixBit (gf_div x y) := by
  unfold gf_div
  split
  · exact byte_sixBit 0
  · rename_i h0
    have hne : sym x ≠ 0 := fun h => h0 (by rw [← byte_sym hx, h, byte_zero])
    have hlog := (beta_pow_log hne).1
    rw [byte_sym hx] at hlog
    rw [gf_exp_eq (by unfold GF_ORDER at hlog ⊢; omega)]
    exact byte_sixBit _

theorem gf_mul_sixBit {x y : BitVec 8} (hx : SixBit x) (hy : SixBit y) : SixBit (gf_mul x y) := by
  rw [← byte_sym hx, ← byte_sym hy, gf_mul_eq]
  exact byte_sixBit _

theorem gf_pow_sixBit (e : Nat) : SixBit (gf_pow e) := by
  rw [gf_pow_eq]
  exact byte_sixBit _

/-- What the closed form for two errors accepts is a codeword. -/
theorem rs_fix_two_near (hv : SixBits v) (h : rs_fix_two v n nsyn = some w) :
    RsNear n nsyn 2 v w ∧ 4 ≤ nsyn := by
  simp only [rs_fix_two] at h
  split at h
  · cases h
  split at h
  · rename_i hns _ k1 k2 hk
    split at h
    · rename_i hw
      cases h
      have h1 : k1 < n := rs_roots_lt (hk ▸ List.mem_cons_self)
      have h2 : k2 < n := rs_roots_lt (hk ▸ List.mem_cons_of_mem _ List.mem_cons_self)
      have hs : ∀ r, SixBit (rs_syndrome v n r) := hv.syndrome n
      have he : SixBit (gf_div (rs_syndrome v n 1 ^^^ gf_mul (rs_syndrome v n 0) (gf_pow k2))
          (gf_pow k1 ^^^ gf_pow k2)) :=
        gf_div_sixBit ((hs 1).xor (gf_mul_sixBit (hs 0) (gf_pow_sixBit k2))) _
      have hfirst := hv.set ((hv (n - 1 - k1)).xor he) (n - 1 - k1)
      have hsecond := hfirst.set ((hfirst (n - 1 - k2)).xor ((hs 0).xor he)) (n - 1 - k2)
      refine ⟨⟨⟨hsecond, rs_verify_iff.1 hw⟩, fun i hi => ?_, ?_⟩, by omega⟩
      · exact set_two_beyond (by omega) (by omega) hi
      · exact (card_le_card (differs_set_two n v _ _ _ _)).trans card_le_two
    · cases h
  · cases h

/-- Adding the two errors restores the codeword. -/
theorem RsNear.two_fixed (hv : SixBits v) (h : RsNear n nsyn t v c) {i j : Nat} (hij : j ≠ i)
    (hd : differs n v c = {i, j}) :
    (v.set i (v.get i ^^^ (sym (v.get i) + sym (c.get i)).byte)).set j
      ((v.set i (v.get i ^^^ (sym (v.get i) + sym (c.get i)).byte)).get j ^^^
        (sym (v.get j) + sym (c.get j)).byte) = c := by
  have hget : (v.set i (c.get i)).get j = v.get j := by rw [Buf.get_set, if_neg fun h => hij h.1]
  refine Buf.ext_get fun k _ => ?_
  rw [symbol_fixed (hv i) (h.code.1 i), hget, symbol_fixed (hv j) (h.code.1 j), Buf.get_set, Buf.get_set]
  by_cases hkj : k = j
  · rw [if_pos ⟨hkj, by omega⟩, hkj]
  · rw [if_neg fun h => hkj h.1]
    by_cases hki : k = i
    · rw [if_pos ⟨hki, by omega⟩, hki]
    · rw [if_neg fun h => hki h.1]
      refine h.agree ?_
      rw [hd, mem_insert, mem_singleton, not_or]
      exact ⟨hki, hkj⟩

/-- Two wrong symbols solve the closed form. -/
theorem rs_fix_two_of_near (hn : n ≤ 24) (hs : 4 ≤ nsyn) (hv : SixBits v)
    (h : RsNear n nsyn t v c) {i j : Nat}
    (hij : j < i) (hd : differs n v c = {i, j}) : rs_fix_two v n nsyn = some c := by
  have hi : i ∈ differs n v c := by rw [hd]; exact mem_insert_self i _
  have hj : j ∈ differs n v c := by rw [hd]; exact mem_insert_of_mem (mem_singleton_self j)
  have hin := (mem_differs.1 hi).1
  have hjn := (mem_differs.1 hj).1
  have he1 := h.error_ne_zero hv hi
  have he2 := h.error_ne_zero hv hj
  have hx : rs_locator n i + rs_locator n j ≠ 0 := fun h0 => by
    have := rs_locator_inj hn hin (by omega) (gf6_add_eq_zero.1 h0)
    omega
  have hsyn : ∀ r < nsyn, rs_syndrome v n r = (twoSyn (sym (v.get i) + sym (c.get i))
      (sym (v.get j) + sym (c.get j)) (rs_locator n i) (rs_locator n j) r).byte := by
    intro r hr
    rw [rs_syndrome_eq hv, h.code.syn_differs v hr, hd, powerSum, sum_pair (by omega), twoSyn]
  have hdet : (sym (v.get i) + sym (c.get i)) * (sym (v.get j) + sym (c.get j)) *
      (rs_locator n i + rs_locator n j) ^ 2 ≠ 0 := mul_ne_zero (mul_ne_zero he1 he2) (pow_ne_zero 2 hx)
  have hne : ∀ {a : Gf6}, a ≠ 0 → a.byte ≠ 0 := fun ha hz => ha (byte_eq_zero.1 hz)
  have hroots := rs_roots_two hn (show n - 1 - i < n - 1 - j by omega) (by omega)
  simp only [rs_fix_two, hsyn 0 (by omega), hsyn 1 (by omega), hsyn 2 (by omega),
    hsyn 3 (by omega), gf_mul_eq,
    ← byte_add, two_det, two_l1, two_l2, gf_div_eq _ hdet, mul_div_cancel_right₀ _ hdet]
  rw [if_neg (not_or.2 ⟨by omega, hne hdet⟩)]
  rw [show rs_roots n (rs_locator n i + rs_locator n j).byte (rs_locator n i * rs_locator n j).byte =
    [n - 1 - i, n - 1 - j] from hroots]
  simp only [gf_pow_eq, show beta ^ (n - 1 - i) = rs_locator n i from rfl,
    show beta ^ (n - 1 - j) = rs_locator n j from rfl, gf_mul_eq, ← byte_add, two_e1, gf_div_eq _ hx,
    mul_div_cancel_right₀ _ hx, two_e2, show n - 1 - (n - 1 - i) = i by
      omega, show n - 1 - (n - 1 - j) = j by omega]
  rw [h.two_fixed hv (by omega) hd, if_pos h.code.verify]

/-! ## The decoder -/

/-- A word that is not verified differs from every codeword. -/
theorem RsNear.card_pos (h : RsNear n nsyn t v c) (hv : rs_verify v n nsyn = false) :
    0 < (differs n v c).card := by
  rcases Nat.eq_zero_or_pos (differs n v c).card with h0 | h0
  · have := h.code.verify
    rw [differs_eq_empty h.beyond (card_eq_zero.1 h0), hv] at this
    cases this
  · exact h0

/-- The errors of the codeword are the number that it reports. -/
theorem rs_correct_near (hn : n ≤ 24) (hs : 2 ≤ nsyn) (hv : SixBits v) (h : 0 ≤ (rs_correct v n nsyn).1) :
    ∃ c, RsNear n nsyn (nsyn / 2) v c ∧ rs_correct v n nsyn = (((differs n v c).card : Int), c) := by
  cases hver : rs_verify v n nsyn with
  | true =>
    have hcard : (differs n v v).card = 0 := by simp [differs]
    refine ⟨v, ⟨⟨hv, rs_verify_iff.1 hver⟩, fun _ _ => rfl, by omega⟩, ?_⟩
    rw [rs_correct, if_pos hver, hcard]
    rfl
  | false =>
    have hneg : ¬rs_verify v n nsyn = true := by rw [hver]; exact Bool.false_ne_true
    unfold rs_correct at h ⊢
    rw [if_neg hneg] at h ⊢
    cases h1 : rs_fix_one v n nsyn with
    | some w =>
      have hw := rs_fix_one_near hv h1
      have hpos := hw.card_pos hver
      have hle := hw.near
      refine ⟨w, hw.mono (by omega), ?_⟩
      rw [show (differs n v w).card = 1 by omega]
      rfl
    | none =>
      cases h2 : rs_fix_two v n nsyn with
      | some w =>
        obtain ⟨hw, h4⟩ := rs_fix_two_near hv h2
        have hpos := hw.card_pos hver
        have hle := hw.near
        -- one error would have been found
        have hne : (differs n v w).card ≠ 1 := fun hc => by
          rw [rs_fix_one_of_near hn hs hv hw hc] at h1
          cases h1
        refine ⟨w, hw.mono (by omega), ?_⟩
        rw [show (differs n v w).card = 2 by omega]
        rfl
      | none =>
        rw [h1, h2] at h
        exact absurd h (show ¬(0 : Int) ≤ -1 by decide)

/-- Where a codeword is near, one of the cases finds it. -/
theorem RsNear.found (hn : n ≤ 24) (hs : 2 ≤ nsyn) (hv : SixBits v) (h : RsNear n nsyn (nsyn / 2) v c)
    (h5 : nsyn ≤ 5) : 0 ≤ (rs_correct v n nsyn).1 := by
  cases hver : rs_verify v n nsyn with
  | true =>
    rw [rs_correct, if_pos hver]
  | false =>
    have hneg : ¬rs_verify v n nsyn = true := by rw [hver]; exact Bool.false_ne_true
    have hpos := h.card_pos hver
    have hle := h.near
    unfold rs_correct
    rw [if_neg hneg]
    rcases (show (differs n v c).card = 1 ∨ (differs n v c).card = 2 by omega) with h1 | h2
    · rw [rs_fix_one_of_near hn hs hv h h1]
      exact Int.one_nonneg
    · obtain ⟨i, j, hij, hd⟩ := card_eq_two.1 h2
      have hfix : rs_fix_two v n nsyn = some c := by
        rcases Nat.lt_or_gt_of_ne hij with hlt | hlt
        · exact rs_fix_two_of_near hn (by omega) hv h hlt (hd.trans (pair_comm i j))
        · exact rs_fix_two_of_near hn (by omega) hv h hlt hd
      rw [hfix]
      cases rs_fix_one v n nsyn with
      | none => exact show (0 : Int) ≤ 2 by decide
      | some w => exact Int.one_nonneg

/-- **Both codes are decoded exactly.** -/
theorem rs_exact (hn : n ≤ 24) (hs : 2 ≤ nsyn) (h5 : nsyn ≤ 5) (hv : SixBits v) : RsExact n nsyn v where
  corrects_iff := by
    refine ⟨fun h => ?_, fun ⟨c, hc⟩ => hc.found hn hs hv h5⟩
    obtain ⟨c, hc, _⟩ := rs_correct_near hn hs hv h
    exact ⟨c, hc⟩
  corrects c hc := by
    obtain ⟨c', hc', heq⟩ := rs_correct_near hn hs hv (hc.found hn hs hv h5)
    rw [hc.unique hn (by omega) hc']
    exact heq
  refuses hno := by
    have hlt : ¬0 ≤ (rs_correct v n nsyn).1 := fun h => by
      obtain ⟨c, hc, _⟩ := rs_correct_near hn hs hv h
      exact hno ⟨c, hc⟩
    unfold rs_correct at hlt ⊢
    split
    · rename_i hver
      rw [if_pos hver] at hlt
      exact absurd (Int.le_refl 0) hlt
    · rename_i hver
      rw [if_neg hver] at hlt
      split
      · rename_i w h1
        rw [h1] at hlt
        exact absurd Int.one_nonneg hlt
      · rename_i w h1 h2
        rw [h1, h2] at hlt
        exact absurd (show (0 : Int) ≤ 2 by decide) hlt
      · rfl

/-- A pack that both codes accept, received with at most two wrong symbols. -/
structure PackNear (v p : Symbols) : Prop where
  six : SixBits v
  outer : RsCode ACCUDISC_RW_PACK_SYMBOLS 4 p
  inner : RsCode 4 2 p
  near : (differs ACCUDISC_RW_PACK_SYMBOLS v p).card ≤ 2

theorem correct_pack_near {p : Symbols} (h : PackNear v p) :
    correct_pack v = ⟨p, (differs ACCUDISC_RW_PACK_SYMBOLS v p).card, 0, 0, 0⟩ := by
  have hnear : RsNear ACCUDISC_RW_PACK_SYMBOLS 4 (4 / 2) v p := by
    refine ⟨h.outer, fun j hj => ?_, h.near⟩
    unfold Buf.get
    rw [Vector.getElem?_eq_none hj, Vector.getElem?_eq_none hj]
  have houter := (rs_exact (by decide) (by decide) (by decide) h.six).corrects p hnear
  have hinner : rs_correct p 4 2 = (0, p) := by
    rw [rs_correct, if_pos h.inner.verify]
  unfold correct_pack
  simp only [houter, hinner]
  rfl

/-- **The correction of the subchannel packs is exact**: `rs_correct` decodes both codes to half their
syndromes, and a pack with at most two wrong symbols comes out whole. -/
theorem rs_correct_exact :
    (∀ v, SixBits v → RsExact ACCUDISC_RW_PACK_SYMBOLS 4 v ∧ RsExact 4 2 v) ∧
    ∀ (rw : Rw) (p : Symbols), PackNear (assemble_pack rw.toRwRing) p →
      (emit_pack rw).2 = ⟨p, (differs ACCUDISC_RW_PACK_SYMBOLS (assemble_pack rw.toRwRing) p).card, 0, 0,
        0⟩ := by
  refine ⟨fun v hv => ⟨?_, ?_⟩, fun rw p h => correct_pack_near h⟩
  · exact rs_exact (by decide) (by decide) (by decide) hv
  · exact rs_exact (by decide) (by decide) (by decide) hv

/-- Silence, with two symbols of the channel wrong. -/
def two_wrong : Rw :=
  { hist := fun _ => Buf.fill ACCUDISC_RW_PACK_SYMBOLS fun i => if i = 3 then 5 else if i = 7 then 9 else 0 }

theorem sixBits_of_lt (h : ∀ j < ACCUDISC_RW_PACK_SYMBOLS, SixBit (v.get j)) : SixBits v := by
  intro j
  rcases Nat.lt_or_ge j ACCUDISC_RW_PACK_SYMBOLS with hj | hj
  · exact h j hj
  · unfold Buf.get
    rw [Vector.getElem?_eq_none hj]
    exact byte_sixBit 0

theorem two_wrong_near :
    PackNear (assemble_pack two_wrong.toRwRing) (Buf.zeros (BitVec 8) ACCUDISC_RW_PACK_SYMBOLS) := by
  have hz : SixBits (Buf.zeros (BitVec 8) ACCUDISC_RW_PACK_SYMBOLS) := fun j => by
    rw [Buf.get_zeros]
    exact byte_sixBit 0
  refine ⟨sixBits_of_lt ?_, ⟨hz, by decide +kernel⟩, ⟨hz, by decide +kernel⟩, by decide +kernel⟩
  unfold SixBit
  decide +kernel

theorem rs_correct_exact_two :
    (emit_pack two_wrong).2 = ⟨Buf.zeros (BitVec 8) ACCUDISC_RW_PACK_SYMBOLS, 2, 0, 0, 0⟩ := by
  have hcard : (differs ACCUDISC_RW_PACK_SYMBOLS (assemble_pack two_wrong.toRwRing)
    (Buf.zeros (BitVec 8) ACCUDISC_RW_PACK_SYMBOLS)).card = 2 := by decide +kernel
  have h := rs_correct_exact.2 two_wrong _ two_wrong_near
  rwa [hcard] at h

end Accudisc
