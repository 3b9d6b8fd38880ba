import Accudisc.Repair.Proof.Sweep
import Mathlib.Tactic.IntervalCases

/-!
# The AVX2 sweep agrees with the scalar sweep

* `split32_eq`, `mul_const32_eq`: the vector code splits words into bytes and multiplies each by the
  constant.
* `plane_split_spec`: one plane of the split accumulator takes the scalar plane's step.
* `sweep_avx2_acc`, `sweep_avx2_crc`: so the two kernels leave the same accumulator and CRC.
-/

namespace Accudisc

open Finset

/-! ## Bytes of a word -/

theorem append_bytes (x : BitVec 16) : ((x >>> 8).setWidth 8 ++ x.setWidth 8 : BitVec 16) = x := by
  apply BitVec.eq_of_getLsbD_eq
  intro i hi
  rw [BitVec.getLsbD_append]
  by_cases h : i < 8
  · simp [h]
  · simp [h, show i - 8 < 8 by omega, show 8 + (i - 8) = i by omega]

theorem setWidth_append (a b : BitVec 8) : (a ++ b : BitVec 16).setWidth 8 = b := by
  apply BitVec.eq_of_getLsbD_eq
  intro i hi
  rw [BitVec.getLsbD_setWidth, BitVec.getLsbD_append, if_pos hi]
  simp [hi]

theorem shiftRight_append (a b : BitVec 8) : ((a ++ b : BitVec 16) >>> 8).setWidth 8 = a := by
  apply BitVec.eq_of_getLsbD_eq
  intro i hi
  rw [BitVec.getLsbD_setWidth, BitVec.getLsbD_ushiftRight, BitVec.getLsbD_append,
    if_neg (by omega), Nat.add_sub_cancel_left]
  simp [hi]

theorem symbol_add (x y : BitVec 16) : symbol x + symbol y = symbol (x ^^^ y) := rfl

theorem append_xor (a b c d : BitVec 8) :
    ((a ^^^ c) ++ (b ^^^ d) : BitVec 16) = (a ++ b) ^^^ (c ++ d) := by
  apply BitVec.eq_of_getLsbD_eq
  intro i hi
  simp only [BitVec.getLsbD_append, BitVec.getLsbD_xor]
  split <;> rfl

/-! ## Splitting and multiplying -/

theorem split32_eq (m : Mem) (v : Nat) {i : Nat} (hi : i < 32) :
    (split32 m v).1 i = m (v + 2 * i) ∧ (split32 m v).2 i = m (v + (2 * i + 1)) := by
  interval_cases i <;> exact ⟨rfl, rfl⟩

/-- The high nibble of a byte, by a shift of its 16-bit lane. -/
theorem srli_nibble (a : M256) (i : Nat) :
    (mm256_and (mm256_srli_epi16 a 4) (mm256_set1_epi8 0x0F#8) i).toNat = (a i).toNat / 16 := by
  have hmask : ∀ j < 8, (0x0F#8).getLsbD j = decide (j < 4) := by decide
  have h : mm256_and (mm256_srli_epi16 a 4) (mm256_set1_epi8 0x0F#8) i = a i >>> 4 := by
    apply BitVec.eq_of_getLsbD_eq
    intro j hj
    rw [mm256_and, mm256_set1_epi8, BitVec.getLsbD_and, hmask j hj, BitVec.getLsbD_ushiftRight]
    by_cases hj4 : j < 4
    · rw [decide_eq_true hj4, Bool.and_true, mm256_srli_epi16]
      rcases Nat.mod_two_eq_zero_or_one i with h2 | h2
      · rw [if_pos h2, BitVec.getLsbD_setWidth, BitVec.getLsbD_ushiftRight, BitVec.getLsbD_append,
          if_pos (by omega), show 2 * (i / 2) = i by omega]
        simp [hj]
      · rw [if_neg (by omega), BitVec.getLsbD_setWidth, BitVec.getLsbD_ushiftRight,
          BitVec.getLsbD_ushiftRight, BitVec.getLsbD_append, if_neg (by omega),
          show 2 * (i / 2) + 1 = i by omega, show 4 + (8 + j) - 8 = 4 + j by omega]
        simp [hj]
    · rw [decide_eq_false hj4, Bool.and_false]
      exact (BitVec.getLsbD_of_ge _ _ (by omega)).symm
  rw [h, BitVec.toNat_ushiftRight, Nat.shiftRight_eq_div_pow]

theorem and_nibble (a : M256) (i : Nat) :
    (mm256_and a (mm256_set1_epi8 0x0F#8) i).toNat = (a i).toNat % 16 := by
  rw [mm256_and, mm256_set1_epi8, BitVec.toNat_and]
  exact Nat.and_two_pow_sub_one_eq_mod (a i).toNat 4

/-- A lookup of a nibble in a broadcast table. -/
theorem shuffle_broadcast (t : Nat → BitVec 8) (n : M256) {i x : Nat} (hn : (n i).toNat = x)
    (hx : x < 16) : mm256_shuffle_epi8 (mm256_broadcastsi128 t) n i = t x := by
  have htop : (n i).getLsbD 7 = false := by
    rw [← BitVec.testBit_toNat, hn]
    exact Nat.testBit_lt_two_pow (by omega)
  rw [mm256_shuffle_epi8, htop, if_neg (by decide), mm256_broadcastsi128, hn]
  congr 1
  omega

/-- A word is the sum of its nibbles in place. -/
theorem nibbles (hi lo : BitVec 8) :
    symbol (BitVec.ofNat 16 ((lo.toNat % 16) <<< (4 * 0))) +
      symbol (BitVec.ofNat 16 ((lo.toNat / 16) <<< (4 * 1))) +
      (symbol (BitVec.ofNat 16 ((hi.toNat % 16) <<< (4 * 2))) +
      symbol (BitVec.ofNat 16 ((hi.toNat / 16) <<< (4 * 3)))) = symbol (hi ++ lo) := by
  rw [symbol_add, symbol_add, symbol_add]
  congr 1
  apply BitVec.eq_of_getLsbD_eq
  intro i hi16
  have hbit : ∀ x k, (BitVec.ofNat 16 (x <<< (4 * k))).getLsbD i =
      (decide (4 * k ≤ i) && x.testBit (i - 4 * k)) := by
    intro x k
    rw [BitVec.getLsbD_ofNat, Nat.testBit_shiftLeft]
    simp [hi16]
  have hmod : ∀ (x : BitVec 8) j, (x.toNat % 16).testBit j = (decide (j < 4) && x.getLsbD j) := by
    intro x j
    rw [show 16 = 2 ^ 4 by rfl, Nat.testBit_mod_two_pow, BitVec.testBit_toNat]
  have hdiv : ∀ (x : BitVec 8) j, (x.toNat / 16).testBit j = x.getLsbD (4 + j) := by
    intro x j
    rw [show 16 = 2 ^ 4 by rfl, Nat.testBit_div_two_pow, BitVec.testBit_toNat, Nat.add_comm]
  simp only [BitVec.getLsbD_xor, hbit, hmod, hdiv]
  rw [BitVec.getLsbD_append]
  -- the bit lies in one nibble
  rcases Nat.lt_or_ge i 4 with h | h
  · simp [h, show i < 8 by omega, show ¬4 ≤ i by omega, show ¬8 ≤ i by omega,
      show ¬12 ≤ i by omega]
  rcases Nat.lt_or_ge i 8 with h1 | h1
  · simp [h, h1, show ¬i < 4 by omega, show ¬8 ≤ i by omega, show ¬12 ≤ i by omega,
      show 4 + (i - 4) = i by omega]
  rw [if_neg (by omega), BitVec.getLsbD_of_ge lo (4 + (i - 4 * 1)) (by omega)]
  rcases Nat.lt_or_ge i 12 with h2 | h2
  · simp [h1, show ¬i < 4 by omega, show ¬12 ≤ i by omega, show i - 8 < 4 by omega]
  · simp [h1, h2, show ¬i < 4 by omega, show ¬i - 8 < 4 by omega,
      show 4 + (i - 12) = i - 8 by omega]

/-- **The table multiply**: 32 symbols, given by their bytes, times `alpha ^ e`. -/
theorem mul_const32_eq (e : Nat) (alo ahi : M256) (i : Nat) :
    let p := symbol (ahi i ++ alo i) * alpha ^ e
    (mul_const32 (build_nib_tab e) alo ahi).1 i = p.bits.setWidth 8 ∧
      (mul_const32 (build_nib_tab e) alo ahi).2 i = (p.bits >>> 8).setWidth 8 := by
  intro p
  have hp : p.bits = (nib_product (adsc_gf16_pow e) 0 ((alo i).toNat % 16) ^^^
      nib_product (adsc_gf16_pow e) 1 ((alo i).toNat / 16)) ^^^
      (nib_product (adsc_gf16_pow e) 2 ((ahi i).toNat % 16) ^^^
      nib_product (adsc_gf16_pow e) 3 ((ahi i).toNat / 16)) := by
    show (symbol (ahi i ++ alo i) * alpha ^ e).bits = _
    rw [← nibbles]
    simp only [add_mul, nib_product, adsc_gf16_pow_eq, adsc_gf16_mul_eq]
    rfl
  have hlt : ∀ x : BitVec 8, x.toNat / 16 < 16 := fun x => by have := x.isLt; omega
  have hmod : ∀ x : BitVec 8, x.toNat % 16 < 16 := fun x => Nat.mod_lt _ (by decide)
  simp only [mul_const32, nib_lookup, mm256_xor, build_nib_tab]
  rw [hp]
  refine ⟨?_, ?_⟩
  · rw [shuffle_broadcast _ _ (and_nibble alo i) (hmod _),
      shuffle_broadcast _ _ (srli_nibble alo i) (hlt _),
      shuffle_broadcast _ _ (and_nibble ahi i) (hmod _),
      shuffle_broadcast _ _ (srli_nibble ahi i) (hlt _)]
    simp only [BitVec.setWidth_xor]
  · rw [shuffle_broadcast _ _ (and_nibble alo i) (hmod _),
      shuffle_broadcast _ _ (srli_nibble alo i) (hlt _),
      shuffle_broadcast _ _ (and_nibble ahi i) (hmod _),
      shuffle_broadcast _ _ (srli_nibble ahi i) (hlt _)]
    simp only [BitVec.setWidth_xor, BitVec.ushiftRight_xor_distrib]

/-! ## A row in bytes -/

/-- The first `n` words at `v`, split. -/
def RowSplit (m : Mem) (v S n : Nat) (scratch : Mem) : Prop :=
  ∀ c < n, scratch c = m (v + 2 * c) ∧ scratch (S + c) = m (v + (2 * c + 1))

theorem storeu_of_mem {m : Mem} {p a : Nat} (x : M256) (h : p ≤ a ∧ a < p + 32) :
    mm256_storeu m p x a = x (a - p) := if_pos h

theorem storeu_of_not_mem {m : Mem} {p a : Nat} (x : M256) (h : ¬(p ≤ a ∧ a < p + 32)) :
    mm256_storeu m p x a = m a := if_neg h

theorem split_row_spec (m : Mem) (v S : Nat) (scratch : Mem) :
    RowSplit m v S S (split_row m v S scratch) := by
  have hvec : RowSplit m v S (32 * (S / 32)) ((List.range (S / 32)).foldl (fun scratch k =>
      let x := split32 m (v + 2 * (32 * k))
      mm256_storeu (mm256_storeu scratch (32 * k) x.1) (S + 32 * k) x.2) scratch) := by
    refine Loop.foldl_range_inv (fun k s => RowSplit m v S (32 * k) s) (fun c hc => by omega) ?_
    intro k hk s h c hc
    have hS : 32 * k + 32 ≤ S := by omega
    dsimp only
    rw [storeu_of_not_mem (a := c) _ (by omega)]
    by_cases hlt : c < 32 * k
    · rw [storeu_of_not_mem _ (by omega), storeu_of_not_mem _ (by omega),
        storeu_of_not_mem _ (by omega)]
      exact h c hlt
    · obtain ⟨hlo, hhi⟩ := split32_eq m (v + 2 * (32 * k)) (show c - 32 * k < 32 by omega)
      rw [storeu_of_mem _ (by omega), storeu_of_mem _ (by omega),
        show S + c - (S + 32 * k) = c - 32 * k by omega, hlo, hhi]
      refine ⟨?_, ?_⟩
      · congr 1; omega
      · congr 1; omega
  have htail : RowSplit m v S (S / 32 * 32 + (S - S / 32 * 32)) (split_row m v S scratch) := by
    refine Loop.foldl_range_inv (fun k s => RowSplit m v S (S / 32 * 32 + k) s) ?_ ?_
    · rw [Nat.add_zero, Nat.mul_comm]
      exact hvec
    · intro k hk s h c hc
      dsimp only
      rw [Function.update_of_ne (a := c) (by omega)]
      by_cases hlt : c < S / 32 * 32 + k
      · rw [Function.update_of_ne (by omega), Function.update_of_ne (by omega),
          Function.update_of_ne (by omega)]
        exact h c hlt
      · rw [show c = S / 32 * 32 + k by omega, Function.update_self, Function.update_self, load16,
          setWidth_append, shiftRight_append]
        exact ⟨rfl, by rw [Nat.add_assoc]⟩
  rwa [show S / 32 * 32 + (S - S / 32 * 32) = S by omega] at htail

/-! ## A plane in bytes -/

/-- Symbol `c` of plane `r` of the split accumulator. -/
def planeSym (alt : Mem) (S r c : Nat) : Gf16 :=
  symbol (alt (r * (2 * S) + S + c) ++ alt (r * (2 * S) + c))

/-- The plane after its first `n` symbols have taken a Horner step. -/
structure PlaneInv (m : Mem) (v S r : Nat) (alt : Mem) (n : Nat) (alt' : Mem) : Prop where
  done : ∀ c < n, planeSym alt' S r c = planeSym alt S r c * alpha ^ r + wordAt m v c
  todo : ∀ c, n ≤ c → c < S → alt' (r * (2 * S) + c) = alt (r * (2 * S) + c) ∧
    alt' (r * (2 * S) + S + c) = alt (r * (2 * S) + S + c)
  frame : ∀ a, a < r * (2 * S) ∨ r * (2 * S) + 2 * S ≤ a → alt' a = alt a

section
variable {m : Mem} {v S r : Nat} {alt alt' scratch : Mem} (hscr : RowSplit m v S S scratch)

include hscr in
theorem scratch_word {c : Nat} (hc : c < S) :
    symbol (scratch (S + c) ++ scratch c) = wordAt m v c := by
  obtain ⟨hlo, hhi⟩ := hscr c hc
  rw [hlo, hhi, wordAt, load16]
  rfl

theorem planeSym_congr {n : Nat} (h : PlaneInv m v S r alt n alt') {c : Nat} (hn : n ≤ c)
    (hc : c < S) : planeSym alt' S r c = planeSym alt S r c := by
  obtain ⟨h1, h2⟩ := h.todo c hn hc
  rw [planeSym, h1, h2, planeSym]

include hscr in
theorem PlaneInv.vec {k : Nat} (hk : k < S / 32) (h : PlaneInv m v S r alt (32 * k) alt') :
    PlaneInv m v S r alt (32 * (k + 1)) (plane_vec scratch S r (32 * k) alt') := by
  have hS : 32 * k + 32 ≤ S := by omega
  -- what the vector code computes for each symbol
  have hval : ∀ c, 32 * k ≤ c → c < 32 * k + 32 →
      planeSym (plane_vec scratch S r (32 * k) alt') S r c =
        planeSym alt S r c * alpha ^ r + wordAt m v c := by
    intro c hc hc'
    have hx : ∀ x : M256 × M256,
        (x.1 (c - 32 * k) = (planeSym alt' S r c * alpha ^ r).bits.setWidth 8 ∧
          x.2 (c - 32 * k) = ((planeSym alt' S r c * alpha ^ r).bits >>> 8).setWidth 8) →
        planeSym (mm256_storeu (mm256_storeu alt' (r * (2 * S) + 32 * k)
          (mm256_xor x.1 (mm256_loadu scratch (32 * k)))) (r * (2 * S) + S + 32 * k)
          (mm256_xor x.2 (mm256_loadu scratch (S + 32 * k)))) S r c =
        planeSym alt' S r c * alpha ^ r + wordAt m v c := by
      rintro x ⟨h1, h2⟩
      rw [planeSym, storeu_of_mem (p := r * (2 * S) + S + 32 * k) _ (by omega),
        storeu_of_not_mem (p := r * (2 * S) + S + 32 * k) _ (by omega),
        storeu_of_mem (p := r * (2 * S) + 32 * k) _ (by omega)]
      simp only [mm256_xor, mm256_loadu]
      rw [show r * (2 * S) + S + c - (r * (2 * S) + S + 32 * k) = c - 32 * k by omega,
        show r * (2 * S) + c - (r * (2 * S) + 32 * k) = c - 32 * k by omega, h1, h2, append_xor,
        append_bytes, ← symbol_add, show S + 32 * k + (c - 32 * k) = S + c by omega,
        show 32 * k + (c - 32 * k) = c by omega, scratch_word hscr (by omega)]
      rfl
    rw [← planeSym_congr h hc (by omega)]
    refine hx _ ?_
    have hload : symbol (mm256_loadu alt' (r * (2 * S) + S + 32 * k) (c - 32 * k) ++
        mm256_loadu alt' (r * (2 * S) + 32 * k) (c - 32 * k)) = planeSym alt' S r c := by
      rw [mm256_loadu, mm256_loadu, planeSym,
        show r * (2 * S) + S + 32 * k + (c - 32 * k) = r * (2 * S) + S + c by omega,
        show r * (2 * S) + 32 * k + (c - 32 * k) = r * (2 * S) + c by omega]
    split
    · rw [← hload]
      exact mul_const32_eq r _ _ _
    · rename_i hr
      rw [not_not.1 hr, pow_zero, mul_one, ← not_not.1 hr, ← hload]
      exact ⟨(setWidth_append _ _).symm, (shiftRight_append _ _).symm⟩
  refine ⟨fun c hc => ?_, fun c hn hc => ?_, fun a ha => ?_⟩
  · by_cases hlt : c < 32 * k
    · rw [← h.done c hlt, planeSym, planeSym, plane_vec, storeu_of_not_mem _ (by omega),
        storeu_of_not_mem _ (by omega), storeu_of_not_mem _ (by omega),
        storeu_of_not_mem _ (by omega)]
    · exact hval c (by omega) (by omega)
  · rw [plane_vec, storeu_of_not_mem _ (by omega), storeu_of_not_mem _ (by omega),
      storeu_of_not_mem _ (by omega), storeu_of_not_mem _ (by omega)]
    exact h.todo c (by omega) hc
  · rw [plane_vec, storeu_of_not_mem _ (by omega), storeu_of_not_mem _ (by omega)]
    exact h.frame a ha

include hscr in
theorem PlaneInv.tail (hr : r < ADSC_GF16_ORDER) {n : Nat} (hn : n < S)
    (h : PlaneInv m v S r alt n alt') :
    PlaneInv m v S r alt (n + 1) (plane_tail scratch S r n alt') := by
  refine ⟨fun c hc => ?_, fun c hn hc => ?_, fun a ha => ?_⟩
  · by_cases hlt : c < n
    · rw [← h.done c hlt, planeSym, planeSym, plane_tail, Function.update_of_ne (by omega),
        Function.update_of_ne (by omega), Function.update_of_ne (by omega),
        Function.update_of_ne (by omega)]
    · obtain rfl : c = n := by omega
      rw [← planeSym_congr h (Nat.le_refl c) hn, planeSym, plane_tail, Function.update_self,
        Function.update_of_ne (by omega), Function.update_self, append_bytes,
        adsc_gf16_mul_pow_fast_eq _ hr, BinField.xor_eq_add, scratch_word hscr hn]
      rfl
  · rw [plane_tail, Function.update_of_ne (by omega), Function.update_of_ne (by omega),
      Function.update_of_ne (by omega), Function.update_of_ne (by omega)]
    exact h.todo c (by omega) hc
  · rw [plane_tail, Function.update_of_ne (by omega), Function.update_of_ne (by omega)]
    exact h.frame a ha

include hscr in
/-- **One plane of the split accumulator** takes the plane's step. -/
theorem plane_split_spec (hr : r < ADSC_GF16_ORDER) :
    PlaneInv m v S r alt S (plane_split scratch S r alt) := by
  have hvec : PlaneInv m v S r alt (32 * (S / 32)) ((List.range (S / 32)).foldl
      (fun alt k => plane_vec scratch S r (32 * k) alt) alt) :=
    Loop.foldl_range_inv (fun k a => PlaneInv m v S r alt (32 * k) a)
      ⟨fun c hc => by omega, fun _ _ _ => ⟨rfl, rfl⟩, fun _ _ => rfl⟩
      fun k hk a h => h.vec hscr hk
  have htail : PlaneInv m v S r alt (S / 32 * 32 + (S - S / 32 * 32)) (plane_split scratch S r alt) :=
    Loop.foldl_range_inv (fun k a => PlaneInv m v S r alt (S / 32 * 32 + k) a)
      (by rw [Nat.add_zero, Nat.mul_comm]; exact hvec)
      fun k hk a h => h.tail hscr hr (show S / 32 * 32 + k < S by omega)
  rwa [show S / 32 * 32 + (S - S / 32 * 32) = S by omega] at htail

end

/-! ## Rows and planes -/

theorem plane_sep {S r k : Nat} (h : r ≠ k) :
    r * (2 * S) + 2 * S ≤ k * (2 * S) ∨ k * (2 * S) + 2 * S ≤ r * (2 * S) := by
  rcases Nat.lt_or_gt_of_ne h with h | h
  · have := Nat.mul_le_mul_right (2 * S) (show r + 1 ≤ k from h)
    rw [Nat.succ_mul] at this
    exact .inl this
  · have := Nat.mul_le_mul_right (2 * S) (show k + 1 ≤ r from h)
    rw [Nat.succ_mul] at this
    exact .inr this

/-- A plane that another plane's loop leaves alone. -/
theorem planeSym_frame {S r k c : Nat} {alt alt' : Mem} (h : r ≠ k) (hc : c < S)
    (hf : ∀ a, a < k * (2 * S) ∨ k * (2 * S) + 2 * S ≤ a → alt' a = alt a) :
    planeSym alt' S r c = planeSym alt S r c := by
  have := plane_sep (S := S) h
  rw [planeSym, planeSym, hf _ (by omega), hf _ (by omega)]

section
variable (m : Mem) (pcm first S npar : Nat)

/-- **One row** of the split accumulator. -/
theorem split_sweep_row_spec (hnpar : npar ≤ 32) (v : Nat) (st : SplitState) {r c : Nat}
    (hr : r < npar) (hc : c < S) : planeSym (split_sweep_row m S npar v st).alt S r c =
      planeSym st.alt S r c * alpha ^ r + wordAt m v c := by
  have key : ∀ n ≤ npar, ∀ r c, c < S →
      planeSym ((List.range n).foldl (fun alt r => plane_split (split_row m v S st.scratch) S r alt)
        st.alt) S r c =
      if r < n then planeSym st.alt S r c * alpha ^ r + wordAt m v c else planeSym st.alt S r c := by
    intro n
    induction n with
    | zero => intro _ r c _; rw [if_neg (Nat.not_lt_zero r)]; rfl
    | succ n ih =>
      intro hn r c hc
      have hord : n < 65535 := by omega
      have hspec := fun alt => @plane_split_spec m v S n alt _ (split_row_spec m v S st.scratch) hord
      rw [List.range_succ, List.foldl_append, List.foldl_cons, List.foldl_nil]
      by_cases h : r = n
      · subst h
        rw [(hspec _).done c hc, ih (by omega) r c hc, if_neg (Nat.lt_irrefl r),
          if_pos (Nat.lt_succ_self r)]
      · rw [planeSym_frame h hc (hspec _).frame, ih (by omega) r c hc]
        exact if_congr (by omega) rfl rfl
  have h := key npar (Nat.le_refl _) r c hc
  rwa [if_pos hr] at h

theorem split_rows (hnpar : npar ≤ 32) (alt scratch : Mem) (n : Nat) :
    let st := (List.range n).foldl
      (fun st j => split_sweep_row m S npar (pcm + 2 * (first + j * S)) st)
      ⟨alt, scratch, 0xFFFFFFFF#32⟩
    (∀ r < npar, ∀ c < S, planeSym st.alt S r c =
      planeSym alt S r c * alpha ^ (r * n) + columnSyndrome (wordAt m pcm) (first + c) S n r) ∧
    st.crc = crcBytes m 0xFFFFFFFF#32 (pcm + 2 * first) (n * (S * 2)) := by
  refine Loop.foldl_range_inv (fun n (st : SplitState) => (∀ r < npar, ∀ c < S, planeSym st.alt S r c =
    planeSym alt S r c * alpha ^ (r * n) + columnSyndrome (wordAt m pcm) (first + c) S n r) ∧
    st.crc = crcBytes m 0xFFFFFFFF#32 (pcm + 2 * first) (n * (S * 2))) ?_ ?_
  · refine ⟨fun r _ c _ => ?_, by rw [Nat.zero_mul]; rfl⟩
    rw [Nat.mul_zero, pow_zero, mul_one]
    exact (add_zero _).symm
  · rintro j - st ⟨halt, hcrc⟩
    refine ⟨fun r hr c hc => ?_, ?_⟩
    · rw [split_sweep_row_spec m S npar hnpar _ st hr hc, halt r hr c hc, wordAt_row, horner_succ]
    · exact row_crc m pcm first S j hcrc

theorem load16_store16 (alt : Mem) (a : Nat) (x : BitVec 16) : load16 (store16 alt a x) a = x := by
  rw [load16, store16, Function.update_self, Function.update_of_ne (by omega), Function.update_self,
    append_bytes]

theorem load16_store16_of_ne (alt : Mem) {a b : Nat} (x : BitVec 16) (h : b + 2 ≤ a ∨ a + 2 ≤ b) :
    load16 (store16 alt b x) a = load16 alt a := by
  rw [load16, store16, Function.update_of_ne (by omega), Function.update_of_ne (by omega),
    Function.update_of_ne (by omega), Function.update_of_ne (by omega), load16]

/-- The words of a plane after its way back, and the other planes' bytes. -/
theorem unsplit_plane_spec (r : Nat) (alt : Mem) :
    (∀ c < S, symbol (load16 (unsplit_plane S r alt) (2 * (r * S + c))) = planeSym alt S r c) ∧
    ∀ a, a < r * (2 * S) ∨ r * (2 * S) + 2 * S ≤ a → unsplit_plane S r alt a = alt a := by
  have haddr : 2 * (r * S) = r * (2 * S) := Nat.mul_left_comm 2 r S
  refine Loop.foldl_range_inv (fun n (alt' : Mem) =>
    (∀ c < n, symbol (load16 alt' (2 * (r * S + c))) = planeSym alt S r c) ∧
    ∀ a, a < r * (2 * S) ∨ r * (2 * S) + 2 * S ≤ a → alt' a = alt a)
    ⟨fun c hc => by omega, fun _ _ => rfl⟩ ?_
  rintro n hn alt' ⟨hw, hf⟩
  refine ⟨fun c hc => ?_, fun a ha => ?_⟩
  · by_cases hlt : c < n
    · rw [load16_store16_of_ne _ _ (by omega)]
      exact hw c hlt
    · obtain rfl : c = n := by omega
      rw [load16_store16, planeSym, Nat.add_assoc]
  · rw [store16, Function.update_of_ne (by omega), Function.update_of_ne (by omega)]
    exact hf a ha

theorem unsplit_planes (alt : Mem) {r c : Nat} (hr : r < npar) (hc : c < S) :
    symbol (load16 ((List.range npar).foldl (fun alt r => unsplit_plane S r alt) alt)
      (2 * (r * S + c))) = planeSym alt S r c := by
  have haddr : ∀ k, 2 * (k * S) = k * (2 * S) := fun k => Nat.mul_left_comm 2 k S
  have key := Loop.foldl_range_inv (n := npar) (s := alt)
    (f := fun alt r => unsplit_plane S r alt) (fun n (alt' : Mem) =>
    (∀ r < n, ∀ c < S, symbol (load16 alt' (2 * (r * S + c))) = planeSym alt S r c) ∧
    ∀ a, n * (2 * S) ≤ a → alt' a = alt a)
    ⟨fun r hr => by omega, fun _ _ => rfl⟩ ?_
  · exact key.1 r hr c hc
  · rintro n hn alt' ⟨hw, hf⟩
    obtain ⟨h1, h2⟩ := unsplit_plane_spec S n alt'
    refine ⟨fun r hr c hc => ?_, fun a ha => ?_⟩
    · by_cases h : r = n
      · subst h
        rw [h1 c hc, planeSym, hf _ (by omega), hf _ (by omega), planeSym]
      · have := plane_sep (S := S) h
        have := haddr r
        rw [load16, h2 _ (by omega), h2 _ (by omega)]
        exact hw r (by omega) c hc
    · rw [Nat.succ_mul] at ha
      rw [h2 a (by omega), hf a (by omega)]

/-- The accumulator's bytes. -/
def accBytes (acc : Nat → Gf16) : Mem := fun a =>
  if a % 2 = 0 then (acc (a / 2)).bits.setWidth 8 else ((acc (a / 2)).bits >>> 8).setWidth 8

/-- The zeroed accumulator is zero in either form. -/
theorem planeSym_zero (r c : Nat) : planeSym (accBytes fun _ => 0) S r c = 0 := by
  rw [planeSym]
  simp only [accBytes, show (0 : Gf16).bits = 0#16 from rfl, BitVec.setWidth_zero, BitVec.zero_ushiftRight,
    ite_self]
  rfl

variable {npar} in
/-- **The AVX2 accumulator.** -/
theorem sweep_avx2_acc_from (hnpar : npar ≤ 32) (sc : Nat) (acc : Nat → Gf16) (scratch : Mem) {r c : Nat}
    (hr : r < npar) (hc : c < S) : (sweep_avx2 m pcm first S sc npar acc scratch).acc (r * S + c) =
      planeSym (accBytes acc) S r c * alpha ^ (r * sc) +
        columnSyndrome (wordAt m pcm) (first + c) S sc r := by
  rw [← (split_rows m pcm first S npar hnpar (accBytes acc) scratch sc).1 r hr c hc]
  exact unsplit_planes S npar _ hr hc

variable {npar} in
theorem sweep_avx2_acc (hnpar : npar ≤ 32) (sc : Nat) (scratch : Mem) {r c : Nat} (hr : r < npar)
    (hc : c < S) : (sweep_avx2 m pcm first S sc npar (fun _ => 0) scratch).acc (r * S + c) =
      columnSyndrome (wordAt m pcm) (first + c) S sc r := by
  rw [sweep_avx2_acc_from m pcm first S hnpar sc _ scratch hr hc, planeSym_zero, zero_mul, zero_add]

variable {npar} in
theorem sweep_avx2_crc (hnpar : npar ≤ 32) (sc : Nat) (acc : Nat → Gf16) (scratch : Mem) :
    (sweep_avx2 m pcm first S sc npar acc scratch).crc =
      crcBytes m 0xFFFFFFFF#32 (pcm + 2 * first) (sc * (S * 2)) ^^^ 0xFFFFFFFF#32 := by
  rw [sweep_avx2]
  exact congrArg (· ^^^ 0xFFFFFFFF#32) (split_rows m pcm first S npar hnpar (accBytes acc) scratch sc).2

variable {npar} in
/-- **The sweep**, whichever kernel runs. -/
theorem adsc_ctdb_sweep_spec (k : Kernel) (hnpar : npar ≤ 32) (sc : Nat) :
    let st := adsc_ctdb_sweep k m pcm first S sc npar fun _ => 0
    (∀ r < npar, ∀ c < S, st.acc (r * S + c) =
      columnSyndrome (wordAt m pcm) (first + c) S sc r) ∧
    st.crc = crcBytes m 0xFFFFFFFF#32 (pcm + 2 * first) (sc * (S * 2)) ^^^ 0xFFFFFFFF#32 := by
  unfold adsc_ctdb_sweep
  split
  · exact ⟨fun r hr c hc => sweep_avx2_acc m pcm first S hnpar sc _ hr hc,
      sweep_avx2_crc m pcm first S hnpar sc _ _⟩
  · exact ⟨fun r hr c hc => sweep_scalar_acc m pcm first S hnpar sc hr hc,
      sweep_scalar_crc m pcm first S hnpar sc _⟩

variable {npar} in
/-- **The two kernels agree**, with each other and with the definition: every symbol of the accumulator is
its column's syndrome and the CRC is that of the span, a byte at a time. -/
theorem sweep_avx2_agrees (hnpar : npar ≤ 32) (sc : Nat) (scratch : Mem) :
    let avx2 := sweep_avx2 m pcm first S sc npar (fun _ => 0) scratch
    let scalar := sweep_scalar m pcm first S sc npar fun _ => 0
    let crc := crcBytes m 0xFFFFFFFF#32 (pcm + 2 * first) (2 * (sc * S)) ^^^ 0xFFFFFFFF#32
    (∀ i < npar * S, avx2.acc i = scalar.acc i) ∧
    (∀ r < npar, ∀ c < S, avx2.acc (r * S + c) =
      ∑ j ∈ range sc, wordAt m pcm (first + c + j * S) * alpha ^ (r * (sc - 1 - j))) ∧
    avx2.crc = crc ∧ scalar.crc = crc ∧ adsc_ctdb_crc32_words m (pcm + 2 * first) (sc * S) = crc := by
  intro avx2 scalar crc
  have hspan : sc * (S * 2) = 2 * (sc * S) := by rw [← Nat.mul_assoc, Nat.mul_comm]
  refine ⟨fun i hi => ?_, fun r hr c hc => sweep_avx2_acc m pcm first S hnpar sc scratch hr hc, ?_, ?_, ?_⟩
  · have hS : 0 < S := Nat.pos_of_ne_zero fun h => by simp [h] at hi
    have hr : i / S < npar := Nat.div_lt_of_lt_mul (by rwa [Nat.mul_comm])
    have hc : i % S < S := Nat.mod_lt i hS
    rw [← Nat.div_add_mod' i S]
    exact (sweep_avx2_acc m pcm first S hnpar sc scratch hr hc).trans
      (sweep_scalar_acc m pcm first S hnpar sc hr hc).symm
  · rw [sweep_avx2_crc m pcm first S hnpar sc _ scratch, hspan]
  · rw [sweep_scalar_crc m pcm first S hnpar sc _, hspan]
  · rw [adsc_ctdb_crc32_words, crc_update_eq, Nat.mul_comm (sc * S)]

/-- Thirty-three columns, so that one is left to the tail. -/
theorem sweep_avx2_agrees_tail :
    (sweep_avx2 (fun a => BitVec.ofNat 8 a) 0 0 33 2 2 (fun _ => 0) fun _ => 0).acc 65 =
      (sweep_scalar (fun a => BitVec.ofNat 8 a) 0 0 33 2 2 fun _ => 0).acc 65 :=
  (sweep_avx2_agrees (fun a => BitVec.ofNat 8 a) 0 0 33 (by decide) 2 fun _ => 0).1 65 (by decide)

end

end Accudisc
