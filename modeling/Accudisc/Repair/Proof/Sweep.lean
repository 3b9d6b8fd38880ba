import Accudisc.Repair.Gf16Field
import Accudisc.Repair.Proof.SweepCrc
import Mathlib.Algebra.BigOperators.Ring.Finset

/-!
# The scalar sweep computes the columns' syndromes

The row-direction Horner recurrence leaves in `acc[r * S + c]` the `r`-th syndrome of column `c`
(`sweep_scalar_acc`) and the fused CRC is that of the rows' bytes (`sweep_scalar_crc`).
-/

namespace Accudisc

open Finset

/-- Word `w` of the array at `base`, as a field symbol. -/
def wordAt (m : Mem) (base w : Nat) : Gf16 := symbol (load16 m (base + 2 * w))

/-- The `r`-th syndrome of the first `n` symbols of the column that starts at word `c`. -/
def columnSyndrome (x : Nat → Gf16) (c S n r : Nat) : Gf16 :=
  ∑ j ∈ range n, x (c + j * S) * alpha ^ (r * (n - 1 - j))

/-- Horner: one more symbol. -/
theorem columnSyndrome_succ (x : Nat → Gf16) (c S n r : Nat) :
    columnSyndrome x c S (n + 1) r = columnSyndrome x c S n r * alpha ^ r + x (c + n * S) := by
  rw [columnSyndrome, sum_range_succ, columnSyndrome, sum_mul, Nat.add_sub_cancel, Nat.sub_self,
    Nat.mul_zero, pow_zero, mul_one]
  congr 1
  refine sum_congr rfl fun j hj => ?_
  have := mem_range.1 hj
  rw [mul_assoc, ← pow_add, ← Nat.mul_succ, show (n - 1 - j).succ = n - j by omega]

/-- The same from any start. -/
theorem horner_succ (a : Gf16) (x : Nat → Gf16) (c S n r : Nat) :
    (a * alpha ^ (r * n) + columnSyndrome x c S n r) * alpha ^ r + x (c + n * S) =
      a * alpha ^ (r * (n + 1)) + columnSyndrome x c S (n + 1) r := by
  rw [columnSyndrome_succ, add_mul, mul_assoc, ← pow_add, ← Nat.mul_succ, add_assoc]

section
variable (m : Mem) (acc : Nat → Gf16) (v S : Nat)

theorem plane_step_get (plane : Nat) {e : Nat} (he : e < ADSC_GF16_ORDER) (i : Nat) :
    plane_step m acc plane v S e i = if plane ≤ i ∧ i < plane + S then
      acc i * alpha ^ e + wordAt m v (i - plane) else acc i := by
  have h := Loop.foldl_update_range plane S
    (fun c a => adsc_gf16_mul_pow_fast a e ^^^ symbol (load16 m (v + 2 * c))) acc i
  simp only [adsc_gf16_mul_pow_fast_eq _ he, BinField.xor_eq_add] at h
  rw [plane_step]
  simp only [adsc_gf16_mul_pow_fast_eq _ he, BinField.xor_eq_add]
  exact h

theorem plane_xor_get (i : Nat) :
    plane_xor m acc v S i = if i < S then acc i + wordAt m v i else acc i := by
  have h := Loop.foldl_update_range 0 S (fun c a => a ^^^ symbol (load16 m (v + 2 * c))) acc i
  simp only [Nat.zero_add, Nat.sub_zero, Nat.zero_le, true_and, BinField.xor_eq_add] at h
  exact h

/-- Plane `r` of an index. -/
theorem mem_plane {S r c k : Nat} (hc : c < S) :
    k * S ≤ r * S + c ∧ r * S + c < k * S + S ↔ r = k := by
  constructor
  · rintro ⟨h1, h2⟩
    rcases Nat.lt_trichotomy r k with h | h | h
    · have := Nat.mul_le_mul_right S (show r + 1 ≤ k by omega)
      rw [Nat.succ_mul] at this
      omega
    · exact h
    · have := Nat.mul_le_mul_right S (show k + 1 ≤ r by omega)
      rw [Nat.succ_mul] at this
      omega
  · rintro rfl
    omega

/-- **One row** is one Horner step of every column's every syndrome. -/
theorem sweep_row_acc {npar : Nat} (hnpar : npar ≤ 32) (crc : BitVec 32) {r c : Nat} (hr : r < npar)
    (hc : c < S) : (sweep_row m S npar v ⟨acc, crc⟩).acc (r * S + c) =
      acc (r * S + c) * alpha ^ r + wordAt m v c := by
  have key : ∀ n, n < 32 → (List.range n).foldl
      (fun acc k => plane_step m acc ((k + 1) * S) v S (k + 1)) (plane_xor m acc v S) (r * S + c) =
      if r ≤ n then acc (r * S + c) * alpha ^ r + wordAt m v c else acc (r * S + c) := by
    intro n
    induction n with
    | zero =>
      intro _
      rw [List.range_zero, List.foldl_nil, plane_xor_get]
      rcases Nat.eq_zero_or_pos r with rfl | h
      · simp [hc]
      · have := Nat.mul_le_mul_right S (show 1 ≤ r from h)
        rw [if_neg (by omega), if_neg (by omega)]
    | succ n ih =>
      intro hn
      rw [List.range_succ, List.foldl_append, List.foldl_cons, List.foldl_nil,
        plane_step_get _ _ _ _ _ (show n + 1 < 65535 by omega), ih (by omega)]
      by_cases h : r = n + 1
      · subst h
        rw [if_pos ((mem_plane hc).2 rfl), if_neg (by omega), if_pos (Nat.le_refl _),
          Nat.add_sub_cancel_left]
      · rw [if_neg fun h' => h ((mem_plane hc).1 h')]
        exact if_congr (by omega) rfl rfl
  have h := key (npar - 1) (by omega)
  rw [if_pos (by omega)] at h
  exact h

end

section
variable (m : Mem) (pcm first S npar : Nat)

theorem wordAt_row (j c : Nat) :
    wordAt m (pcm + 2 * (first + j * S)) c = wordAt m pcm (first + c + j * S) := by
  unfold wordAt
  congr 2
  omega

/-- The fused CRC goes on with the next row. -/
theorem row_crc (j : Nat) {crc : BitVec 32}
    (h : crc = crcBytes m 0xFFFFFFFF#32 (pcm + 2 * first) (j * (S * 2))) :
    crc_update m crc (pcm + 2 * (first + j * S)) (S * 2) =
      crcBytes m 0xFFFFFFFF#32 (pcm + 2 * first) ((j + 1) * (S * 2)) := by
  have haddr : pcm + 2 * (first + j * S) = pcm + 2 * first + j * (S * 2) := by
    rw [Nat.mul_add, Nat.add_assoc, Nat.mul_comm S 2, Nat.mul_left_comm]
  rw [h, crc_update_eq, haddr, ← crcBytes_add, ← Nat.succ_mul]

theorem sweep_rows (hnpar : npar ≤ 32) (acc : Nat → Gf16) (n : Nat) :
    let st := (List.range n).foldl
      (fun st j => sweep_row m S npar (pcm + 2 * (first + j * S)) st)
      (⟨acc, 0xFFFFFFFF#32⟩ : SweepState)
    (∀ r < npar, ∀ c < S, st.acc (r * S + c) =
      acc (r * S + c) * alpha ^ (r * n) + columnSyndrome (wordAt m pcm) (first + c) S n r) ∧
    st.crc = crcBytes m 0xFFFFFFFF#32 (pcm + 2 * first) (n * (S * 2)) := by
  refine Loop.foldl_range_inv (fun n (st : SweepState) => (∀ r < npar, ∀ c < S, st.acc (r * S + c) =
    acc (r * S + c) * alpha ^ (r * n) + columnSyndrome (wordAt m pcm) (first + c) S n r) ∧
    st.crc = crcBytes m 0xFFFFFFFF#32 (pcm + 2 * first) (n * (S * 2))) ?_ ?_
  · refine ⟨fun r _ c _ => ?_, by rw [Nat.zero_mul]; rfl⟩
    rw [Nat.mul_zero, pow_zero, mul_one]
    exact (add_zero _).symm
  · rintro j - ⟨acc', crc⟩ ⟨hacc, hcrc⟩
    dsimp only at hacc hcrc
    refine ⟨fun r hr c hc => ?_, ?_⟩
    · rw [sweep_row_acc m acc' _ S hnpar crc hr hc, hacc r hr c hc, wordAt_row, horner_succ]
    · exact row_crc m pcm first S j hcrc

variable {npar}

/-- **The accumulator** after the sweep. -/
theorem sweep_scalar_acc_from (hnpar : npar ≤ 32) (sc : Nat) (acc : Nat → Gf16) {r c : Nat} (hr : r < npar)
    (hc : c < S) : (sweep_scalar m pcm first S sc npar acc).acc (r * S + c) =
      acc (r * S + c) * alpha ^ (r * sc) + columnSyndrome (wordAt m pcm) (first + c) S sc r :=
  (sweep_rows m pcm first S npar hnpar acc sc).1 r hr c hc

theorem sweep_scalar_acc (hnpar : npar ≤ 32) (sc : Nat) {r c : Nat} (hr : r < npar) (hc : c < S) :
    (sweep_scalar m pcm first S sc npar fun _ => 0).acc (r * S + c) =
      columnSyndrome (wordAt m pcm) (first + c) S sc r := by
  rw [sweep_scalar_acc_from m pcm first S hnpar sc _ hr hc, zero_mul, zero_add]

theorem sweep_scalar_crc (hnpar : npar ≤ 32) (sc : Nat) (acc : Nat → Gf16) :
    (sweep_scalar m pcm first S sc npar acc).crc =
      crcBytes m 0xFFFFFFFF#32 (pcm + 2 * first) (sc * (S * 2)) ^^^ 0xFFFFFFFF#32 := by
  rw [sweep_scalar, (sweep_rows m pcm first S npar hnpar acc sc).2]

end

end Accudisc
