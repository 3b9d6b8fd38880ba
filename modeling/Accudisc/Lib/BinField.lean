import Mathlib.Algebra.Group.Pi.Basic
import Mathlib.Algebra.Ring.Basic
import Mathlib.Algebra.CharP.Two
import Mathlib.Algebra.Field.Basic
import Mathlib.Algebra.BigOperators.Group.Finset.Basic
import Mathlib.GroupTheory.OrderOfElement

/-!
# Binary polynomial fields on machine words

`BinField w p` is a `w`-bit word read as a polynomial over GF(2) modulo `x ^ w + p`: addition is
`xor`, `step` multiplies by `x`, and the product is shift-and-add. The ring laws come from one
fact (`End.ext_of_commute`): every word is a sum of powers of `step` applied to `1`, so two
additive maps that commute with `step` and agree at `1` are equal.

`Primitive w p` says that `x` has order `2 ^ w - 1`; then every non-zero word is a power of `x`
(`exists_pow_eq`) and `BinField w p` is a field. `primitive_of_check` gets it from a few
products.
-/

/-- A `w`-bit word, the coefficients of a polynomial over GF(2) modulo `x ^ w + p`. -/
@[ext]
structure BinField (w : Nat) (p : BitVec w) where
  bits : BitVec w
  deriving DecidableEq, Repr

namespace BinField

variable {w : Nat} {p : BitVec w}

instance : XorOp (BinField w p) := ⟨fun a b => ⟨a.bits ^^^ b.bits⟩⟩
instance : Zero (BinField w p) := ⟨⟨0#w⟩⟩
instance : One (BinField w p) := ⟨⟨1#w⟩⟩
instance : Add (BinField w p) := ⟨fun a b => a ^^^ b⟩
instance : Neg (BinField w p) := ⟨fun a => a⟩
instance : Sub (BinField w p) := ⟨fun a b => a ^^^ b⟩

/-- Exclusive or is the field's addition. -/
@[simp] theorem xor_eq_add (a b : BinField w p) : a ^^^ b = a + b := rfl

@[simp] theorem bits_add (a b : BinField w p) : (a + b).bits = a.bits ^^^ b.bits := rfl
@[simp] theorem bits_zero : (0 : BinField w p).bits = 0#w := rfl
@[simp] theorem bits_one : (1 : BinField w p).bits = 1#w := rfl
@[simp] theorem bits_neg (a : BinField w p) : (-a).bits = a.bits := rfl

instance : AddCommGroup (BinField w p) where
  add_assoc a b c := by ext1; simp [BitVec.xor_assoc]
  zero_add a := by ext1; simp
  add_zero a := by ext1; simp
  add_comm a b := by ext1; simp [BitVec.xor_comm]
  neg_add_cancel a := by ext1; simp
  sub_eq_add_neg _ _ := rfl
  nsmul := nsmulRec
  zsmul := zsmulRec

/-! ## Multiplication by `x` -/

/-- Multiplication by `x`: shift, and fold the bit that falls off the top back in as `p`. -/
def step (a : BinField w p) : BinField w p :=
  ⟨(a.bits <<< 1) ^^^ (if a.bits.msb then p else 0#w)⟩

theorem step_add (a b : BinField w p) : step (a + b) = step a + step b := by
  ext1
  simp only [step, bits_add, BitVec.msb_xor]
  apply BitVec.eq_of_getLsbD_eq
  intro j hj
  cases a.bits.msb <;> cases b.bits.msb <;> simp [hj] <;> grind

@[simp] theorem step_zero : step (0 : BinField w p) = 0 := by ext1; simp [step]

theorem step_twoPow {i : Nat} (h : i + 1 < w) :
    step (⟨BitVec.twoPow w i⟩ : BinField w p) = ⟨BitVec.twoPow w (i + 1)⟩ := by
  have hm : (BitVec.twoPow w i).msb = false := by
    rw [BitVec.msb_eq_getLsbD_last, BitVec.getLsbD_twoPow]
    simp; omega
  ext1
  apply BitVec.eq_of_getLsbD_eq
  intro j hj
  simp only [step, hm, Bool.false_eq_true, ↓reduceIte, BitVec.xor_zero, BitVec.getLsbD_shiftLeft,
    BitVec.getLsbD_twoPow]
  grind

theorem step_iterate_one {i : Nat} (h : i < w) :
    step^[i] (1 : BinField w p) = ⟨BitVec.twoPow w i⟩ := by
  induction i with
  | zero => ext1; simp [BitVec.twoPow]
  | succ i ih => rw [Function.iterate_succ_apply', ih (by omega), step_twoPow h]

/-! ## The product -/

/-- Shift and add: `b` times the part of `a` below bit `n`. -/
def mulBits (a : BitVec w) (b : BinField w p) : Nat → BinField w p
  | 0 => 0
  | n + 1 => mulBits a b n + if a.getLsbD n then step^[n] b else 0

instance : Mul (BinField w p) := ⟨fun a b => mulBits a.bits b w⟩

theorem mul_def (a b : BinField w p) : a * b = mulBits a.bits b w := rfl

theorem getLsbD_mulBits_one (a : BitVec w) {n : Nat} (hn : n ≤ w) (j : Nat) :
    (mulBits a (1 : BinField w p) n).bits.getLsbD j = (a.getLsbD j && decide (j < n)) := by
  induction n with
  | zero => simp [mulBits]
  | succ n ih =>
    rw [mulBits, bits_add, BitVec.getLsbD_xor, ih (by omega), step_iterate_one (by omega)]
    split
    · rename_i ha
      rcases Nat.lt_trichotomy j n with h | rfl | h
      · simp [BitVec.getLsbD_twoPow]; grind
      · simp [BitVec.getLsbD_twoPow, ha]; omega
      · simp [BitVec.getLsbD_twoPow]; grind
    · rename_i ha
      rcases Nat.lt_trichotomy j n with h | rfl | h
      · simp; grind
      · simp [ha]
      · simp; grind

/-- The maps that respect addition and multiplication by `x`. -/
structure StepLinear (f : BinField w p → BinField w p) : Prop where
  map_add : ∀ a b, f (a + b) = f a + f b
  map_step : ∀ a, f (step a) = step (f a)

namespace StepLinear

variable {f g : BinField w p → BinField w p}

theorem map_zero (hf : StepLinear f) : f 0 = 0 := by simpa using hf.map_add 0 0

theorem map_iterate (hf : StepLinear f) (a : BinField w p) (n : Nat) :
    f (step^[n] a) = step^[n] (f a) := by
  induction n with
  | zero => rfl
  | succ n ih =>
    rw [Function.iterate_succ_apply', Function.iterate_succ_apply', hf.map_step, ih]

theorem map_mulBits (hf : StepLinear f) (a : BitVec w) (b : BinField w p) (n : Nat) :
    f (mulBits a b n) = mulBits a (f b) n := by
  induction n with
  | zero => exact hf.map_zero
  | succ n ih =>
    rw [mulBits, hf.map_add, ih, mulBits]
    split
    · rw [hf.map_iterate]
    · rw [hf.map_zero]

end StepLinear

/-- Every word is the sum of the powers of `x` its bits select. -/
protected theorem mul_one (a : BinField w p) : a * 1 = a := by
  ext1
  apply BitVec.eq_of_getLsbD_eq
  intro j hj
  rw [mul_def, getLsbD_mulBits_one _ (Nat.le_refl w)]
  simp [hj]

/-- **Uniqueness**: maps that respect addition and `x` are determined by their value at `1`. -/
theorem StepLinear.ext {f g : BinField w p → BinField w p} (hf : StepLinear f)
    (hg : StepLinear g) (h1 : f 1 = g 1) (a : BinField w p) : f a = g a := by
  rw [← BinField.mul_one a, mul_def, hf.map_mulBits, hg.map_mulBits, h1]

theorem stepLinear_id : StepLinear (fun a : BinField w p => a) := ⟨fun _ _ => rfl, fun _ => rfl⟩

theorem stepLinear_step : StepLinear (step (w := w) (p := p)) := ⟨step_add, fun _ => rfl⟩

theorem StepLinear.comp {f g : BinField w p → BinField w p} (hf : StepLinear f)
    (hg : StepLinear g) : StepLinear (fun a => f (g a)) :=
  ⟨fun a b => by rw [hg.map_add, hf.map_add], fun a => by rw [hg.map_step, hf.map_step]⟩

theorem StepLinear.add {f g : BinField w p → BinField w p} (hf : StepLinear f)
    (hg : StepLinear g) : StepLinear (fun a => f a + g a) :=
  ⟨fun a b => by rw [hf.map_add, hg.map_add, add_add_add_comm], fun a => by
    rw [hf.map_step, hg.map_step, step_add]⟩

theorem stepLinear_iterate (n : Nat) : StepLinear (step (w := w) (p := p))^[n] := by
  induction n with
  | zero => exact stepLinear_id
  | succ n ih => exact ih.comp stepLinear_step

theorem stepLinear_mulBits (a : BitVec w) (n : Nat) :
    StepLinear (fun b : BinField w p => mulBits a b n) := by
  induction n with
  | zero => exact ⟨fun _ _ => (add_zero _).symm, fun _ => step_zero.symm⟩
  | succ n ih =>
    simp only [mulBits]
    split
    · exact ih.add (stepLinear_iterate n)
    · simpa using ih

theorem stepLinear_mul (a : BinField w p) : StepLinear (fun b => a * b) :=
  stepLinear_mulBits a.bits w

theorem step_mul (a b : BinField w p) : step a * b = step (a * b) :=
  (stepLinear_mul (step a)).ext (stepLinear_step.comp (stepLinear_mul a))
    (by simp only [BinField.mul_one]) b

protected theorem add_mul (a b c : BinField w p) : (a + b) * c = a * c + b * c :=
  (stepLinear_mul (a + b)).ext ((stepLinear_mul a).add (stepLinear_mul b))
    (by simp only [BinField.mul_one]) c

protected theorem mul_assoc (a b c : BinField w p) : a * b * c = a * (b * c) :=
  (stepLinear_mul (a * b)).ext ((stepLinear_mul a).comp (stepLinear_mul b))
    (by simp only [BinField.mul_one]) c

protected theorem one_mul (a : BinField w p) : 1 * a = a :=
  (stepLinear_mul 1).ext stepLinear_id (BinField.mul_one 1) a

theorem stepLinear_mul_left (a : BinField w p) : StepLinear (fun b => b * a) :=
  ⟨fun b c => BinField.add_mul b c a, fun b => step_mul b a⟩

protected theorem mul_comm (a b : BinField w p) : a * b = b * a :=
  (stepLinear_mul a).ext (stepLinear_mul_left a)
    (by simp only [BinField.mul_one, BinField.one_mul]) b

instance : CommRing (BinField w p) where
  mul_assoc := BinField.mul_assoc
  one_mul := BinField.one_mul
  mul_one := BinField.mul_one
  mul_comm := BinField.mul_comm
  left_distrib a := (stepLinear_mul a).map_add
  right_distrib := BinField.add_mul
  zero_mul a := by rw [BinField.mul_comm, (stepLinear_mul a).map_zero]
  mul_zero a := (stepLinear_mul a).map_zero
  zsmul := zsmulRec
  neg_add_cancel := neg_add_cancel
  sub_eq_add_neg := sub_eq_add_neg

@[simp] theorem neg_eq (a : BinField w p) : -a = a := rfl

@[simp] theorem sub_eq_add (a b : BinField w p) : a - b = a + b := rfl

/-! ## Powers of `x` -/

/-- The residue class of `x`. -/
def gen (w : Nat) (p : BitVec w) : BinField w p := step 1

theorem step_eq_gen_mul (a : BinField w p) : step a = gen w p * a := by
  rw [gen, step_mul, one_mul]

/-- Square and multiply over the bits of an exponent, the highest first. -/
def powBits (a : BinField w p) (bs : List Bool) : BinField w p :=
  bs.foldl (fun r b => if b then r * r * a else r * r) 1

/-- The number whose bits are `bs`, the highest first. -/
def bitsVal (bs : List Bool) : Nat := bs.foldl (fun n b => 2 * n + b.toNat) 0

theorem powBits_eq (a : BinField w p) (bs : List Bool) : powBits a bs = a ^ bitsVal bs := by
  have key : ∀ (bs : List Bool) (n : Nat),
      bs.foldl (fun r b => if b then r * r * a else r * r) (a ^ n) =
        a ^ bs.foldl (fun n b => 2 * n + b.toNat) n := by
    intro bs
    induction bs with
    | nil => intro n; rfl
    | cons b bs ih =>
      intro n
      rw [List.foldl_cons, List.foldl_cons, ← ih]
      congr 1
      cases b <;> simp [two_mul, pow_add]
  rw [powBits, bitsVal, ← key bs 0, pow_zero]

/-- `x` generates the non-zero words: its order is `2 ^ w - 1`. -/
class Primitive (w : Nat) (p : BitVec w) : Prop where
  pos : 0 < w
  order : orderOf (gen w p) = 2 ^ w - 1

/-- `x` is primitive if it has order dividing `2 ^ w - 1` and none of the maximal proper divisors. -/
theorem primitive_of_check (hw : 0 < w) (h1 : gen w p ^ (2 ^ w - 1) = 1)
    (hq : ∀ q, q.Prime → q ∣ 2 ^ w - 1 → gen w p ^ ((2 ^ w - 1) / q) ≠ 1) : Primitive w p where
  pos := hw
  order := orderOf_eq_of_pow_and_pow_div_prime
    (by have := Nat.one_lt_two_pow hw.ne'; omega) h1 hq

instance : Fintype (BinField w p) :=
  Fintype.ofEquiv (Fin (2 ^ w))
    { toFun := fun i => ⟨BitVec.ofFin i⟩
      invFun := fun a => a.bits.toFin
      left_inv := fun _ => rfl
      right_inv := fun _ => rfl }

theorem card_eq : Fintype.card (BinField w p) = 2 ^ w := by
  rw [Fintype.ofEquiv_card, Fintype.card_fin]

section
variable [hp : Primitive w p]
include hp

theorem one_ne_zero' : (1 : BinField w p) ≠ 0 := by
  intro h
  have hb := congrArg (fun a : BinField w p => a.bits.toNat) h
  have hw := Nat.one_lt_two_pow hp.pos.ne'
  simp [Nat.mod_eq_of_lt hw] at hb

theorem gen_pow_order : gen w p ^ (2 ^ w - 1) = 1 := by
  rw [← hp.order]; exact pow_orderOf_eq_one _

theorem gen_pow_ne_zero (k : Nat) : gen w p ^ k ≠ 0 := by
  intro h
  have h1 : (gen w p ^ (2 ^ w - 1)) ^ k = 1 := by rw [gen_pow_order, one_pow]
  rw [← pow_mul, Nat.mul_comm, pow_mul, h] at h1
  have hw := Nat.one_lt_two_pow hp.pos.ne'
  rw [zero_pow (by omega)] at h1
  exact one_ne_zero' h1.symm

theorem gen_pow_inj {i j : Nat} (hi : i < 2 ^ w - 1) (hj : j < 2 ^ w - 1)
    (h : gen w p ^ i = gen w p ^ j) : i = j := by
  rw [← hp.order] at hi hj
  exact pow_injOn_Iio_orderOf hi hj h

theorem gen_pow_mod (k : Nat) : gen w p ^ (k % (2 ^ w - 1)) = gen w p ^ k := by
  rw [← hp.order]; exact pow_mod_orderOf _ _

/-- **Every non-zero word is a power of `x`.** -/
theorem exists_pow_eq {a : BinField w p} (ha : a ≠ 0) : ∃ k < 2 ^ w - 1, gen w p ^ k = a := by
  have himg : (Finset.range (2 ^ w - 1)).image (gen w p ^ ·) = Finset.univ.erase 0 := by
    apply Finset.eq_of_subset_of_card_le
    · intro b hb
      obtain ⟨k, -, rfl⟩ := Finset.mem_image.1 hb
      exact Finset.mem_erase.2 ⟨gen_pow_ne_zero k, Finset.mem_univ _⟩
    · rw [Finset.card_image_of_injOn, Finset.card_range, Finset.card_erase_of_mem
        (Finset.mem_univ _), Finset.card_univ, card_eq]
      intro i hi j hj h
      exact gen_pow_inj (Finset.mem_range.1 hi) (Finset.mem_range.1 hj) h
  have hmem : a ∈ (Finset.range (2 ^ w - 1)).image (gen w p ^ ·) := by
    rw [himg]; exact Finset.mem_erase.2 ⟨ha, Finset.mem_univ _⟩
  obtain ⟨k, hk, h⟩ := Finset.mem_image.1 hmem
  exact ⟨k, Finset.mem_range.1 hk, h⟩

theorem pow_order {a : BinField w p} (ha : a ≠ 0) : a ^ (2 ^ w - 1) = 1 := by
  obtain ⟨k, -, rfl⟩ := exists_pow_eq ha
  rw [← pow_mul, Nat.mul_comm, pow_mul, gen_pow_order, one_pow]

end

instance [hp : Primitive w p] : Field (BinField w p) where
  inv a := if a = 0 then 0 else a ^ (2 ^ w - 2)
  exists_pair_ne := ⟨1, 0, one_ne_zero'⟩
  mul_inv_cancel a ha := by
    have hw := Nat.one_lt_two_pow hp.pos.ne'
    have h := pow_order ha
    rw [show 2 ^ w - 1 = (2 ^ w - 2) + 1 by omega, pow_succ'] at h
    rw [if_neg ha]; exact h
  inv_zero := if_pos rfl
  nnqsmul := _
  nnqsmul_def := fun _ _ => rfl
  qsmul := _
  qsmul_def := fun _ _ => rfl

end BinField
