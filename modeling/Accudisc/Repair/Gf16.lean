import Accudisc.Lib.BinField
import Accudisc.Lib.Buf

/-!
# GF(2^16) arithmetic (`gf16.c`)

One field symbol per 16-bit word, field polynomial `0x1100B`. `adsc_gf16_init` builds the antilog
table, doubled so that a sum of two logarithms indexes it, and the logarithm table; every entry
point calls it first, so the functions below read the tables it builds.
-/

namespace Accudisc

/-- A `uint16_t` read as a field symbol. `^` is its addition. -/
abbrev Gf16 := BinField 16 0x100B#16

/-- `x ^ 16 + x ^ 12 + x ^ 3 + x + 1`. -/
def GF16_POLY : BitVec 32 := 0x1100B#32

/-- `2 ^ 16 - 1`, the order of `alpha`. -/
abbrev ADSC_GF16_ORDER : Nat := 65535

/-- What `adsc_gf16_log` answers for 0. -/
def ADSC_GF16_LOG_UNDEFINED : Int := -1

structure Gf16Tables where
  exp_tab : Buf Gf16 (2 * ADSC_GF16_ORDER)
  log_tab : Buf Nat 65536

/-- Multiply by `alpha = 2` in a widened accumulator. -/
def gf16_double (x : BitVec 32) : BitVec 32 :=
  let x := x <<< 1
  if x &&& 0x10000#32 ≠ 0#32 then x ^^^ GF16_POLY else x

/-- One iteration of the table loop. -/
def gf16_init_step (st : Gf16Tables × BitVec 32) (i : Nat) : Gf16Tables × BitVec 32 :=
  let x := st.2
  let t := st.1
  let exp_tab := Buf.set t.exp_tab i ⟨x.setWidth 16⟩
  let exp_tab := Buf.set exp_tab (i + ADSC_GF16_ORDER) ⟨x.setWidth 16⟩
  let log_tab := Buf.set t.log_tab x.toNat (i % 65536)
  (⟨exp_tab, log_tab⟩, gf16_double x)

/-- The table loop, run for `n` iterations. -/
def gf16_init_loop (n : Nat) : Gf16Tables × BitVec 32 :=
  (List.range n).foldl gf16_init_step (⟨Buf.zeros _ _, Buf.zeros _ _⟩, 1#32)

/-- The tables of a run of `n` iterations; the logarithm of 0 is never consulted. -/
def gf16_init_tables (n : Nat) : Gf16Tables :=
  let t := (gf16_init_loop n).1
  { t with log_tab := Buf.set t.log_tab 0 0 }

def adsc_gf16_init : Gf16Tables := gf16_init_tables ADSC_GF16_ORDER

def gf16_exp (i : Nat) : Gf16 := Buf.get adsc_gf16_init.exp_tab i

def gf16_log (a : Gf16) : Nat := Buf.get adsc_gf16_init.log_tab a.bits.toNat

def adsc_gf16_mul (a b : Gf16) : Gf16 :=
  if a = 0 ∨ b = 0 then 0 else gf16_exp (gf16_log a + gf16_log b)

def adsc_gf16_div (a b : Gf16) : Gf16 :=
  if a = 0 ∨ b = 0 then 0 else gf16_exp (gf16_log a + ADSC_GF16_ORDER - gf16_log b)

def adsc_gf16_inv (a : Gf16) : Gf16 :=
  if a = 0 then 0 else gf16_exp (ADSC_GF16_ORDER - gf16_log a)

def adsc_gf16_pow (e : Nat) : Gf16 := gf16_exp (e % ADSC_GF16_ORDER)

def adsc_gf16_mul_pow (a : Gf16) (e : Nat) : Gf16 :=
  if a = 0 then 0 else gf16_exp (gf16_log a + e % ADSC_GF16_ORDER)

def adsc_gf16_log (a : Gf16) : Int :=
  if a = 0 then ADSC_GF16_LOG_UNDEFINED else gf16_log a

/-- The unchecked multiply of the syndrome sweep: the exponent is already reduced. -/
def adsc_gf16_mul_pow_fast (a : Gf16) (e : Nat) : Gf16 :=
  if a = 0 then 0 else gf16_exp (gf16_log a + e)

end Accudisc
