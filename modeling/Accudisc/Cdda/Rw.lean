import Accudisc.Err
import Accudisc.Lib.Buf
import Accudisc.Mem
import Mathlib.Data.BitVec

/-!
# The R-W subchannel (`rw.c`)

The de-interleave ring and the two Reed-Solomon codes over GF(2^6). A pack's 24 symbols are a buffer, and
the tables that `gf_init` fills are index functions.
-/

namespace Accudisc

def ACCUDISC_RW_PACK_SYMBOLS : Nat := 24
def ACCUDISC_RW_PACKS_PER_SEC : Nat := 4
def GF_ORDER : Nat := 63

/-! ## GF(2^6) -/

/-- The two tables, and the element that the loop is at. -/
structure GfTab where
  gf_exp : Nat → BitVec 8
  gf_log : Nat → Nat
  x : BitVec 8

/-- One turn of `gf_init`. -/
def gf_step (t : GfTab) (i : Nat) : GfTab :=
  let x := t.x <<< 1
  { gf_exp := Function.update (Function.update t.gf_exp i t.x) (i + GF_ORDER) t.x
    gf_log := Function.update t.gf_log t.x.toNat i
    x := if x &&& 0x40 ≠ 0 then x ^^^ 0x43 else x }

def gf_init : GfTab :=
  let t := (List.range GF_ORDER).foldl gf_step ⟨fun _ => 0, fun _ => 0, 1⟩
  { t with gf_log := Function.update t.gf_log 0 0 }

def gf_exp (e : Nat) : BitVec 8 := gf_init.gf_exp e

def gf_log (a : BitVec 8) : Nat := gf_init.gf_log a.toNat

def gf_mul (a b : BitVec 8) : BitVec 8 := if a = 0 ∨ b = 0 then 0 else gf_exp (gf_log a + gf_log b)

def gf_div (a b : BitVec 8) : BitVec 8 := if a = 0 then 0 else gf_exp (gf_log a + GF_ORDER - gf_log b)

/-- A power of the primitive element. -/
def gf_pow (e : Nat) : BitVec 8 := gf_exp (e % GF_ORDER)

/-! ## Reed-Solomon -/

/-- The symbols of a pack. -/
abbrev Symbols := Buf (BitVec 8) ACCUDISC_RW_PACK_SYMBOLS

/-- Syndrome `r` of the first `n` symbols. -/
def rs_syndrome (v : Symbols) (n r : Nat) : BitVec 8 :=
  (List.range n).foldl (fun acc j =>
    if v.get j = 0 then acc
    else acc ^^^ (if r ≠ 0 then gf_mul (v.get j) (gf_pow (r * (n - 1 - j))) else v.get j)) 0

/-- Every syndrome is zero. -/
def rs_verify (v : Symbols) (n nsyn : Nat) : Bool := (List.range nsyn).all fun r => rs_syndrome v n r = 0

/-- One symbol changed, where that clears every syndrome. -/
def rs_fix_one (v : Symbols) (n nsyn : Nat) : Option Symbols :=
  let s0 := rs_syndrome v n 0
  let s1 := rs_syndrome v n 1
  if s0 = 0 then none
  else
    let k := gf_log (gf_div s1 s0)
    if s1 ≠ 0 ∧ k < n then
      let j := n - 1 - k
      let w := v.set j (v.get j ^^^ s0)
      if rs_verify w n nsyn then some w else none
    else none

/-- The first two positions whose locator is a root. -/
def rs_roots (n : Nat) (l1 l2 : BitVec 8) : List Nat :=
  ((List.range n).filter fun k =>
    let x := gf_pow (GF_ORDER - k % GF_ORDER)
    1 ^^^ gf_mul l1 x ^^^ gf_mul l2 (gf_mul x x) = 0).take 2

/-- Two symbols changed, where that clears every syndrome. -/
def rs_fix_two (v : Symbols) (n nsyn : Nat) : Option Symbols :=
  let s := rs_syndrome v n
  let det := gf_mul (s 1) (s 1) ^^^ gf_mul (s 0) (s 2)
  if nsyn < 4 ∨ det = 0 then none
  else
    let l1 := gf_div (gf_mul (s 2) (s 1) ^^^ gf_mul (s 0) (s 3)) det
    let l2 := gf_div (gf_mul (s 1) (s 3) ^^^ gf_mul (s 2) (s 2)) det
    match rs_roots n l1 l2 with
    | [k1, k2] =>
      let x1 := gf_pow k1
      let x2 := gf_pow k2
      let e1 := gf_div (s 1 ^^^ gf_mul (s 0) x2) (x1 ^^^ x2)
      let e2 := s 0 ^^^ e1
      let w := v.set (n - 1 - k1) (v.get (n - 1 - k1) ^^^ e1)
      let w := w.set (n - 1 - k2) (w.get (n - 1 - k2) ^^^ e2)
      if rs_verify w n nsyn then some w else none
    | _ => none

/-- The number of symbols corrected, or -1, and the symbols. -/
def rs_correct (v : Symbols) (n nsyn : Nat) : Int × Symbols :=
  if rs_verify v n nsyn then (0, v)
  else
    match rs_fix_one v n nsyn, rs_fix_two v n nsyn with
    | some w, _ => (1, w)
    | none, some w => (2, w)
    | none, none => (-1, v)

/-! ## De-interleave -/

def rw_perm (i : Nat) : Nat :=
  [0, 18, 5, 23, 4, 2, 6, 7, 8, 9, 10, 11, 12, 13, 14, 15, 16, 17, 1, 19, 20, 21, 22, 3].getD i 0

structure RwPack where
  symbol : Symbols
  p_fixed : Nat := 0
  q_fixed : Nat := 0
  p_failed : Nat := 0
  q_failed : Nat := 0

def ACCUDISC_RW_MODE (p : RwPack) : BitVec 8 := (p.symbol.get 0 >>> 3) &&& 0x07

structure RwStats where
  packs : Nat := 0
  p_fixed : Nat := 0
  q_fixed : Nat := 0
  p_failed : Nat := 0
  q_failed : Nat := 0
  mode_zero : Nat := 0
  mode_graphics : Nat := 0

/-- The ring of the last eight channel packs, by slot. -/
structure RwRing where
  hist : Nat → Symbols := fun _ => Buf.zeros (BitVec 8) ACCUDISC_RW_PACK_SYMBOLS
  head : Nat := 0
  seen : Nat := 0

/-- `accudisc_rw`; the value is what `accudisc_rw_open` returns. -/
structure Rw extends RwRing where
  st : RwStats := {}

def push_channel_pack (ring : RwRing) (sym : Symbols) : RwRing :=
  let head := (ring.head + 1) % 8
  ⟨Function.update ring.hist head sym, head, if ring.seen < 8 then ring.seen + 1 else ring.seen⟩

/-- The pack that the ring holds, before correction. -/
def assemble_pack (ring : RwRing) : Symbols :=
  (List.range ACCUDISC_RW_PACK_SYMBOLS).foldl (fun out i =>
    let age := 7 - i % 8
    let slot := (ring.head + 8 - age) % 8
    out.set (rw_perm i) ((ring.hist slot).get i)) (Buf.zeros (BitVec 8) ACCUDISC_RW_PACK_SYMBOLS)

/-- Correct with P, then with Q. -/
def correct_pack (symbol : Symbols) : RwPack :=
  let p := rs_correct symbol ACCUDISC_RW_PACK_SYMBOLS 4
  let q := rs_correct p.2 4 2
  { symbol := q.2
    p_fixed := p.1.toNat
    q_fixed := q.1.toNat
    p_failed := if p.1 < 0 then 1 else 0
    q_failed := if q.1 < 0 then 1 else 0 }

def count_pack (st : RwStats) (p : RwPack) : RwStats :=
  { packs := st.packs + 1
    p_fixed := st.p_fixed + p.p_fixed
    q_fixed := st.q_fixed + p.q_fixed
    p_failed := st.p_failed + p.p_failed
    q_failed := st.q_failed + p.q_failed
    mode_zero := if ACCUDISC_RW_MODE p = 0 then st.mode_zero + 1 else st.mode_zero
    mode_graphics := if ACCUDISC_RW_MODE p = 1 then st.mode_graphics + 1 else st.mode_graphics }

def emit_pack (rw : Rw) : Rw × RwPack :=
  let p := correct_pack (assemble_pack rw.toRwRing)
  ({ rw with st := count_pack rw.st p }, p)

/-- The R-W symbols of pack `pk` of a sector. -/
def sector_symbols (raw : Mem) (pk : Nat) : Symbols :=
  Buf.fill ACCUDISC_RW_PACK_SYMBOLS fun i => raw (pk * ACCUDISC_RW_PACK_SYMBOLS + i) &&& 0x3f

/-- One turn over the packs of the sector. -/
def feed_pack (raw : Mem) (max : Nat) (s : Rw × List RwPack) (pk : Nat) : Rw × List RwPack :=
  let rw : Rw := { s.1 with toRwRing := push_channel_pack s.1.toRwRing (sector_symbols raw pk) }
  if rw.seen < 8 then (rw, s.2)
  else if s.2.length < max then ((emit_pack rw).1, s.2 ++ [(emit_pack rw).2])
  else (rw, s.2)

/-- `out` says whether there is a buffer for `max` packs; `*emitted` is the length of the list. -/
def accudisc_rw_feed (rw : Rw) (raw : Mem) (out : Bool) (max : Nat) : Except Int (Rw × List RwPack) :=
  if out = false ∧ max ≠ 0 then .error ACCUDISC_ERR_INVAL
  else if max ≠ 0 ∧ max < ACCUDISC_RW_PACKS_PER_SEC then .error ACCUDISC_ERR_INVAL
  else .ok ((List.range ACCUDISC_RW_PACKS_PER_SEC).foldl (feed_pack raw max) (rw, []))

end Accudisc
