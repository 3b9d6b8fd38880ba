import Accudisc.Err
import Accudisc.Repair.Gf16

/-!
# Reed-Solomon syndrome decoding over GF(2^16) (`rs16.c`)

A read-only array argument is its index function, `none` a NULL pointer; the caller's output arrays
are index functions too, returned as the call leaves them. Local arrays are buffers of the
declared length. A `for` loop is a fold over its range, and an early `return` is the error of an
`Except`.
-/

namespace Accudisc

/-- The parity ceiling; local arrays have 32 or 33 entries, Berlekamp-Massey's scratch 66. -/
abbrev ADSC_RS16_MAX_NPAR : Nat := 32

/-! ## Polynomials as coefficient arrays -/

/-- `product = a * b` with terms in `x ^ limit` and above dropped. Both loops end at `limit`. -/
def poly_mul (a : Nat → Gf16) (da : Nat) (b : Nat → Gf16) (db limit n : Nat) : Buf Gf16 n :=
  (List.range (min (da + 1) limit)).foldl (fun product i =>
    if a i = 0 then product
    else (List.range (min (db + 1) (limit - i))).foldl (fun product j =>
      Buf.set product (i + j) (Buf.get product (i + j) ^^^ adsc_gf16_mul (a i) (b j))) product)
    (Buf.zeros Gf16 n)

/-- Horner, from the highest coefficient down. -/
def poly_eval (p : Nat → Gf16) (deg : Nat) (x : Gf16) : Gf16 :=
  (List.range deg).foldr (fun i acc => adsc_gf16_mul acc x ^^^ p i) (p deg)

/-- The formal derivative in characteristic 2: the odd-degree terms, `xp = x ^ (d - 1)`. -/
def poly_deriv_eval (p : Nat → Gf16) (deg : Nat) (x : Gf16) : Gf16 :=
  ((List.range deg).foldl (fun (acc, xp) k =>
    (if (k + 1) % 2 = 1 then acc ^^^ adsc_gf16_mul (p (k + 1)) xp else acc, adsc_gf16_mul xp x))
    ((0, 1) : Gf16 × Gf16)).1

/-! ## Berlekamp-Massey -/

structure BmState where
  c : Buf Gf16 66
  prev : Buf Gf16 66
  b : Gf16
  L : Nat
  m : Nat

def bm_init : BmState :=
  ⟨Buf.set (Buf.zeros _ _) 0 1, Buf.set (Buf.zeros _ _) 0 1, 1, 0, 1⟩

/-- What the current recurrence gets wrong about `syn[r]`. -/
def bm_discrepancy (syn : Nat → Gf16) (st : BmState) (r : Nat) : Gf16 :=
  (List.range st.L).foldl
    (fun d k => d ^^^ adsc_gf16_mul (Buf.get st.c (k + 1)) (syn (r - (k + 1)))) (syn r)

/-- `c += coefficient * x ^ m * prev`, index by index. -/
def bm_update (st : BmState) (coefficient : Gf16) : Buf Gf16 66 :=
  (List.range (66 - st.m)).foldl (fun c i =>
    if Buf.get st.prev i = 0 then c
    else Buf.set c (i + st.m)
      (Buf.get c (i + st.m) ^^^ adsc_gf16_mul coefficient (Buf.get st.prev i))) st.c

def bm_step (syn : Nat → Gf16) (st : BmState) (r : Nat) : BmState :=
  let d := bm_discrepancy syn st r
  if d = 0 then { st with m := st.m + 1 }
  else
    let c := bm_update st (adsc_gf16_div d st.b)
    if 2 * st.L ≤ r then { c := c, prev := st.c, b := d, L := r + 1 - st.L, m := 1 }
    else { st with c := c, m := st.m + 1 }

/-- The connection polynomial, written to `locator[0..L]`, and its length. -/
def berlekamp_massey (syn : Nat → Gf16) (nsyn : Nat) : Nat × Buf Gf16 33 :=
  let st := (List.range nsyn).foldl (bm_step syn) bm_init
  (st.L, Buf.fill _ fun i => if i ≤ st.L then Buf.get st.c i else 0)

/-! ## Syndromes -/

/-- One syndrome of a word, oldest symbol first, positions counted from the end. -/
def rs16_syndrome (v : Nat → Gf16) (n r : Nat) : Gf16 :=
  (List.range n).foldl (fun acc j =>
    if v j = 0 then acc
    else acc ^^^ (if r ≠ 0 then adsc_gf16_mul_pow (v j) (r * (n - 1 - j)) else v j)) 0

def adsc_rs16_syndromes (v : Option (Nat → Gf16)) (n npar : Nat) (syn : Option (Nat → Gf16)) :
    Int × Option (Nat → Gf16) :=
  match v, syn with
  | some v, some syn =>
    if n = 0 ∨ n > ADSC_GF16_ORDER then (ACCUDISC_ERR_INVAL, some syn)
    else if npar = 0 ∨ npar > ADSC_RS16_MAX_NPAR then (ACCUDISC_ERR_INVAL, some syn)
    else (ACCUDISC_OK, some fun r => if r < npar then rs16_syndrome v n r else syn r)
  | _, syn => (ACCUDISC_ERR_INVAL, syn)

/-! ## Decoding -/

/-- `erasures[i]`; nothing is read through a NULL pointer. -/
def erasure_at (erasures : Option (Nat → Nat)) (i : Nat) : Nat :=
  match erasures with
  | some e => e i
  | none => 0

/-- One factor of the erasure locator: `gamma *= 1 + x X`, from the top coefficient down. -/
def gamma_step (n_data : Nat) (era : Nat → Nat) (gamma : Buf Gf16 33) (i : Nat) : Buf Gf16 33 :=
  let x := adsc_gf16_pow (n_data - 1 - era i)
  -- the degree before this factor is `i`
  (List.range (i + 1)).foldr (fun k gamma =>
    Buf.set gamma (k + 1) (Buf.get gamma (k + 1) ^^^ adsc_gf16_mul (Buf.get gamma k) x)) gamma

def erasure_locator (n_data : Nat) (era : Nat → Nat) (nerasures : Nat) : Buf Gf16 33 :=
  (List.range nerasures).foldl (gamma_step n_data era) (Buf.set (Buf.zeros _ _) 0 1)

structure Chien where
  reg : Buf Gf16 33
  /-- `root[0..nroots)`, in the order found. -/
  root : List Nat

/-- One step of the search: `reg[d]` holds `lambda[d] * alpha ^ (-k d)`. -/
def chien_step (degree_lambda : Nat) (st : Chien) (k : Nat) : Except Int Chien :=
  let sum := (List.range (degree_lambda + 1)).foldl (fun s d => s ^^^ Buf.get st.reg d) 0
  let reg := (List.range degree_lambda).foldl (fun reg i =>
    Buf.set reg (i + 1) (adsc_gf16_mul_pow (Buf.get reg (i + 1)) (ADSC_GF16_ORDER - (i + 1)))) st.reg
  if sum = 0 then
    if st.root.length = degree_lambda then .error ACCUDISC_ERR_NOTFOUND
    else .ok ⟨reg, st.root ++ [k]⟩
  else .ok ⟨reg, st.root⟩

/-- Forney's magnitude at the root `k`. -/
def forney_at (npar degree_lambda : Nat) (lambda omega : Nat → Gf16) (k : Nat) :
    Except Int Gf16 :=
  let x := adsc_gf16_pow k
  let xinv := adsc_gf16_pow (ADSC_GF16_ORDER - k)
  let numerator := poly_eval omega (npar - 1) xinv
  let denominator := poly_deriv_eval lambda degree_lambda xinv
  if denominator = 0 then .error ACCUDISC_ERR_NOTFOUND
  else .ok (adsc_gf16_mul x (adsc_gf16_div numerator denominator))

/-- The syndrome that the errata reproduce, for the re-verification. -/
def errata_syndrome (errata : List (Nat × Gf16)) (r : Nat) : Gf16 :=
  errata.foldl (fun acc e => if e.2 = 0 then acc else acc ^^^ adsc_gf16_mul_pow e.2 (r * e.1)) 0

/-- The errata that a locator points at, in the order the search finds its roots: Chien search,
Forney's magnitudes and the re-verification. -/
def rs16_locate (npar : Nat) (err_syn : Nat → Gf16) (n_data degree_lambda : Nat)
    (lambda : Nat → Gf16) : Except Int (List (Nat × Gf16)) := do
  let omega := poly_mul lambda degree_lambda err_syn (npar - 1) npar 32
  let reg := Buf.fill 33 fun i => if i ≤ degree_lambda then lambda i else 0
  let chien ← (List.range n_data).foldlM (chien_step degree_lambda) ⟨reg, []⟩
  if chien.root.length ≠ degree_lambda then throw ACCUDISC_ERR_NOTFOUND
  let magnitude ← chien.root.mapM (forney_at npar degree_lambda lambda (Buf.get omega))
  let errata := chien.root.zip magnitude
  if (List.range npar).any (fun r => errata_syndrome errata r ≠ err_syn r) then
    throw ACCUDISC_ERR_NOTFOUND
  return errata

/-- Everything after the argument checks and the clean test, up to the errata. -/
def rs16_errata (npar : Nat) (err_syn : Nat → Gf16) (n_data : Nat) (era : Nat → Nat)
    (nerasures : Nat) : Except Int (List (Nat × Gf16)) := do
  let gamma := erasure_locator n_data era nerasures
  let modified := poly_mul (Buf.get gamma) nerasures err_syn (npar - 1) npar 32
  let (length, sigma) :=
    berlekamp_massey (fun i => Buf.get modified (nerasures + i)) (npar - nerasures)
  if 2 * length + nerasures > npar then throw ACCUDISC_ERR_NOTFOUND
  let degree_lambda := length + nerasures
  let lambda := poly_mul (Buf.get sigma) length (Buf.get gamma) nerasures (degree_lambda + 1) 33
  if degree_lambda ≠ 0 ∧ Buf.get lambda degree_lambda = 0 then throw ACCUDISC_ERR_NOTFOUND
  if degree_lambda = 0 then throw ACCUDISC_ERR_NOTFOUND
  rs16_locate npar err_syn n_data degree_lambda (Buf.get lambda)

structure Emitted where
  positions : Nat → Nat
  values : Nat → Gf16
  written : Nat

def emit_step (n_data : Nat) (out : Emitted) (e : Nat × Gf16) : Emitted :=
  if e.2 = 0 then out
  else ⟨Function.update out.positions out.written (n_data - 1 - e.1),
    Function.update out.values out.written e.2, out.written + 1⟩

/-- Write the non-zero errata oldest first: ascending data index is descending root. -/
def emit_errata (n_data : Nat) (errata : List (Nat × Gf16)) (positions : Nat → Nat)
    (values : Nat → Gf16) : Emitted :=
  errata.reverse.foldl (emit_step n_data) ⟨positions, values, 0⟩

def adsc_rs16_decode (npar : Nat) (err_syn : Option (Nat → Gf16)) (n_data : Nat)
    (erasures : Option (Nat → Nat)) (nerasures : Nat) (positions : Option (Nat → Nat))
    (values : Option (Nat → Gf16)) (out_cap : Nat) :
    Int × Option (Nat → Nat) × Option (Nat → Gf16) :=
  match err_syn, positions, values with
  | some E, some pos, some val =>
    let ret (rc : Int) := (rc, some pos, some val)
    let era := erasure_at erasures
    if npar = 0 ∨ npar > ADSC_RS16_MAX_NPAR then ret ACCUDISC_ERR_INVAL
    else if n_data = 0 ∨ n_data > ADSC_GF16_ORDER then ret ACCUDISC_ERR_INVAL
    else if nerasures ≠ 0 ∧ erasures.isNone then ret ACCUDISC_ERR_INVAL
    else if (List.range nerasures).any (fun i => era i ≥ n_data) then ret ACCUDISC_ERR_INVAL
    else if (List.range npar).all (fun r => E r = 0) then ret 0
    else if nerasures > npar then ret ACCUDISC_ERR_NOTFOUND
    else if ¬((List.range nerasures).map era).Nodup then ret ACCUDISC_ERR_INVAL
    else
      match rs16_errata npar E n_data era nerasures with
      | .error rc => ret rc
      | .ok errata =>
        let nout := errata.countP (fun e => e.2 ≠ 0)
        if nout > out_cap then ret ACCUDISC_ERR_INVAL
        else
          let out := emit_errata n_data errata pos val
          (nout, some out.positions, some out.values)
  | _, _, _ => (ACCUDISC_ERR_INVAL, positions, values)

end Accudisc
