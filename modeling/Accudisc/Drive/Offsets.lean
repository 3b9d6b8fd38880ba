import Accudisc.Abi
import Accudisc.Mem
import Mathlib.Data.BitVec

/-!
# The read-offset table (`offsets.c`)

The normalisation of INQUIRY strings and the lookup by vendor and product. The table is a parameter. The
normalisation stores its bytes one after another from `dst[0]` on, so what it stores is a list, and it
stays in its buffer where the list is no longer than that.
-/

namespace Accudisc

def ACCUDISC_ERR_AMBIGUOUS : Int := -14
def ACCUDISC_OFFSET_NONE : Int := -2147483648
def ACCUDISC_OFFSET_MAX_VALUES : Nat := 4
def ACCUDISC_OFFSET_F_TRUNCATED : BitVec 8 := 0x02
def ACCUDISC_OFFSET_F_GENERIC : BitVec 8 := 0x08

/-- The bytes of a string, up to its NUL. -/
abbrev Chars := List (BitVec 8)

def SPACE : BitVec 8 := 0x20
def HTAB : BitVec 8 := 0x09

/-! ## INQUIRY strings -/

/-- `toupper` in the C locale. -/
def toupper (c : BitVec 8) : BitVec 8 := if 0x61 ≤ c ∧ c ≤ 0x7a then c - 0x20 else c

/-- The loop over `src`, with the bytes stored so far. -/
def normalize_loop (cap : Nat) : Chars → Chars → Bool → Chars
  | [], dst, _ => dst
  | c :: src, dst, in_space =>
    if c = 0 ∨ ¬dst.length + 1 < cap then dst
    else if c = SPACE ∨ c = HTAB then normalize_loop cap src dst true
    else
      let dst := if in_space ∧ 0 < dst.length then dst ++ [SPACE] else dst
      normalize_loop cap src (dst ++ [toupper c]) false

/-- The bytes stored, the NUL included. -/
def adsc_inquiry_normalize (src : Chars) (cap : Nat) : Chars := normalize_loop cap src [] true ++ [0]

/-- The text in one of the lookup's buffers. -/
def inquiry32 (src : Chars) : Chars := normalize_loop 32 src [] true

/-! ## The lookup -/

/-- `struct offset_entry`. The generator sets no flag that only the lookup sets. -/
structure OffsetEntry where
  vendor : Chars
  product : Chars
  read_offset : Int
  ar_submissions : Nat := 0
  ar_agree_pct : Nat := 0
  sources : BitVec 8 := 0
  flags : BitVec 8 := 0
  ar_acc_ok : Nat := 0
  ar_acc_bad : Nat := 0
  not_truncated : flags.getLsbD 1 = false := by rfl

/-- `accudisc_offset_info` after its size: `values[]` and `value_sources[]` up to what was stored. -/
structure OffsetInfo where
  read_offset : Int := ACCUDISC_OFFSET_NONE
  ar_submissions : Nat := 0
  ar_agree_pct : Nat := 0
  sources : BitVec 8 := 0
  flags : BitVec 8 := 0
  n_values : Nat := 0
  values : List (Int × BitVec 8) := []
  ar_acc_ok : Nat := 0
  ar_acc_bad : Nat := 0
deriving DecidableEq

def sizeof_offset_info : Nat := 44

/-- Does the caller's structure reach the end of `value_sources`, and of `ar_acc_bad`? -/
def caller_has_values (size : Nat) : Bool := 36 ≤ size
def caller_has_accuracy (size : Nat) : Bool := 44 ≤ size

section
variable (vendor product : Chars)

/-- Pass 1: does the vendor narrow anything? -/
def offset_vendor_hit (offsets : List OffsetEntry) : Bool :=
  offsets.any fun r => inquiry32 product = inquiry32 r.product ∧ inquiry32 vendor = inquiry32 r.vendor

/-- Pass 2 looks at a row. -/
def offset_candidate (vendor_hit : Bool) (r : OffsetEntry) : Bool :=
  inquiry32 product = inquiry32 r.product ∧
    if vendor_hit then inquiry32 vendor = inquiry32 r.vendor else r.flags &&& ACCUDISC_OFFSET_F_GENERIC = 0

end

/-- What pass 2 has seen. -/
structure OffsetScan where
  matched : Bool := false
  overflow : Bool := false
  sources : BitVec 8 := 0
  flags : BitVec 8 := 0
  best : Option OffsetEntry := none
  vals : List (Int × BitVec 8) := []

/-- The distinct offsets with their sources. -/
def offset_vals (s : OffsetScan) (r : OffsetEntry) : OffsetScan :=
  if s.vals.any fun v => v.1 = r.read_offset then
    { s with vals := s.vals.map fun v => if v.1 = r.read_offset then (v.1, v.2 ||| r.sources) else v }
  else if s.vals.length < ACCUDISC_OFFSET_MAX_VALUES then
    { s with vals := s.vals ++ [(r.read_offset, r.sources)] }
  else { s with overflow := true }

/-- One candidate. -/
def offset_row (s : OffsetScan) (r : OffsetEntry) : OffsetScan :=
  offset_vals { s with
    matched := true
    sources := s.sources ||| r.sources
    flags := s.flags ||| r.flags
    best := match s.best with
      | none => some r
      | some b => if b.ar_submissions < r.ar_submissions then some r else some b } r

section
variable (offsets : List OffsetEntry) (vendor product : Chars)

def offset_scan : OffsetScan :=
  (offsets.filter (offset_candidate vendor product (offset_vendor_hit vendor product offsets))).foldl
    offset_row {}

/-- What is filled in from the scan. -/
def offset_answer (size : Nat) (s : OffsetScan) : Int × OffsetInfo :=
  if s.matched = false then (ACCUDISC_ERR_NOTFOUND, {})
  else
    let out : OffsetInfo :=
      { sources := s.sources
        flags := if s.overflow then s.flags ||| ACCUDISC_OFFSET_F_TRUNCATED else s.flags
        n_values := s.vals.length
        values := if caller_has_values size then s.vals else [] }
    if 1 < s.vals.length then (ACCUDISC_ERR_AMBIGUOUS, out)
    else
      match s.best, s.vals.head? with
      | some b, some v =>
        (ACCUDISC_OK, { out with
          ar_submissions := b.ar_submissions
          ar_agree_pct := b.ar_agree_pct
          ar_acc_ok := if caller_has_accuracy size then b.ar_acc_ok else 0
          ar_acc_bad := if caller_has_accuracy size then b.ar_acc_bad else 0
          read_offset := v.1 })
      | _, _ => (ACCUDISC_ERR_NOTFOUND, out)

/-- The strings normalised by pass 1, which stops at the first hit. -/
def pass1_normalized : List OffsetEntry → List Chars
  | [] => []
  | r :: rs =>
    if inquiry32 product ≠ inquiry32 r.product then r.product :: pass1_normalized rs
    else if inquiry32 vendor ≠ inquiry32 r.vendor then r.product :: r.vendor :: pass1_normalized rs
    else [r.product, r.vendor]

/-- The strings normalised by pass 2. -/
def pass2_normalized (vendor_hit : Bool) (rs : List OffsetEntry) : List Chars :=
  rs.flatMap fun r => if inquiry32 product = inquiry32 r.product ∧
    vendor_hit then [r.product, r.vendor] else [r.product]

/-- The strings that the lookup normalises, each into a buffer of 32 bytes. -/
def offset_normalized : List Chars :=
  [vendor, product] ++
    if inquiry32 product = [] then []
    else pass1_normalized vendor product offsets ++
      pass2_normalized product (offset_vendor_hit vendor product offsets) offsets

/-- Every string stays in its buffer. -/
def offset_in_buffers : Bool := (offset_normalized offsets vendor product).all fun t =>
  (adsc_inquiry_normalize t 32).length ≤ 32

/-- The code and what `*out` holds; none where a string runs past its buffer, after which nothing is
defined. `args` says whether every argument is there. -/
def accudisc_offset_for_inquiry (args : Bool) (size : Nat) : Option (Int × OffsetInfo) :=
  if !args then some (ACCUDISC_ERR_INVAL, {})
  else if size = 0 ∨ sizeof_offset_info < size then some (ACCUDISC_ERR_ABI, {})
  else if !offset_in_buffers offsets vendor product then none
  else if inquiry32 product = [] then some (ACCUDISC_ERR_NOTFOUND, {})
  else some (offset_answer size (offset_scan offsets vendor product))

end

/-! ## The stores into `*out` -/

/-- The fields of `accudisc_offset_info`. -/
def OFF_read_offset : StructWrite := ⟨4, 4⟩
def OFF_ar_submissions : StructWrite := ⟨8, 2⟩
def OFF_ar_agree_pct : StructWrite := ⟨10, 1⟩
def OFF_sources : StructWrite := ⟨11, 1⟩
def OFF_flags : StructWrite := ⟨12, 1⟩
def OFF_n_values : StructWrite := ⟨13, 1⟩
def OFF_values (k : Nat) : StructWrite := ⟨16 + 4 * k, 4⟩
def OFF_value_sources (k : Nat) : StructWrite := ⟨32 + k, 1⟩
def OFF_ar_acc_ok : StructWrite := ⟨36, 4⟩
def OFF_ar_acc_bad : StructWrite := ⟨40, 4⟩

/-- What is stored from the scan of `n` candidates. -/
def offset_answer_writes (size n : Nat) (s : OffsetScan) : List StructWrite :=
  (List.replicate n [OFF_sources, OFF_flags]).flatten ++
    if s.matched = false then []
    else
      (if caller_has_values size then
        (List.range s.vals.length).flatMap fun k => [OFF_values k, OFF_value_sources k]
          else []) ++ [OFF_n_values] ++
        (if s.overflow then [OFF_flags] else []) ++ [OFF_ar_submissions, OFF_ar_agree_pct] ++
        (if caller_has_accuracy size then [OFF_ar_acc_ok, OFF_ar_acc_bad] else []) ++
        if 1 < s.vals.length then [] else [OFF_read_offset]

/-- What a call with every argument there stores. -/
def offset_writes (offsets : List OffsetEntry) (vendor product : Chars) (size : Nat) : List StructWrite :=
  if size = 0 ∨ sizeof_offset_info < size then []
  else
    [clear_struct size, OFF_read_offset] ++
      if inquiry32 product = [] then []
      else
        offset_answer_writes size
          (offsets.filter (offset_candidate vendor product
            (offset_vendor_hit vendor product offsets))).length
          (offset_scan offsets vendor product)

end Accudisc
