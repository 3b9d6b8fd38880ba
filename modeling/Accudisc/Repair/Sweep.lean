import Accudisc.Lib.Crc
import Accudisc.Mem
import Accudisc.Repair.Rs16

/-!
# Pass 1 of the parity repair (`sweep.c`)

The syndrome sweep and the CRC fused into it, over words in memory. Memory is an address-indexed
array of bytes, words are little-endian; an accumulator is its index function.
-/

namespace Accudisc

/-- The 16-bit word at an address. -/
def load16 (m : Mem) (a : Nat) : BitVec 16 := m (a + 1) ++ m a

/-- Store a 16-bit word. -/
def store16 (m : Mem) (a : Nat) (x : BitVec 16) : Mem :=
  Function.update (Function.update m a (x.setWidth 8)) (a + 1) ((x >>> 8).setWidth 8)

/-- The 32-bit word at an address. -/
def load32 (m : Mem) (a : Nat) : BitVec 32 := m (a + 3) ++ m (a + 2) ++ m (a + 1) ++ m a

/-! ## CRC-32 -/

/-- The reflected polynomial. -/
abbrev CRC32_POLY : BitVec 32 := 0xEDB88320#32

/-- One iteration of the bit loop. -/
def crc_bit (c : BitVec 32) : BitVec 32 :=
  if c &&& 1#32 ≠ 0#32 then CRC32_POLY ^^^ (c >>> 1) else c >>> 1

/-- `crc_tab[s][i]`. -/
def crc_tab : Nat → BitVec 32 → BitVec 32
  | 0, i => (List.range 8).foldl (fun c _ => crc_bit c) i
  | s + 1, i => (crc_tab s i >>> 8) ^^^ crc_tab 0 (crc_tab s i &&& 0xFF#32)

/-- The eight-byte step, on the two words at `p`. -/
def crc_slice (m : Mem) (crc : BitVec 32) (p : Nat) : BitVec 32 :=
  let a := load32 m p ^^^ crc
  let b := load32 m (p + 4)
  crc_tab 7 (a &&& 0xFF#32) ^^^ crc_tab 6 ((a >>> 8) &&& 0xFF#32) ^^^
    crc_tab 5 ((a >>> 16) &&& 0xFF#32) ^^^ crc_tab 4 ((a >>> 24) &&& 0xFF#32) ^^^
    crc_tab 3 (b &&& 0xFF#32) ^^^ crc_tab 2 ((b >>> 8) &&& 0xFF#32) ^^^
    crc_tab 1 ((b >>> 16) &&& 0xFF#32) ^^^ crc_tab 0 ((b >>> 24) &&& 0xFF#32)

/-- The tail's step. -/
def crc_byte (m : Mem) (crc : BitVec 32) (p : Nat) : BitVec 32 :=
  crc_tab 0 ((crc ^^^ (m p).setWidth 32) &&& 0xFF#32) ^^^ (crc >>> 8)

/-- Eight bytes at a time, then the rest. -/
def crc_update (m : Mem) (crc : BitVec 32) (p n : Nat) : BitVec 32 :=
  let crc := (List.range (n / 8)).foldl (fun crc i => crc_slice m crc (p + 8 * i)) crc
  (List.range (n % 8)).foldl (fun crc i => crc_byte m crc (p + 8 * (n / 8) + i)) crc

def adsc_ctdb_crc32_words (m : Mem) (v n : Nat) : BitVec 32 :=
  crc_update m 0xFFFFFFFF#32 v (n * 2) ^^^ 0xFFFFFFFF#32

/-! ## The scalar sweep -/

/-- A word as a field symbol. -/
def symbol (x : BitVec 16) : Gf16 := ⟨x⟩

/-- One plane, one row: `acc[c] = v[c] ^ acc[c] * alpha ^ e` over the plane that starts at `plane`. -/
def plane_step (m : Mem) (acc : Nat → Gf16) (plane v S e : Nat) : Nat → Gf16 :=
  (List.range S).foldl (fun acc c => Function.update acc (plane + c)
    (adsc_gf16_mul_pow_fast (acc (plane + c)) e ^^^ symbol (load16 m (v + 2 * c)))) acc

/-- Plane 0: a plain XOR. -/
def plane_xor (m : Mem) (acc : Nat → Gf16) (v S : Nat) : Nat → Gf16 :=
  (List.range S).foldl (fun acc c => Function.update acc c
    (acc c ^^^ symbol (load16 m (v + 2 * c)))) acc

structure SweepState where
  acc : Nat → Gf16
  crc : BitVec 32

/-- One row of the image, at address `v`. -/
def sweep_row (m : Mem) (S npar v : Nat) (st : SweepState) : SweepState :=
  { crc := crc_update m st.crc v (S * 2)
    acc := (List.range (npar - 1)).foldl (fun acc k => plane_step m acc ((k + 1) * S) v S (k + 1))
      (plane_xor m st.acc v S) }

def sweep_scalar (m : Mem) (pcm first S sc npar : Nat) (acc : Nat → Gf16) : SweepState :=
  let st := (List.range sc).foldl
    (fun st j => sweep_row m S npar (pcm + 2 * (first + j * S)) st) ⟨acc, 0xFFFFFFFF#32⟩
  { st with crc := st.crc ^^^ 0xFFFFFFFF#32 }

/-! ## The AVX2 sweep

The intrinsics are functions on the 32 bytes of a vector. The accumulator is held split while the
sweep runs: plane `r` is `S` low bytes at `2 r S`, then `S` high bytes. -/

/-- A 256-bit vector, byte by byte. -/
abbrev M256 := Nat → BitVec 8

def mm256_and (a b : M256) : M256 := fun i => a i &&& b i

def mm256_xor (a b : M256) : M256 := fun i => a i ^^^ b i

def mm256_set1_epi8 (x : BitVec 8) : M256 := fun _ => x

/-- Shift each 16-bit lane right. -/
def mm256_srli_epi16 (a : M256) (k : Nat) : M256 := fun i =>
  let lane := (a (2 * (i / 2) + 1) ++ a (2 * (i / 2)) : BitVec 16) >>> k
  if i % 2 = 0 then lane.setWidth 8 else (lane >>> 8).setWidth 8

/-- Look each byte up in its 128-bit lane's table; a set top bit gives zero. -/
def mm256_shuffle_epi8 (t n : M256) : M256 := fun i =>
  if (n i).getLsbD 7 then 0 else t (16 * (i / 16) + (n i).toNat % 16)

def mm256_unpacklo_epi64 (a b : M256) : M256 := fun i => if i % 16 < 8 then a i else b (i - 8)

def mm256_unpackhi_epi64 (a b : M256) : M256 := fun i => if i % 16 < 8 then a (i + 8) else b i

/-- Quadword `q` of the result is the one that the two bits of `imm` at `2 q` name. -/
def mm256_permute4x64_epi64 (a : M256) (imm : Nat) : M256 := fun i =>
  a (8 * (imm / 4 ^ (i / 8) % 4) + i % 8)

def mm256_broadcastsi128 (t : Nat → BitVec 8) : M256 := fun i => t (i % 16)

def mm256_loadu (m : Mem) (p : Nat) : M256 := fun i => m (p + i)

def mm256_storeu (m : Mem) (p : Nat) (v : M256) : Mem := fun a =>
  if p ≤ a ∧ a < p + 32 then v (a - p) else m a

structure NibTab where
  lo : Nat → M256
  hi : Nat → M256

/-- The product of nibble `n` at position `i` with the constant. -/
def nib_product (k : Gf16) (i n : Nat) : BitVec 16 :=
  (adsc_gf16_mul ⟨BitVec.ofNat 16 (n <<< (4 * i))⟩ k).bits

def build_nib_tab (e : Nat) : NibTab :=
  let k := adsc_gf16_pow e
  { lo := fun i => mm256_broadcastsi128 fun n => (nib_product k i n).setWidth 8
    hi := fun i => mm256_broadcastsi128 fun n => (nib_product k i n >>> 8).setWidth 8 }

/-- The four lookups of one table half. -/
def nib_lookup (t : Nat → M256) (n0 n1 n2 n3 : M256) : M256 :=
  mm256_xor (mm256_xor (mm256_shuffle_epi8 (t 0) n0) (mm256_shuffle_epi8 (t 1) n1))
    (mm256_xor (mm256_shuffle_epi8 (t 2) n2) (mm256_shuffle_epi8 (t 3) n3))

def mul_const32 (t : NibTab) (alo ahi : M256) : M256 × M256 :=
  let mask := mm256_set1_epi8 0x0F#8
  let n0 := mm256_and alo mask
  let n1 := mm256_and (mm256_srli_epi16 alo 4) mask
  let n2 := mm256_and ahi mask
  let n3 := mm256_and (mm256_srli_epi16 ahi 4) mask
  (nib_lookup t.lo n0 n1 n2 n3, nib_lookup t.hi n0 n1 n2 n3)

/-- The byte order that gathers each lane's low bytes, then its high bytes. -/
def split_order : M256 := fun i => BitVec.ofNat 8 (if i % 16 < 8 then 2 * (i % 8) else 2 * (i % 8) + 1)

/-- Split the 32 words at `v` into low and high bytes. -/
def split32 (m : Mem) (v : Nat) : M256 × M256 :=
  let a := mm256_shuffle_epi8 (mm256_loadu m v) split_order
  let b := mm256_shuffle_epi8 (mm256_loadu m (v + 32)) split_order
  (mm256_permute4x64_epi64 (mm256_unpacklo_epi64 a b) 0xD8,
    mm256_permute4x64_epi64 (mm256_unpackhi_epi64 a b) 0xD8)

/-- Split a row of `S` words into `scratch`, 32 at a time, then the rest. -/
def split_row (m : Mem) (v S : Nat) (scratch : Mem) : Mem :=
  let vec := S / 32 * 32
  let scratch := (List.range (S / 32)).foldl (fun scratch k =>
    let x := split32 m (v + 2 * (32 * k))
    mm256_storeu (mm256_storeu scratch (32 * k) x.1) (S + 32 * k) x.2) scratch
  (List.range (S - vec)).foldl (fun scratch i =>
    let x := load16 m (v + 2 * (vec + i))
    Function.update (Function.update scratch (vec + i) (x.setWidth 8)) (S + (vec + i))
      ((x >>> 8).setWidth 8)) scratch

/-- One plane of the split accumulator, 32 symbols at `c`. -/
def plane_vec (scratch : Mem) (S r c : Nat) (alt : Mem) : Mem :=
  let p := r * (2 * S)
  let lo := mm256_loadu alt (p + c)
  let hi := mm256_loadu alt (p + S + c)
  let x := if r ≠ 0 then mul_const32 (build_nib_tab r) lo hi else (lo, hi)
  let lo := mm256_xor x.1 (mm256_loadu scratch c)
  let hi := mm256_xor x.2 (mm256_loadu scratch (S + c))
  mm256_storeu (mm256_storeu alt (p + c) lo) (p + S + c) hi

/-- One plane of the split accumulator, one symbol of the tail. -/
def plane_tail (scratch : Mem) (S r c : Nat) (alt : Mem) : Mem :=
  let p := r * (2 * S)
  let a : Gf16 := symbol (alt (p + S + c) ++ alt (p + c))
  let a := (adsc_gf16_mul_pow_fast a r ^^^ symbol (scratch (S + c) ++ scratch c)).bits
  Function.update (Function.update alt (p + c) (a.setWidth 8)) (p + S + c) ((a >>> 8).setWidth 8)

def plane_split (scratch : Mem) (S r : Nat) (alt : Mem) : Mem :=
  let vec := S / 32 * 32
  let alt := (List.range (S / 32)).foldl (fun alt k => plane_vec scratch S r (32 * k) alt) alt
  (List.range (S - vec)).foldl (fun alt i => plane_tail scratch S r (vec + i) alt) alt

structure SplitState where
  alt : Mem
  scratch : Mem
  crc : BitVec 32

def split_sweep_row (m : Mem) (S npar v : Nat) (st : SplitState) : SplitState :=
  let scratch := split_row m v S st.scratch
  { crc := crc_update m st.crc v (S * 2)
    scratch := scratch
    alt := (List.range npar).foldl (fun alt r => plane_split scratch S r alt) st.alt }

/-- Plane `r` back to words, through `scratch`. -/
def unsplit_plane (S r : Nat) (alt : Mem) : Mem :=
  let scratch : Mem := fun i => alt (r * (2 * S) + i)
  (List.range S).foldl (fun alt c =>
    store16 alt (2 * (r * S + c)) (scratch (S + c) ++ scratch c)) alt

/-- `scratch` is what malloc returned. -/
def sweep_avx2 (m : Mem) (pcm first S sc npar : Nat) (acc : Nat → Gf16) (scratch : Mem) :
    SweepState :=
  let alt : Mem := fun a =>
    if a % 2 = 0 then (acc (a / 2)).bits.setWidth 8 else ((acc (a / 2)).bits >>> 8).setWidth 8
  let st := (List.range sc).foldl
    (fun st j => split_sweep_row m S npar (pcm + 2 * (first + j * S)) st)
    ⟨alt, scratch, 0xFFFFFFFF#32⟩
  let alt := (List.range npar).foldl (fun alt r => unsplit_plane S r alt) st.alt
  ⟨fun i => symbol (load16 alt (2 * i)), st.crc ^^^ 0xFFFFFFFF#32⟩

/-! ## Selection -/

/-- What the run-time choice depends on. -/
structure Kernel where
  /-- The processor has AVX2. -/
  avx2 : Bool
  /-- `ACCUDISC_REPAIR_KERNEL=scalar`. -/
  scalar : Bool
  /-- The AVX2 kernel's scratch, unless malloc fails. -/
  scratch : Option Mem

def kernel_choice (k : Kernel) : Bool := if k.scalar then false else k.avx2

def adsc_ctdb_sweep (k : Kernel) (m : Mem) (pcm first S sc npar : Nat) (acc : Nat → Gf16) :
    SweepState :=
  match kernel_choice k, k.scratch with
  | true, some scratch => sweep_avx2 m pcm first S sc npar acc scratch
  | _, _ => sweep_scalar m pcm first S sc npar acc

end Accudisc
