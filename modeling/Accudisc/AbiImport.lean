import Accudisc.Abi
import Accudisc.Mem

/-!
# Taking in a structure of another size (`abi.c`)

`adsc_abi_import`: a shorter structure is extended with zeros, of a longer one the tail has to be zero.
A structure's size is its first four bytes, least byte first; the rest are its fields, and a field past
its end is zero.
-/

namespace Accudisc

/-- `ADSC_ABI_GROWTH_MAX`. -/
def ABI_GROWTH_MAX : Nat := 256

/-- `s->size`. -/
def struct_size (s : Mem) : Nat :=
  (s 0).toNat + 256 * (s 1).toNat + 65536 * (s 2).toNat + 16777216 * (s 3).toNat

/-- `uint32_t norm`, in memory. -/
def norm_bytes (n : Nat) : Mem := fun i => BitVec.ofNat 8 (n / 256 ^ i)

/-- Whether the tail asks for anything. -/
def tail_set (src : Mem) (off n : Nat) : Bool := (List.range n).any fun i => src (off + i) ≠ 0

/-- The code and what `dst` holds then. -/
def adsc_abi_import (dst : Mem) (dst_size : Nat) (src : Mem) (src_size : Nat) : Int × Mem :=
  if dst_size < 4 then (ACCUDISC_ERR_INVAL, dst)
  else if src_size < 4 then (ACCUDISC_ERR_ABI, dst)
  else if dst_size + ABI_GROWTH_MAX < src_size then (ACCUDISC_ERR_ABI, dst)
  else
    let dst := memset dst 0 0 dst_size
    if dst_size < src_size ∧ tail_set src dst_size (src_size - dst_size) = true then (ACCUDISC_ERR_ABI, dst)
    else
      let src_size := if dst_size < src_size then dst_size else src_size
      (ACCUDISC_OK, memcpy (memcpy dst 0 src 0 src_size) 0 (norm_bytes dst_size) 0 4)

/-! ## What a structure says -/

/-- The fields of a structure, zero past its end. -/
def struct_fields (s : Mem) (i : Nat) : BitVec 8 := if 4 ≤ i ∧ i < struct_size s then s i else 0

/-- A build that has a structure of `size` bytes on a stack that holds `dst`. -/
structure Build where
  size : Nat
  dst : Mem

/-- A structure passed on from build to build, each taking in what the one before made of it. -/
def abi_passes (builds : List Build) (s : Mem) : Except Int Mem :=
  builds.foldlM (fun s b =>
    let r := adsc_abi_import b.dst b.size s (struct_size s)
    if r.1 = ACCUDISC_OK then .ok r.2 else .error r.1) s

/-- The sizes that a structure of `size` bytes goes through without a refusal on their account. -/
def Plausible : Nat → List Build → Prop
  | _, [] => True
  | size, b :: builds => 4 ≤ b.size ∧ 4 ≤ size ∧ size ≤ b.size + ABI_GROWTH_MAX ∧ Plausible b.size builds

/-! ## One import -/

section
variable {dst src : Mem} {n : Nat}

theorem norm_bytes_size (hn : n < 2 ^ 32) {m : Mem} : struct_size (memcpy m 0 (norm_bytes n) 0 4) = n := by
  have hbyte : ∀ i < 4, memcpy m 0 (norm_bytes n) 0 4 i = BitVec.ofNat 8 (n / 256 ^ i) := by
    intro i hi
    rw [memcpy_in (Nat.zero_le i) (by omega), Nat.zero_add, Nat.sub_zero, norm_bytes]
  unfold struct_size
  rw [hbyte 0 (by omega), hbyte 1 (by omega), hbyte 2 (by omega), hbyte 3 (by omega)]
  simp only [BitVec.toNat_ofNat]
  omega

theorem tail_set_iff {off k : Nat} : tail_set src off k = true ↔ ∃ i, off ≤ i ∧
    i < off + k ∧ src i ≠ 0 := by
  unfold tail_set
  rw [List.any_eq_true]
  constructor
  · rintro ⟨i, hi, hne⟩
    exact ⟨off + i, Nat.le_add_right off i, Nat.add_lt_add_left (List.mem_range.1 hi) off,
      of_decide_eq_true hne⟩
  · rintro ⟨i, hle, hlt, hne⟩
    obtain ⟨j, rfl⟩ := Nat.exists_eq_add_of_le hle
    exact ⟨j, List.mem_range.2 (by omega), decide_eq_true hne⟩

/-- What an import refuses, and what it makes of the rest. -/
theorem adsc_abi_import_cases (dst src : Mem) {n : Nat} (hn : n < 2 ^ 32) :
    ((adsc_abi_import dst n src (struct_size src)).1 = ACCUDISC_OK ↔
      4 ≤ n ∧ 4 ≤ struct_size src ∧ struct_size src ≤ n + ABI_GROWTH_MAX ∧ ∀ i, n ≤ i →
        struct_fields src i = 0) ∧
    ((adsc_abi_import dst n src (struct_size src)).1 = ACCUDISC_OK →
      struct_size (adsc_abi_import dst n src (struct_size src)).2 = n ∧
      struct_fields (adsc_abi_import dst n src (struct_size src)).2 = struct_fields src) := by
  have hinval : ¬ACCUDISC_ERR_INVAL = ACCUDISC_OK := by decide
  have habi : ¬ACCUDISC_ERR_ABI = ACCUDISC_OK := by decide
  unfold adsc_abi_import
  by_cases h4 : n < 4
  · rw [if_pos h4]
    exact ⟨⟨fun h => absurd h hinval, fun h => absurd h.1 (by omega)⟩, fun h => absurd h hinval⟩
  rw [if_neg h4]
  by_cases hs4 : struct_size src < 4
  · rw [if_pos hs4]
    exact ⟨⟨fun h => absurd h habi, fun h => absurd h.2.1 (by omega)⟩, fun h => absurd h habi⟩
  rw [if_neg hs4]
  by_cases hgrow : n + ABI_GROWTH_MAX < struct_size src
  · rw [if_pos hgrow]
    exact ⟨⟨fun h => absurd h habi, fun h => absurd h.2.2.1 (by omega)⟩, fun h => absurd h habi⟩
  rw [if_neg hgrow]
  dsimp only
  have htail : (n < struct_size src ∧ tail_set src n (struct_size src - n) = true) ↔ ¬∀ i, n ≤ i →
    struct_fields src i = 0 := by
    rw [tail_set_iff]
    constructor
    · rintro ⟨hlt, i, hle, hi, hne⟩ hall
      have hz := hall i hle
      rw [struct_fields, if_pos ⟨by omega, by omega⟩] at hz
      exact hne hz
    · intro hall
      obtain ⟨i, hi⟩ := not_forall.1 hall
      obtain ⟨hle, hne⟩ := Classical.not_imp.1 hi
      have hin : 4 ≤ i ∧ i < struct_size src := by
        by_contra hout
        exact hne (if_neg hout)
      rw [struct_fields, if_pos hin] at hne
      exact ⟨by omega, i, hle, by omega, hne⟩
  by_cases hall : ∀ i, n ≤ i → struct_fields src i = 0
  · have hmin : (if n < struct_size src then n else struct_size src) = min n (struct_size src) := by
      split <;> omega
    rw [if_neg fun h => htail.1 h hall, hmin]
    refine ⟨⟨fun _ => ⟨by omega, by omega, by omega, hall⟩, fun _ => rfl⟩, fun _ => ?_⟩
    have hsize := norm_bytes_size hn (m := memcpy (memset dst 0 0 n) 0 src 0 (min n (struct_size src)))
    refine ⟨hsize, funext fun i => ?_⟩
    unfold struct_fields
    dsimp only
    rw [hsize]
    by_cases hi : 4 ≤ i ∧ i < n
    · rw [if_pos hi, memcpy_out (by omega)]
      by_cases hs : i < struct_size src
      · rw [if_pos ⟨hi.1, hs⟩, memcpy_in (Nat.zero_le i) (by omega), Nat.zero_add, Nat.sub_zero]
      · rw [if_neg fun h => hs h.2, memcpy_out (by omega), memset,
          if_pos ⟨Nat.zero_le i, by omega⟩]
    · rw [if_neg hi]
      by_cases h : 4 ≤ i
      · exact (hall i (by omega)).symm
      · exact (if_neg fun h' => h h'.1).symm
  · rw [if_pos (htail.2 hall)]
    exact ⟨⟨fun h => absurd h habi, fun h => absurd h.2.2.2 hall⟩, fun h => absurd h habi⟩

end

/-! ## From build to build -/

/-- What becomes of a structure on its way: it goes through exactly where the sizes are plausible and
every build has the fields that are set, and then the last build has the fields of the first. -/
structure AbiPassed (builds : List Build) (s : Mem) : Prop where
  goes : (∃ t, abi_passes builds s = .ok t) ↔
    Plausible (struct_size s) builds ∧ ∀ b ∈ builds, ∀ i, b.size ≤ i → struct_fields s i = 0
  kept : ∀ t, abi_passes builds s = .ok t → struct_fields t = struct_fields s

/-- **A structure keeps its fields from build to build**, or is refused. -/
theorem abi_passes_fields (builds : List Build) (s : Mem) (hsize : ∀ b ∈ builds, b.size < 2 ^ 32) :
    AbiPassed builds s := by
  induction builds generalizing s with
  | nil =>
    refine ⟨⟨fun _ => ⟨trivial, fun b hb => absurd hb List.not_mem_nil⟩, fun _ => ⟨s, rfl⟩⟩, fun t h => ?_⟩
    cases h
    rfl
  | cons b builds ih =>
    obtain ⟨hb, hrest⟩ := List.forall_mem_cons.1 hsize
    obtain ⟨hiff, hkept⟩ := adsc_abi_import_cases b.dst s hb
    have hstep : abi_passes (b :: builds) s =
        if (adsc_abi_import b.dst b.size s (struct_size s)).1 = ACCUDISC_OK then
          abi_passes builds (adsc_abi_import b.dst b.size s (struct_size s)).2
        else .error (adsc_abi_import b.dst b.size s (struct_size s)).1 := by
      rw [abi_passes, List.foldlM_cons]
      dsimp only
      split <;> rfl
    by_cases hok : (adsc_abi_import b.dst b.size s (struct_size s)).1 = ACCUDISC_OK
    · rw [if_pos hok] at hstep
      obtain ⟨hsz, hfields⟩ := hkept hok
      obtain ⟨hn, hs, hgrow, htail⟩ := hiff.1 hok
      obtain ⟨hih, hihk⟩ := ih (adsc_abi_import b.dst b.size s (struct_size s)).2 hrest
      rw [hsz, hfields] at hih
      refine ⟨?_, fun t ht => ?_⟩
      · rw [hstep, hih]
        exact ⟨fun h => ⟨⟨hn, hs, hgrow, h.1⟩, List.forall_mem_cons.2 ⟨htail, h.2⟩⟩,
          fun h => ⟨h.1.2.2.2, (List.forall_mem_cons.1 h.2).2⟩⟩
      · rw [hstep] at ht
        rw [hihk t ht, hfields]
    · rw [if_neg hok] at hstep
      refine ⟨⟨fun h => ?_, fun h => ?_⟩, fun t ht => ?_⟩
      · obtain ⟨t, ht⟩ := h
        rw [hstep] at ht
        cases ht
      · exact absurd (hiff.2 ⟨h.1.1, h.1.2.1, h.1.2.2.1, (List.forall_mem_cons.1 h.2).1⟩) hok
      · rw [hstep] at ht
        cases ht

/-- An 8-byte structure through a build of 12 bytes and one of 8. -/
theorem abi_passes_fields_short : AbiPassed [⟨12, fun _ => 0xaa⟩, ⟨8, fun _ => 0xbb⟩] (norm_bytes 8) :=
  abi_passes_fields _ _ (by decide)

end Accudisc
