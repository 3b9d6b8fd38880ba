import Accudisc.Read.Engine
import Mathlib.Data.List.Basic

/-!
# Bytes and records

What the comparisons of `engine.c` say of the bytes (`memeq_iff`, `adsc_audio_diff_eq_zero`), that they
look at nothing outside a record (the `_congr` lemmas), and how `memcpy` moves records
(`record_memcpy`).
-/

namespace Accudisc

variable {a b a' b' m m' other : Mem} {n L : Nat}

/-! ## Comparisons -/

theorem memeq_iff : memeq a b n = true ↔ ∀ i < n, a i = b i := by
  simp [memeq, List.all_eq_true]

section
variable {p q : Nat → Bool} (h : ∀ i < n, p i = q i)
include h

theorem any_range_congr : (List.range n).any p = (List.range n).any q := by
  rw [Bool.eq_iff_iff, List.any_eq_true, List.any_eq_true]
  refine exists_congr fun i => and_congr_right fun hi => ?_
  rw [h i (List.mem_range.1 hi)]

theorem all_range_congr : (List.range n).all p = (List.range n).all q := by
  rw [Bool.eq_iff_iff, List.all_eq_true, List.all_eq_true]
  refine forall₂_congr fun i hi => ?_
  rw [h i (List.mem_range.1 hi)]

theorem countP_range_congr : (List.range n).countP p = (List.range n).countP q :=
  List.countP_congr fun i hi => by rw [h i (List.mem_range.1 hi)]

end

theorem memeq_congr (ha : ∀ i < n, a i = a' i) (hb : ∀ i < n, b i = b' i) :
    memeq a b n = memeq a' b' n := by
  rw [Bool.eq_iff_iff, memeq_iff, memeq_iff]
  exact forall₂_congr fun i hi => by rw [ha i hi, hb i hi]

theorem adsc_audio_diff_eq_zero :
    adsc_audio_diff a b = 0 ↔ ∀ i < ACCUDISC_BYTES_AUDIO, a i = b i := by
  unfold adsc_audio_diff
  by_cases h : memeq a b ACCUDISC_BYTES_AUDIO
  · rw [if_pos h]
    exact ⟨fun _ => memeq_iff.1 h, fun _ => rfl⟩
  · rw [if_neg h, List.countP_eq_zero]
    simp

theorem adsc_audio_diff_congr (ha : ∀ i < ACCUDISC_BYTES_AUDIO, a i = a' i)
    (hb : ∀ i < ACCUDISC_BYTES_AUDIO, b i = b' i) : adsc_audio_diff a b = adsc_audio_diff a' b' := by
  unfold adsc_audio_diff
  rw [memeq_congr ha hb, countP_range_congr fun i hi => by rw [ha i hi, hb i hi]]

theorem shift_at_congr {d : Int} (ha : ∀ i < ACCUDISC_BYTES_AUDIO, a i = a' i)
    (hb : ∀ i < ACCUDISC_BYTES_AUDIO, b i = b' i) : shift_at a b d = shift_at a' b' d := by
  unfold shift_at
  simp only
  split
  · rfl
  · rename_i h
    simp only [ ACCUDISC_BYTES_AUDIO, ADSC_ANCHOR_BYTES] at ha hb h ⊢
    have hanchor : memeq (ptr a ((2352 : Nat) / 2 : Int).toNat)
      (ptr b ((2352 : Nat) / 2 + d * 4 : Int).toNat) 64 =
        memeq (ptr a' ((2352 : Nat) / 2 : Int).toNat) (ptr b' ((2352 : Nat) / 2 + d * 4 : Int).toNat) 64 :=
      memeq_congr (fun i hi => ha _ (by omega)) (fun i hi => hb _ (by omega))
    have hoverlap : memeq (ptr a (-(d * 4)).toNat) (ptr b (d * 4).toNat) (2352 - (d * 4).natAbs) =
        memeq (ptr a' (-(d * 4)).toNat) (ptr b' (d * 4).toNat) (2352 - (d * 4).natAbs) :=
      memeq_congr (fun i hi => ha _ (by omega)) (fun i hi => hb _ (by omega))
    rw [hanchor, hoverlap]

theorem adsc_shift_find_congr (ha : ∀ i < ACCUDISC_BYTES_AUDIO, a i = a' i)
    (hb : ∀ i < ACCUDISC_BYTES_AUDIO, b i = b' i) : adsc_shift_find a b = adsc_shift_find a' b' := by
  unfold adsc_shift_find
  simp only
  rw [any_range_congr (q := fun i =>
    ptr a' ( ACCUDISC_BYTES_AUDIO / 2) i != ptr a' ( ACCUDISC_BYTES_AUDIO / 2) 0),
    show shift_at a b = shift_at a' b' from funext fun d => shift_at_congr ha hb]
  intro i hi
  simp only [ADSC_ANCHOR_BYTES, ACCUDISC_BYTES_AUDIO] at hi ha ⊢
  unfold ptr
  rw [ha _ (by omega), ha _ (by omega)]

theorem alignment_signal_congr (ha : ∀ i < ACCUDISC_BYTES_AUDIO, a i = a' i) :
    alignment_signal a = alignment_signal a' := by
  unfold alignment_signal
  rw [all_range_congr (q := fun i => a' i == a' 0), adsc_shift_find_congr ha ha]
  intro i hi
  rw [ha i hi, ha 0 (by decide)]

theorem popcount_buf_congr (ha : ∀ i < n, a i = a' i) : popcount_buf a n = popcount_buf a' n :=
  List.foldl_ext _ _ _ fun bits i hi => by rw [ha i (List.mem_range.1 hi)]

theorem sub_q_congr (ha : ∀ i < ACCUDISC_BYTES_SUB_RAW, a i = a' i) : sub_q a = sub_q a' := by
  have h : accudisc_sub_extract_q a = accudisc_sub_extract_q a' :=
    List.foldl_ext _ _ _ fun q i hi => by rw [ha i (List.mem_range.1 hi)]
  unfold sub_q
  rw [h]

/-! ## Records -/

theorem record_lt {s i : Nat} (hi : i < L) : record L m s i = m (s * L + i) := if_pos hi

theorem record_congr {s t : Nat} (h : ∀ i < L, m (s * L + i) = m' (t * L + i)) :
    record L m s = record L m' t := by
  funext i
  unfold record
  split
  · exact h i ‹_›
  · rfl

theorem record_ptr (s t : Nat) : record L (ptr m (s * L)) t = record L m (s + t) := by
  refine record_congr fun i _ => ?_
  unfold ptr
  rw [Nat.add_mul, Nat.add_assoc]

/-- A copy of whole records moves records. -/
theorem record_memcpy (m other : Mem) (d s n k : Nat) :
    record L (memcpy m (d * L) other (s * L) (n * L)) k =
      if d ≤ k ∧ k < d + n then record L other (s + (k - d)) else record L m k := by
  split
  · rename_i h
    obtain ⟨j, rfl⟩ := Nat.exists_eq_add_of_le h.1
    refine record_congr fun i hi => ?_
    have hj : (j + 1) * L ≤ n * L := Nat.mul_le_mul_right L (by omega)
    rw [Nat.add_mul, Nat.one_mul] at hj
    rw [Nat.add_sub_cancel_left, Nat.add_mul, Nat.add_mul, memcpy_in (by omega) (by omega)]
    congr 1
    omega
  · rename_i h
    refine record_congr fun i hi => memcpy_out ?_
    rcases Nat.lt_or_ge k d with hk | hk
    · have := Nat.mul_le_mul_right L hk
      rw [Nat.succ_mul] at this
      exact .inl (by omega)
    · have := Nat.mul_le_mul_right L (show d + n ≤ k by omega)
      rw [Nat.add_mul] at this
      exact .inr (by omega)

/-- One record copied to the start of a buffer. -/
theorem record_memcpy_zero (s : Nat) :
    record L (memcpy m 0 other (s * L) L) 0 = record L other s := by
  have h := record_memcpy (L := L) m other 0 s 1 0
  rwa [Nat.zero_mul, Nat.one_mul, if_pos (by omega)] at h

/-- One record copied to place `d`. -/
theorem record_memcpy_one (m other : Mem) (d s k : Nat) :
    record L (memcpy m (d * L) other (s * L) L) k =
      if k = d then record L other s else record L m k := by
  have h := record_memcpy (L := L) m other d s 1 k
  rw [Nat.one_mul] at h
  rw [h]
  by_cases hk : k = d
  · subst hk
    rw [if_pos (by omega), if_pos rfl, Nat.sub_self, Nat.add_zero]
  · rw [if_neg (by omega), if_neg hk]

/-! ## The fields of a record -/

/-- The audio of a record is that of the buffer. -/
theorem record_audio (hL : ACCUDISC_BYTES_AUDIO ≤ L) (s : Nat) :
    ∀ i < ACCUDISC_BYTES_AUDIO, ptr m (s * L) i = record L m s i :=
  fun _ hi => (record_lt (Nat.lt_of_lt_of_le hi hL)).symm

theorem audio_diff_record (hL : ACCUDISC_BYTES_AUDIO ≤ L) (s t : Nat) :
    adsc_audio_diff (ptr m (s * L)) (ptr m' (t * L)) = adsc_audio_diff (record L m s) (record L m' t) :=
  adsc_audio_diff_congr (record_audio hL s) (record_audio hL t)

theorem shift_find_record (hL : ACCUDISC_BYTES_AUDIO ≤ L) (s t : Nat) :
    adsc_shift_find (ptr m (s * L)) (ptr m' (t * L)) = adsc_shift_find (record L m s) (record L m' t) :=
  adsc_shift_find_congr (record_audio hL s) (record_audio hL t)

/-! ## States of map bytes -/

theorem map_state_severity (v sev : BitVec 8) (hv : v &&& 0x0f = v) :
    map_state (v ||| (sev <<< 4)) = v := by
  have hs : (sev <<< 4) &&& 0x0f#8 = 0#8 := by
    revert sev
    decide
  unfold map_state
  rw [BitVec.and_or_distrib_right]
  rw [show (0x0f : BitVec 8) = 0x0f#8 from rfl] at hv ⊢
  rw [hv, hs, BitVec.or_zero]

end Accudisc
