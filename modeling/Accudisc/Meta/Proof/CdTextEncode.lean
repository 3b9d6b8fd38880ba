import Accudisc.Lib.Loop
import Accudisc.Meta.CdTextEncode
import Mathlib.Tactic.IntervalCases

/-!
# The ring of encoded blocks

Block `k` of the lead-in carries the packs `4 k` to `4 k + 3` of the ring, whatever the number of packs:
`adsc_cdtext_encode_rw` lays the blocks of one period, and `RingBlock` says what a block must hold.
-/

namespace Accudisc

/-- Symbol `i` of the bytes. -/
def rw_symbol (buf : Mem) (i : Nat) : BitVec 8 :=
  let a := buf (i / 4 * 3)
  let b := buf (i / 4 * 3 + 1)
  let c := buf (i / 4 * 3 + 2)
  if i % 4 = 0 then (a >>> 2) &&& 0x3f
  else if i % 4 = 1 then ((a <<< 4) &&& 0x30) ||| ((b >>> 4) &&& 0x0f)
  else if i % 4 = 2 then ((b <<< 2) &&& 0x3c) ||| ((c >>> 6) &&& 0x03)
  else c &&& 0x3f

/-- Four symbols of six bits in a row, the first one on top. -/
def symbols_word (a b c d : BitVec 8) : BitVec 24 :=
  (a.setWidth 6).setWidth 24 <<< 18 ||| (b.setWidth 6).setWidth 24 <<< 12 |||
    (c.setWidth 6).setWidth 24 <<< 6 ||| (d.setWidth 6).setWidth 24

/-- Byte `m` of the symbols of a block: four symbols make three bytes, the high bits first. -/
def regroup (blk : Mem) (m : Nat) : BitVec 8 :=
  let w := symbols_word (blk (m / 3 * 4)) (blk (m / 3 * 4 + 1)) (blk (m / 3 * 4 + 2)) (blk (m / 3 * 4 + 3))
  if m % 3 = 0 then (w >>> 16).setWidth 8 else if m % 3 = 1 then (w >>> 8).setWidth 8 else w.setWidth 8

/-- A block with nothing in the P and Q bits, and with the four packs from pack `4 k` on. -/
structure RingBlock (packs : Mem) (npacks k : Nat) (blk : Mem) : Prop where
  clear : ∀ i < ADSC_RW_BLOCK_BYTES, blk i &&& 0xc0 = 0
  pack : ∀ j < 4, ∀ i < ADSC_CDTEXT_PACK_BYTES,
    regroup blk (j * ADSC_CDTEXT_PACK_BYTES + i) = packs ((4 * k + j) % npacks * ADSC_CDTEXT_PACK_BYTES + i)

section
variable {packs out inp buf : Mem} {npacks b i j m o a : Nat}

/-! ## Symbols -/

theorem masked_clear (a b : BitVec 8) :
    (a &&& 0x3f) &&& 0xc0 = 0 ∧ ((a &&& 0x30) ||| (b &&& 0x0f)) &&& 0xc0 = 0 ∧
      ((a &&& 0x3c) ||| (b &&& 0x03)) &&& 0xc0 = 0 := by
  refine ⟨?_, ?_, ?_⟩ <;> (apply BitVec.eq_of_getLsbD_eq; intro i hi; interval_cases i <;> simp)

theorem symbol_clear : rw_symbol buf i &&& 0xc0 = 0 := by
  unfold rw_symbol
  dsimp only
  split_ifs
  · exact (masked_clear _ 0).1
  · exact (masked_clear _ _).2.1
  · exact (masked_clear _ _).2.2
  · exact (masked_clear _ 0).1

/-- The three bytes come back from their four symbols. -/
theorem symbols_word_pack (a b c : BitVec 8) :
    let w := symbols_word ((a >>> 2) &&& 0x3f) (((a <<< 4) &&& 0x30) ||| ((b >>> 4) &&& 0x0f))
      (((b <<< 2) &&& 0x3c) ||| ((c >>> 6) &&& 0x03)) (c &&& 0x3f)
    (w >>> 16).setWidth 8 = a ∧ (w >>> 8).setWidth 8 = b ∧ w.setWidth 8 = c := by
  unfold symbols_word
  refine ⟨?_, ?_, ?_⟩ <;> (apply BitVec.eq_of_getLsbD_eq; intro i hi; interval_cases i <;> simp)

variable (buf) in
theorem rw_symbol_at (g k : Nat) (hk : k < 4) : rw_symbol buf (g * 4 + k) =
    if k = 0 then (buf (g * 3) >>> 2) &&& 0x3f
    else if k = 1 then ((buf (g * 3) <<< 4) &&& 0x30) ||| ((buf (g * 3 + 1) >>> 4) &&& 0x0f)
    else if k = 2 then ((buf (g * 3 + 1) <<< 2) &&& 0x3c) ||| ((buf (g * 3 + 2) >>> 6) &&& 0x03)
    else buf (g * 3 + 2) &&& 0x3f := by
  unfold rw_symbol
  rw [show (g * 4 + k) / 4 = g by omega, show (g * 4 + k) % 4 = k by omega]

theorem regroup_symbol : regroup (rw_symbol buf) m = buf m := by
  obtain ⟨ha, hb, hc⟩ := symbols_word_pack (buf (m / 3 * 3)) (buf (m / 3 * 3 + 1)) (buf (m / 3 * 3 + 2))
  have h0 := rw_symbol_at buf (m / 3) 0 (by decide)
  have h1 := rw_symbol_at buf (m / 3) 1 (by decide)
  have h2 := rw_symbol_at buf (m / 3) 2 (by decide)
  have h3 := rw_symbol_at buf (m / 3) 3 (by decide)
  rw [if_pos rfl] at h0
  rw [if_neg (by decide), if_pos rfl] at h1
  rw [if_neg (by decide), if_neg (by decide), if_pos rfl] at h2
  rw [if_neg (by decide), if_neg (by decide), if_neg (by decide)] at h3
  unfold regroup
  rw [show m / 3 * 4 = m / 3 * 4 + 0 from rfl, h0, h1, h2, h3]
  rcases show m % 3 = 0 ∨ m % 3 = 1 ∨ m % 3 = 2 by omega with h | h | h
  · rw [if_pos h]
    exact ha.trans (congrArg buf (by omega))
  · rw [if_neg (by omega), if_pos h]
    exact hb.trans (congrArg buf (by omega))
  · rw [if_neg (by omega), if_neg (by omega)]
    exact hc.trans (congrArg buf (by omega))

theorem regroup_congr {blk blk' : Mem} (h : ∀ i < ADSC_RW_BLOCK_BYTES, blk i = blk' i) (hm : m < 72) :
    regroup blk m = regroup blk' m := by
  unfold ADSC_RW_BLOCK_BYTES at h
  unfold regroup
  rw [h (m / 3 * 4) (by omega), h (m / 3 * 4 + 1) (by omega), h (m / 3 * 4 + 2) (by omega),
    h (m / 3 * 4 + 3) (by omega)]

theorem pack3_apply : pack3 inp (i * 3) out o a =
    if o ≤ a ∧ a < o + 4 then rw_symbol inp (i * 4 + (a - o)) else out a := by
  unfold pack3
  by_cases h : o ≤ a ∧ a < o + 4
  · rw [if_pos h, rw_symbol_at _ i (a - o) (by omega)]
    rcases show a = o ∨ a = o + 1 ∨ a = o + 2 ∨ a = o + 3 by omega with rfl | rfl | rfl | rfl <;>
      simp
  · rw [if_neg h]
    simp [show a ≠ o by omega, show a ≠ o + 1 by omega, show a ≠ o + 2 by omega,
      show a ≠ o + 3 by omega]

/-! ## One block -/

theorem gather_packs_apply (hb : 4 * b + 4 ≤ 2 ^ 32) (hn : npacks ≠ 0)
    (hpacks : npacks * ADSC_CDTEXT_PACK_BYTES ≤ 2 ^ 32) (hj : j < 4) (hi : i < ADSC_CDTEXT_PACK_BYTES) :
    gather_packs packs npacks b (j * ADSC_CDTEXT_PACK_BYTES + i) =
      packs ((4 * b + j) % npacks * ADSC_CDTEXT_PACK_BYTES + i) := by
  unfold gather_packs
  have hall := Loop.foldl_range_inv (n := 4) (s := fun _ => 0)
    (f := fun buf j => memcpy buf (j * ADSC_CDTEXT_PACK_BYTES) packs
      (u32 (u32 (4 * b + j) % npacks * ADSC_CDTEXT_PACK_BYTES)) ADSC_CDTEXT_PACK_BYTES)
    (fun k buf => ∀ j < k, ∀ i < ADSC_CDTEXT_PACK_BYTES,
      buf (j * ADSC_CDTEXT_PACK_BYTES + i) = packs ((4 * b + j) % npacks * ADSC_CDTEXT_PACK_BYTES + i))
    (fun j hj => absurd hj (Nat.not_lt_zero j)) fun k hk buf ih j hj i hi => ?_
  · exact hall j hj i hi
  by_cases hjk : j = k
  · subst hjk
    have hlt : (4 * b + j) % npacks < npacks := Nat.mod_lt _ (Nat.pos_of_ne_zero hn)
    have hsrc : (4 * b + j) % npacks * ADSC_CDTEXT_PACK_BYTES < 2 ^ 32 :=
      lt_of_lt_of_le ((Nat.mul_lt_mul_right (by decide)).2 hlt) hpacks
    rw [memcpy_in (Nat.le_add_right _ _) (by omega), Nat.add_sub_cancel_left]
    unfold u32
    rw [Nat.mod_eq_of_lt (show 4 * b + j < 2 ^ 32 by omega), Nat.mod_eq_of_lt hsrc]
  · rw [memcpy_out (block_disjoint hjk hi le_rfl)]
    exact ih j (by omega) i hi

theorem encode_block_apply (hb : b * ADSC_RW_BLOCK_BYTES < 2 ^ 32) : encode_block packs npacks out b a =
    if b * ADSC_RW_BLOCK_BYTES ≤ a ∧ a < b * ADSC_RW_BLOCK_BYTES + ADSC_RW_BLOCK_BYTES then
      rw_symbol (gather_packs packs npacks b) (a - b * ADSC_RW_BLOCK_BYTES)
    else out a := by
  unfold encode_block
  have hbase : u32 (b * ADSC_RW_BLOCK_BYTES) = b * ADSC_RW_BLOCK_BYTES := Nat.mod_eq_of_lt hb
  have hall := Loop.foldl_range_inv (n := 24) (s := out)
    (f := fun out g => pack3 (gather_packs packs npacks b) (g * 3) out
      (u32 (b * ADSC_RW_BLOCK_BYTES) + g * 4))
    (fun g t => ∀ a, t a = if b * ADSC_RW_BLOCK_BYTES ≤ a ∧ a < b * ADSC_RW_BLOCK_BYTES + g * 4 then
      rw_symbol (gather_packs packs npacks b) (a - b * ADSC_RW_BLOCK_BYTES) else out a)
    (fun a => (if_neg (by omega)).symm) fun g hg t ih a => ?_
  · exact hall a
  rw [hbase, pack3_apply, ih]
  by_cases h : b * ADSC_RW_BLOCK_BYTES + g * 4 ≤ a ∧ a < b * ADSC_RW_BLOCK_BYTES + g * 4 + 4
  · rw [if_pos h, if_pos (by omega)]
    congr 1
    omega
  · rw [if_neg h]
    by_cases h' : b * ADSC_RW_BLOCK_BYTES ≤ a ∧ a < b * ADSC_RW_BLOCK_BYTES + g * 4
    · rw [if_pos h', if_pos (by omega)]
    · rw [if_neg h', if_neg (by omega)]

/-! ## The ring -/

/-- The blocks of one period carry a whole number of turns of the packs. -/
theorem dvd_block_count : npacks ∣ 4 * adsc_cdtext_rw_block_count npacks := by
  unfold adsc_cdtext_rw_block_count
  by_cases hn : npacks = 0
  · simp [hn]
  rw [if_neg hn]
  unfold gcd4
  split
  · exact ⟨1, by omega⟩
  · split
    · exact ⟨2, by omega⟩
    · exact ⟨4, by omega⟩

theorem block_count_pos (hn : npacks ≠ 0) : 0 < adsc_cdtext_rw_block_count npacks := by
  unfold adsc_cdtext_rw_block_count gcd4
  rw [if_neg hn]
  split
  · omega
  · split <;> omega

theorem ring_index (k j : Nat) :
    (4 * (k % adsc_cdtext_rw_block_count npacks) + j) % npacks = (4 * k + j) % npacks := by
  obtain ⟨c, hc⟩ : npacks ∣ 4 * adsc_cdtext_rw_block_count npacks := dvd_block_count
  have hk := Nat.div_add_mod k (adsc_cdtext_rw_block_count npacks)
  have : 4 * k + j = 4 * (k % adsc_cdtext_rw_block_count npacks) + j +
      npacks * (c * (k / adsc_cdtext_rw_block_count npacks)) := by
    rw [← Nat.mul_assoc, ← hc, Nat.mul_assoc]
    omega
  rw [this, Nat.add_mul_mod_self_left]

variable (packs out) in
/-- The blocks of the buffer, one by one. -/
theorem encode_rw_apply (hn : npacks ≠ 0)
    (hfit : adsc_cdtext_rw_block_count npacks * ADSC_RW_BLOCK_BYTES ≤ 2 ^ 32) :
    ∃ blocks, adsc_cdtext_encode_rw packs npacks out = .ok blocks ∧
      ∀ b < adsc_cdtext_rw_block_count npacks, ∀ i < ADSC_RW_BLOCK_BYTES,
        blocks (b * ADSC_RW_BLOCK_BYTES + i) = rw_symbol (gather_packs packs npacks b) i := by
  refine ⟨_, if_neg hn, Loop.foldl_range_inv (s := out) (f := encode_block packs npacks)
    (fun n t => ∀ b < n, ∀ i < ADSC_RW_BLOCK_BYTES,
      t (b * ADSC_RW_BLOCK_BYTES + i) = rw_symbol (gather_packs packs npacks b) i)
    (fun b hb => absurd hb (Nat.not_lt_zero b)) fun n hn t ih b hb i hi => ?_⟩
  have hnn : n * ADSC_RW_BLOCK_BYTES < 2 ^ 32 :=
    lt_of_lt_of_le ((Nat.mul_lt_mul_right (by decide)).2 hn) hfit
  rw [encode_block_apply hnn]
  by_cases hbe : b = n
  · subst hbe
    rw [if_pos (by omega), Nat.add_sub_cancel_left]
  · rw [if_neg (by have := block_disjoint hbe hi (le_refl ADSC_RW_BLOCK_BYTES); omega)]
    exact ih b (by omega) i hi

variable (packs out) in
/-- **Every block of the ring**: place `k` of the lead-in holds block `k` of the ring of packs. -/
theorem encode_rw_ring (hn : npacks ≠ 0)
    (hfit : adsc_cdtext_rw_block_count npacks * ADSC_RW_BLOCK_BYTES ≤ 2 ^ 32) :
    ∃ blocks, adsc_cdtext_encode_rw packs npacks out = .ok blocks ∧
      ∀ k, RingBlock packs npacks k
        (ptr blocks (k % adsc_cdtext_rw_block_count npacks * ADSC_RW_BLOCK_BYTES)) := by
  obtain ⟨blocks, hok, hall⟩ := encode_rw_apply packs out hn hfit
  refine ⟨blocks, hok, fun k => ?_⟩
  have hlt := Nat.mod_lt k (block_count_pos hn)
  have hle : npacks ≤ 4 * adsc_cdtext_rw_block_count npacks :=
    Nat.le_of_dvd (by have := block_count_pos hn; omega) dvd_block_count
  have hblk : ∀ i < ADSC_RW_BLOCK_BYTES,
      ptr blocks (k % adsc_cdtext_rw_block_count npacks * ADSC_RW_BLOCK_BYTES) i =
        rw_symbol (gather_packs packs npacks (k % adsc_cdtext_rw_block_count npacks)) i := hall _ hlt
  unfold ADSC_RW_BLOCK_BYTES at hfit
  refine ⟨fun i hi => ?_, fun j hj i hi => ?_⟩
  · rw [hblk i hi]
    exact symbol_clear
  · have hm : j * ADSC_CDTEXT_PACK_BYTES + i < 72 := by
      unfold ADSC_CDTEXT_PACK_BYTES at *
      omega
    rw [regroup_congr hblk hm, regroup_symbol,
      gather_packs_apply (by omega) hn (by unfold ADSC_CDTEXT_PACK_BYTES; omega) hj hi, ring_index]

end

end Accudisc
