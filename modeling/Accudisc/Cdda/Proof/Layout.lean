import Accudisc.Cdda.Layout
import Accudisc.Lib.Loop

/-!
# The record order

The vote is a count (`q_hits_eq`), the winner has at least half of the records and three times the
other's (`winner_mmc`, `winner_sub`), a displaced stride is found where it explains the records after
the first (`misframe_search_found`), and a record is turned in place (`layout_to_mmc_apply`).
-/

namespace Accudisc

variable {buf : Mem} {len nsec stride off sub_len c2_len s n hits : Nat}

/-- Record `s` has its window in the buffer and a Q frame that verifies in it. -/
def q_hit (buf : Mem) (len stride off sub_len s : Nat) : Bool :=
  s * stride + off + sub_len ≤ len && q_valid (ptr buf (s * stride + off)) sub_len

/-! ## The vote -/

/-- Past the end there is nothing to count. -/
theorem q_hit_past (h : s * stride + off + sub_len > len) {t : Nat} (ht : s ≤ t) :
    q_hit buf len stride off sub_len t = false := by
  have : s * stride ≤ t * stride := Nat.mul_le_mul_right _ ht
  simp only [q_hit, Bool.and_eq_false_iff, decide_eq_false_iff_not]
  exact .inl (by omega)

theorem q_hits_loop_eq (h : hits + n < 2 ^ 32) :
    q_hits_loop buf len stride off sub_len s n hits =
      hits + (List.range' s n).countP (q_hit buf len stride off sub_len) := by
  induction n generalizing s hits with
  | zero => rfl
  | succ n ih =>
    unfold q_hits_loop
    split
    · rename_i hend
      have hnone : (List.range' s (n + 1)).countP (q_hit buf len stride off sub_len) = 0 := by
        rw [List.countP_eq_zero]
        intro t ht
        rw [q_hit_past hend (List.left_le_of_mem_range' ht)]
        exact Bool.false_ne_true
      rw [hnone, Nat.add_zero]
    · rename_i hin
      have hhit : q_hit buf len stride off sub_len s = q_valid (ptr buf (s * stride + off)) sub_len := by
        simp [q_hit, Nat.not_lt.1 hin]
      have hle := Bool.toNat_le (q_valid (ptr buf (s * stride + off)) sub_len)
      have hmod : u32 (hits + (q_valid (ptr buf (s * stride + off)) sub_len).toNat) =
          hits + (q_valid (ptr buf (s * stride + off)) sub_len).toNat := Nat.mod_eq_of_lt (by omega)
      rw [hmod, ih (by omega), List.range'_succ, List.countP_cons, hhit]
      cases q_valid (ptr buf (s * stride + off)) sub_len <;> grind

/-- The vote is a count. -/
theorem q_hits_eq (hok : sub_len_ok sub_len = true) (hn : nsec < 2 ^ 32) :
    adsc_layout_q_hits buf len nsec stride off sub_len =
      (List.range nsec).countP (q_hit buf len stride off sub_len) := by
  unfold adsc_layout_q_hits
  rw [hok, List.range_eq_range', q_hits_loop_eq (by omega), Nat.zero_add]
  rfl

theorem q_hits_le (hok : sub_len_ok sub_len = true) (hn : nsec < 2 ^ 32) :
    adsc_layout_q_hits buf len nsec stride off sub_len ≤ nsec := by
  rw [q_hits_eq hok hn]
  exact Nat.le_trans List.countP_le_length (by simp)

theorem winner_mmc {h o : Nat} (hh : 1 ≤ h) (ho : 3 * o ≤ h) (hb : h < 2 ^ 32) :
    winner h o = ADSC_LAYOUT_MMC := by
  have : u32 (o * 3) = o * 3 := Nat.mod_eq_of_lt (by omega)
  exact if_pos ⟨hh, by omega⟩

theorem winner_sub {h o : Nat} (hh : 1 ≤ h) (ho : 3 * o ≤ h) (hb : 3 * h < 2 ^ 32) :
    winner o h = ADSC_LAYOUT_SUB_FIRST := by
  have h₁ : u32 (h * 3) = h * 3 := Nat.mod_eq_of_lt (by omega)
  have h₂ : u32 (o * 3) = o * 3 := Nat.mod_eq_of_lt (by omega)
  unfold winner
  rw [if_neg (by omega), if_pos (by omega)]

/-- The verdict: the vote's, unless most records are unexplained and a displaced stride explains
them. -/
theorem inspect_eq (hok : sub_len_ok sub_len = true) {L m f : Nat} (hL : L = 2352 + c2_len + sub_len)
    (hm : adsc_layout_q_hits buf (u32 (nsec * L)) nsec L (2352 + c2_len) sub_len = m)
    (hf : adsc_layout_q_hits buf (u32 (nsec * L)) nsec L 2352 sub_len = f) (hn : 2 * nsec < 2 ^ 32) :
    adsc_layout_inspect buf nsec L c2_len =
      if nsec < 4 ∨ nsec ≤ 2 * max m f then { layout := winner m f, hits_mmc := m, hits_sub := f }
      else match misframe_search buf nsec L c2_len sub_len with
        | some stride => { layout := 0, hits_mmc := m, hits_sub := f, misframed := stride }
        | none => { layout := winner m f, hits_mmc := m, hits_sub := f } := by
  have hsub : L - 2352 - c2_len = sub_len := by omega
  have hm' : m ≤ nsec := hm ▸ q_hits_le hok (by omega)
  have hf' : f ≤ nsec := hf ▸ q_hits_le hok (by omega)
  have hbest : (nsec < MISFRAME_MIN_SECTORS ∨ u32 ((if m > f then m else f) * 2) ≥ nsec) ↔
      (nsec < 4 ∨ nsec ≤ 2 * max m f) := by
    unfold u32 MISFRAME_MIN_SECTORS
    rw [Nat.mod_eq_of_lt (by split <;> omega)]
    split <;> omega
  unfold adsc_layout_inspect
  rw [if_neg (Nat.not_lt.2 (hL ▸ Nat.le_add_right _ _)), hsub]
  simp only [hok, Bool.not_true, Bool.false_eq_true, if_false, hm, hf]
  by_cases hc : nsec < 4 ∨ nsec ≤ 2 * max m f
  · exact (if_pos (hbest.2 hc)).trans (if_pos hc).symm
  · refine (if_neg (mt hbest.1 hc)).trans (.trans ?_ (if_neg hc).symm)
    cases misframe_search buf nsec L c2_len sub_len <;> rfl

/-! ## The misframe search -/

/-- The hits of the records after the first. -/
theorem countP_range_tail {p : Nat → Bool} (hn : 0 < nsec) :
    (List.range nsec).countP p = (p 0).toNat + (List.range' 1 (nsec - 1)).countP p := by
  obtain ⟨n, rfl⟩ : ∃ n, nsec = n + 1 := ⟨nsec - 1, by omega⟩
  rw [List.range_eq_range', List.range'_succ, List.countP_cons, Nat.add_sub_cancel, Nat.add_comm]
  cases p 0 <;> rfl

/-- Where the subchannel of a record is. -/
def sub_at (c2_len : Nat) (sub_first : Bool) : Nat := if sub_first then 2352 else 2352 + c2_len

/-- A stride and an order that explain enough of the records after the first. -/
theorem misframed_at_of (hok : sub_len_ok sub_len = true) {sub_first : Bool} {L : Nat}
    (hL : L = 2352 + c2_len + sub_len) (hlen : nsec * L < 2 ^ 32) (h4 : 4 ≤ nsec)
    (h2 : 2 ≤ (List.range' 1 (nsec - 1)).countP
      (q_hit buf (nsec * L) stride (sub_at c2_len sub_first) sub_len))
    (hhalf : nsec - 1 ≤ 2 * (List.range' 1 (nsec - 1)).countP
      (q_hit buf (nsec * L) stride (sub_at c2_len sub_first) sub_len)) :
    misframed_at buf nsec L c2_len sub_len stride sub_first.toNat = true := by
  have hoff : (if sub_first.toNat ≠ 0 then ACCUDISC_BYTES_AUDIO else ACCUDISC_BYTES_AUDIO + c2_len) =
      sub_at c2_len sub_first := by cases sub_first <;> rfl
  have hnL : nsec * 3 ≤ nsec * L := Nat.mul_le_mul_left _ (by omega)
  have h1L : L ≤ nsec * L := Nat.le_mul_of_pos_left _ (by omega)
  have hin : sub_at c2_len sub_first + sub_len ≤ L := by
    unfold sub_at
    split <;> omega
  -- Record 0 is where it is whatever the stride.
  have h0 : q_hit buf (nsec * L) stride (sub_at c2_len sub_first) sub_len 0 =
      q_valid (ptr buf (sub_at c2_len sub_first)) sub_len := by
    simp only [q_hit, Nat.zero_mul, Nat.zero_add, Bool.and_eq_right_iff_imp, decide_eq_true_eq]
    exact fun _ => by omega
  have hle : (List.range' 1 (nsec - 1)).countP
      (q_hit buf (nsec * L) stride (sub_at c2_len sub_first) sub_len) ≤ nsec - 1 :=
    Nat.le_trans List.countP_le_length (by simp)
  unfold misframed_at
  simp only [hoff]
  rw [q_hits_eq hok (by omega), show u32 (nsec * L) = nsec * L from Nat.mod_eq_of_lt hlen,
    countP_range_tail (by omega), h0]
  generalize (List.range' 1 (nsec - 1)).countP
    (q_hit buf (nsec * L) stride (sub_at c2_len sub_first) sub_len) = h at h2 hhalf hle ⊢
  have hb := Bool.toNat_le (q_valid (ptr buf (sub_at c2_len sub_first)) sub_len)
  generalize (q_valid (ptr buf (sub_at c2_len sub_first)) sub_len).toNat = b at hb ⊢
  have hsub : sub32 (b + h) b = h := by
    unfold sub32
    omega
  rw [hsub, decide_eq_true_eq]
  unfold u32
  omega

/-- A stride of the search that explains the records is found, or one before it. -/
theorem misframe_search_found {L k : Nat} (hk : 1 ≤ k ∧ k ≤ MISFRAME_SPAN) {sub_first : Bool}
    (h : misframed_at buf nsec L c2_len sub_len (L + k) sub_first.toNat = true) :
    ∃ stride, misframe_search buf nsec L c2_len sub_len = some stride ∧ stride ≠ 0 := by
  unfold misframe_search
  have hsome : (((List.range MISFRAME_SPAN).map (L + 1 + ·)).find? fun stride =>
      (List.range 2).any (misframed_at buf nsec L c2_len sub_len stride)).isSome = true := by
    rw [List.find?_isSome]
    refine ⟨L + k, List.mem_map.2 ⟨k - 1, List.mem_range.2 (by omega), by omega⟩, ?_⟩
    rw [List.any_eq_true]
    exact ⟨sub_first.toNat, List.mem_range.2 (Bool.toNat_lt _), h⟩
  obtain ⟨stride, hs⟩ := Option.isSome_iff_exists.1 hsome
  refine ⟨stride, hs, ?_⟩
  obtain ⟨i, -, rfl⟩ := List.mem_map.1 (List.mem_of_find?_eq_some hs)
  omega

/-! ## Turning the records -/

/-- Where byte `i` of a record comes from. -/
def mmc_src (c2_len sub_len i : Nat) : Nat :=
  if i < 2352 then i else if i < 2352 + c2_len then i + sub_len else i - c2_len

theorem record_to_mmc_apply {L k i : Nat} (hL : L = 2352 + c2_len + sub_len) (hi : i < L) :
    record_to_mmc L c2_len sub_len buf k (s * L + i) =
      if s = k then buf (k * L + mmc_src c2_len sub_len i) else buf (s * L + i) := by
  unfold record_to_mmc mmc_src ACCUDISC_BYTES_AUDIO
  by_cases hsk : s = k
  · subst hsk
    rw [if_pos rfl]
    split
    · rw [memcpy_out (by omega), memcpy_out (by omega)]
    split
    · rw [memcpy_out (by omega), memcpy_in (by omega) (by omega)]
      exact congrArg buf (by omega)
    · rw [memcpy_in (by omega) (by omega)]
      exact congrArg buf (by omega)
  · rw [if_neg hsk]
    have := block_disjoint hsk hi (Nat.le_refl L)
    rw [memcpy_out (by omega), memcpy_out (by omega)]

/-- **The turn**: byte `i` of every record is the byte of that record that MMC's order has there. -/
theorem layout_to_mmc_apply (hok : sub_len_ok sub_len = true) {L i : Nat}
    (hL : L = 2352 + c2_len + sub_len) (hi : i < L) (hs : s < nsec) :
    adsc_layout_to_mmc buf nsec L c2_len (s * L + i) = buf (s * L + mmc_src c2_len sub_len i) := by
  have hsub : L - 2352 - c2_len = sub_len := by omega
  unfold adsc_layout_to_mmc
  rw [if_neg (Nat.not_lt.2 (hL ▸ Nat.le_add_right _ _)), hsub]
  simp only [hok, Bool.not_true, Bool.false_eq_true, if_false]
  have hinv : ∀ s i, i < L → (List.range nsec).foldl (record_to_mmc L c2_len sub_len) buf (s * L + i) =
      if s < nsec then buf (s * L + mmc_src c2_len sub_len i) else buf (s * L + i) := by
    refine Loop.foldl_range_inv (fun k (m : Mem) => ∀ s i, i < L → m (s * L + i) =
      if s < k then buf (s * L + mmc_src c2_len sub_len i) else buf (s * L + i)) (fun s i _ => rfl) ?_
    intro k _ m hm s i hi
    have hsrc : mmc_src c2_len sub_len i < L := by
      unfold mmc_src
      split
      · omega
      · split <;> omega
    rw [record_to_mmc_apply hL hi]
    by_cases hsk : s = k
    · subst hsk
      rw [if_pos rfl, if_pos (Nat.lt_succ_self s), hm s _ hsrc, if_neg (Nat.lt_irrefl s)]
    · rw [if_neg hsk, hm s i hi]
      by_cases hlt : s < k
      · rw [if_pos hlt, if_pos (by omega)]
      · rw [if_neg hlt, if_neg (by omega)]
  rw [hinv s i hi, if_pos hs]

end Accudisc
