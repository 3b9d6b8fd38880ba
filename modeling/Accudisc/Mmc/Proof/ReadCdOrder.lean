import Accudisc.Cdda.Proof.Layout
import Accudisc.Mmc.Proof.ReadCd

/-!
# The record order of READ CD

`read_cd_order`: a combined read whose Q frames verify at their place comes back in MMC order, one
whose records are displaced is refused as it came, and a call with no more than one frame that verifies
leaves the latch alone.
-/

namespace Accudisc

/-- The records whose Q frame verifies where the order has the subchannel. -/
def ReadCdCall.votes (q : ReadCdCall) (b : Mem) (sub_first : Bool) : Nat :=
  (List.range q.nsec).countP fun s =>
    q_valid (ptr b (s * q.sector_len + sub_at q.c2_len sub_first)) q.sub_len

/-- The records after the first whose Q frame verifies at another stride, as far as the buffer goes. -/
def ReadCdCall.displaced (q : ReadCdCall) (b : Mem) (stride : Nat) (sub_first : Bool) : Nat :=
  (List.range' 1 (q.nsec - 1)).countP (q_hit b q.exact stride (sub_at q.c2_len sub_first) q.sub_len)

/-- `out` is `b`, whose records are in one order, with each record's fields in MMC order. -/
def ReadCdCall.InMmcOrder (q : ReadCdCall) (sub_first : Bool) (b out : Mem) : Prop :=
  ∀ s < q.nsec,
    (∀ i < ACCUDISC_BYTES_AUDIO, out (s * q.sector_len + i) = b (s * q.sector_len + i)) ∧
    (∀ i < q.c2_len, out (s * q.sector_len + ( ACCUDISC_BYTES_AUDIO + i)) =
      b (s * q.sector_len +
        ((if sub_first then ACCUDISC_BYTES_AUDIO + q.sub_len else ACCUDISC_BYTES_AUDIO) + i))) ∧
    ∀ i < q.sub_len, out (s * q.sector_len + ( ACCUDISC_BYTES_AUDIO + q.c2_len + i)) =
      b (s * q.sector_len + (sub_at q.c2_len sub_first + i))

section
variable {env : MmcEnv} {q : ReadCdCall} {dev : MmcDev}

/-- What a combined read that was accepted is. -/
structure ReadCdCall.Combined (q : ReadCdCall) : Prop where
  sector_len : q.sector_len = 2352 + q.c2_len + q.sub_len
  sub_len_ok : sub_len_ok q.sub_len = true
  nsec : 0 < q.nsec
  exact : q.nsec * q.sector_len < 2 ^ 32

theorem ReadCdCall.combined (hc2 : q.c2 ≠ ACCUDISC_C2_NONE) (hsub : q.sub ≠ ACCUDISC_SUB_NONE)
    (h : ¬(q.c2 > ACCUDISC_C2_PTRS_BEB ∨ q.sub > ACCUDISC_SUB_Q ∨
      q.sector_len ≠ adsc_read_cd_sector_len q.c2 q.sub ∨ q.nsec = 0 ∨
      q.nsec > UINT32_MAX / q.sector_len)) : q.Combined := by
  simp only [not_or, not_lt, not_not, gt_iff_lt] at h
  obtain ⟨h2, hs, hL, hn, hmax⟩ := h
  have hc : q.c2 = 1 ∨ q.c2 = 2 := by
    have : q.c2 ≠ 0 := hc2
    change q.c2 ≤ 2 at h2
    omega
  have hs : q.sub = 1 ∨ q.sub = 2 := by
    have : q.sub ≠ 0 := hsub
    change q.sub ≤ 2 at hs
    omega
  have hlen : q.sector_len = 2352 + q.c2_len + q.sub_len ∧ Accudisc.sub_len_ok q.sub_len = true := by
    unfold ReadCdCall.c2_len ReadCdCall.sub_len
    rcases hc with hc | hc <;> rcases hs with hs | hs <;> rw [hL, hc, hs] <;> decide
  refine ⟨hlen.1, hlen.2, Nat.pos_of_ne_zero hn, ?_⟩
  have := Nat.mul_le_of_le_div _ _ _ hmax
  unfold UINT32_MAX at this
  omega

variable (env q dev) in
/-- The transfer leaves the latches alone. -/
theorem read_cd_transfer_layout : (read_cd_transfer env q dev).dev.layout = dev.layout := by
  have hgrow : ∀ want, (bounce_grow env dev want).layout = dev.layout := fun want => by
    unfold bounce_grow
    split
    · split <;> rfl
    · rfl
  have hshape : (read_cd_shape env dev q.exact).2.2.layout = dev.layout := by
    unfold read_cd_shape
    split
    · simp only
      split <;> exact hgrow _
    · rfl
  unfold read_cd_transfer
  simp only
  split
  · split <;> exact hshape
  · split
    · exact hshape
    · split <;> exact hshape

/-- The bytes of an accepted call are the transfer's. -/
theorem read_cd_bytes (h : ¬(q.c2 > ACCUDISC_C2_PTRS_BEB ∨ q.sub > ACCUDISC_SUB_Q ∨
      q.sector_len ≠ adsc_read_cd_sector_len q.c2 q.sub ∨ q.nsec = 0 ∨
      q.nsec > UINT32_MAX / q.sector_len)) :
    (adsc_mmc_read_cd env q dev).bytes = (read_cd_transfer env q dev).bytes := by
  unfold adsc_mmc_read_cd
  rw [if_neg h]
  simp only
  split
  · rfl
  · split <;> rfl

/-- A combined read that gets past the transfer is the transfer's bytes, put in order. -/
theorem read_cd_combined (hc2 : q.c2 ≠ ACCUDISC_C2_NONE) (hsub : q.sub ≠ ACCUDISC_SUB_NONE) {b : Mem}
    (hb : (adsc_mmc_read_cd env q dev).bytes = some b) :
    q.Combined ∧ ∃ dev', dev'.layout = dev.layout ∧
      (adsc_mmc_read_cd env q dev).rc = (read_cd_layout q dev' b).1 ∧
      (adsc_mmc_read_cd env q dev).dev = (read_cd_layout q dev' b).2.1 ∧
      (adsc_mmc_read_cd env q dev).buf = (read_cd_layout q dev' b).2.2 := by
  by_cases hbad : q.c2 > ACCUDISC_C2_PTRS_BEB ∨ q.sub > ACCUDISC_SUB_Q ∨
      q.sector_len ≠ adsc_read_cd_sector_len q.c2 q.sub ∨ q.nsec = 0 ∨ q.nsec > UINT32_MAX / q.sector_len
  · unfold adsc_mmc_read_cd at hb
    rw [if_pos hbad] at hb
    cases hb
  rw [read_cd_bytes hbad] at hb
  unfold adsc_mmc_read_cd
  rw [if_neg hbad]
  have hlay := read_cd_transfer_layout env q dev
  have hbuf := (read_cd_transfer_spec env q dev).2
  generalize read_cd_transfer env q dev = x at hb hlay hbuf ⊢
  simp only
  obtain ⟨rfl, hrc⟩ := hbuf b hb
  rw [if_neg (not_not.2 hrc), if_pos ⟨hc2, hsub⟩]
  exact ⟨ReadCdCall.combined hc2 hsub hbad, x.dev, hlay, rfl, rfl, rfl⟩

end

theorem ReadCdCall.votes_le (q : ReadCdCall) (b : Mem) (f : Bool) : q.votes b f ≤ q.nsec :=
  Nat.le_trans List.countP_le_length (by simp)

section
variable {q : ReadCdCall} (hq : q.Combined) {b : Mem}
include hq

theorem ReadCdCall.Combined.sub_at_le (f : Bool) : sub_at q.c2_len f + q.sub_len ≤ q.sector_len := by
  have := hq.sector_len
  unfold sub_at
  split <;> omega

/-- The vote is the count of frames that verify at their place. -/
theorem ReadCdCall.Combined.hits (f : Bool) :
    adsc_layout_q_hits b (u32 (q.nsec * q.sector_len)) q.nsec q.sector_len (sub_at q.c2_len f) q.sub_len =
      q.votes b f := by
  have hL := hq.sector_len
  have hn : q.nsec ≤ q.nsec * q.sector_len := Nat.le_mul_of_pos_right _ (by omega)
  have hx := hq.exact
  rw [q_hits_eq hq.sub_len_ok (by omega), show u32 (q.nsec * q.sector_len) = q.nsec * q.sector_len from
    Nat.mod_eq_of_lt hx]
  refine List.countP_congr fun s hs => ?_
  have hs' : s + 1 ≤ q.nsec := List.mem_range.1 hs
  have hle := Nat.mul_le_mul_right q.sector_len hs'
  rw [Nat.succ_mul] at hle
  have hin := hq.sub_at_le f
  simp only [q_hit, Bool.and_eq_true, decide_eq_true_eq, and_iff_right_iff_imp]
  exact fun _ => by omega

theorem ReadCdCall.Combined.small : 3 * q.nsec < 2 ^ 32 := by
  have hL := hq.sector_len
  have hx := hq.exact
  have := Nat.mul_le_mul_left q.nsec (show 3 ≤ q.sector_len by omega)
  omega

/-- The verdict on a combined read. -/
theorem ReadCdCall.Combined.inspect :
    adsc_layout_inspect b q.nsec q.sector_len q.c2_len =
      if q.nsec < 4 ∨ q.nsec ≤ 2 * max (q.votes b false) (q.votes b true) then
        { layout := winner (q.votes b false) (q.votes b true), hits_mmc := q.votes b false,
          hits_sub := q.votes b true }
      else match misframe_search b q.nsec q.sector_len q.c2_len q.sub_len with
        | some stride =>
          { layout := 0, hits_mmc := q.votes b false, hits_sub := q.votes b true, misframed := stride }
        | none =>
          { layout := winner (q.votes b false) (q.votes b true), hits_mmc := q.votes b false,
            hits_sub := q.votes b true } :=
  inspect_eq hq.sub_len_ok hq.sector_len (hq.hits false) (hq.hits true) (by have := hq.small; omega)

/-- The records turned. -/
theorem ReadCdCall.Combined.turned :
    q.InMmcOrder true b (adsc_layout_to_mmc b q.nsec q.sector_len q.c2_len) := by
  have hL := hq.sector_len
  unfold ReadCdCall.InMmcOrder ACCUDISC_BYTES_AUDIO
  intro s hs
  have hturn : ∀ i < q.sector_len, adsc_layout_to_mmc b q.nsec q.sector_len q.c2_len
    (s * q.sector_len + i) =
      b (s * q.sector_len + mmc_src q.c2_len q.sub_len i) := fun i hi =>
    layout_to_mmc_apply hq.sub_len_ok hL hi hs
  refine ⟨fun i hi => ?_, fun i hi => ?_, fun i hi => ?_⟩
  · rw [hturn i (by omega), mmc_src, if_pos hi]
  · rw [hturn _ (by omega), mmc_src, if_neg (by omega), if_pos (by omega), if_pos rfl]
    exact congrArg b (by omega)
  · rw [hturn _ (by omega), mmc_src, if_neg (by omega), if_neg (by omega)]
    exact congrArg b (by simp only [sub_at, if_true]; omega)

omit hq in
/-- The records that are in order. -/
theorem ReadCdCall.inMmcOrder_refl : q.InMmcOrder false b b := fun _ _ =>
  ⟨fun _ _ => rfl, fun _ _ => rfl, fun _ _ => rfl⟩

/-- A vote that is won returns the records in MMC order. -/
theorem ReadCdCall.Combined.won {dev : MmcDev} {f : Bool} (h1 : 1 ≤ q.votes b f)
    (hhalf : q.nsec ≤ 2 * q.votes b f) (hother : 3 * q.votes b (!f) ≤ q.votes b f) :
    (read_cd_layout q dev b).1 = ACCUDISC_OK ∧ q.InMmcOrder f b (read_cd_layout q dev b).2.2 := by
  have hsmall := hq.small
  have hle := q.votes_le b f
  have hv := hq.inspect (b := b)
  unfold read_cd_layout
  simp only
  cases f with
  | false =>
    have hw : winner (q.votes b false) (q.votes b true) = ADSC_LAYOUT_MMC := winner_mmc h1 hother (by omega)
    rw [if_pos (.inr (by omega)), hw] at hv
    rw [hv]
    exact ⟨rfl, ReadCdCall.inMmcOrder_refl⟩
  | true =>
    have hw : winner (q.votes b false) (q.votes b true) = ADSC_LAYOUT_SUB_FIRST :=
      winner_sub h1 hother (by omega)
    rw [if_pos (.inr (by omega)), hw] at hv
    rw [hv]
    exact ⟨rfl, hq.turned⟩

/-- Displaced records are refused as they came. -/
theorem ReadCdCall.Combined.misframed {dev : MmcDev} {k : Nat} {f : Bool} (hk : 1 ≤ k ∧ k ≤ MISFRAME_SPAN)
    (h4 : 4 ≤ q.nsec) (h2 : 2 ≤ q.displaced b (q.sector_len + k) f)
    (hhalf : q.nsec - 1 ≤ 2 * q.displaced b (q.sector_len + k) f)
    (hnone : ∀ s, 1 ≤ s → s < q.nsec → ∀ g,
      q_valid (ptr b (s * q.sector_len + sub_at q.c2_len g)) q.sub_len = false) :
    (read_cd_layout q dev b).1 = ACCUDISC_ERR_IO ∧ (read_cd_layout q dev b).2.2 = b := by
  have hvotes : ∀ g, q.votes b g ≤ 1 := fun g => by
    unfold ReadCdCall.votes
    rw [countP_range_tail hq.nsec, List.countP_eq_zero.2]
    · exact Bool.toNat_le _
    · intro s hs
      obtain ⟨h1, hlt⟩ := List.mem_range'_1.1 hs
      rw [hnone s h1 (by omega) g]
      exact Bool.false_ne_true
  have hat := misframed_at_of hq.sub_len_ok hq.sector_len hq.exact h4 h2 hhalf
  obtain ⟨stride, hs, hne⟩ := misframe_search_found hk hat
  have hf := hvotes false
  have ht := hvotes true
  have hv := hq.inspect (b := b)
  rw [if_neg (by omega), hs] at hv
  unfold read_cd_layout
  simp only
  rw [hv]
  simp only
  rw [if_pos hne]
  exact ⟨rfl, rfl⟩

/-- With no more than one frame that verifies the latch stays. -/
theorem ReadCdCall.Combined.latch {dev : MmcDev} (hf : q.votes b false ≤ 1) (ht : q.votes b true ≤ 1) :
    (read_cd_layout q dev b).2.1.layout = dev.layout := by
  have hlatch : ∀ l, layout_latch (adsc_layout_inspect b q.nsec q.sector_len q.c2_len) l = l := fun l => by
    have hm : (adsc_layout_inspect b q.nsec q.sector_len q.c2_len).hits_mmc ≤ 1 ∧
        (adsc_layout_inspect b q.nsec q.sector_len q.c2_len).hits_sub ≤ 1 := by
      rw [hq.inspect]
      split
      · exact ⟨hf, ht⟩
      · split <;> exact ⟨hf, ht⟩
    unfold layout_latch
    simp only
    refine if_neg fun h => ?_
    have := h.2.1
    split at this <;> omega
  unfold read_cd_layout
  simp only
  split
  · rfl
  · simp only [hlatch, Function.update_eq_self]

end

section
variable {env : MmcEnv} {q : ReadCdCall} {dev : MmcDev}

/-- **Record order** of a combined read that gets past the transfer, whatever the latch: put in MMC order
where the vote is won, refused as it came where the records are displaced; and a call without two
frames that verify leaves the latch as it was. -/
theorem read_cd_order (hc2 : q.c2 ≠ ACCUDISC_C2_NONE) (hsub : q.sub ≠ ACCUDISC_SUB_NONE) {b : Mem}
    (hb : (adsc_mmc_read_cd env q dev).bytes = some b) :
    (∀ sub_first, 1 ≤ q.votes b sub_first → q.nsec ≤ 2 * q.votes b sub_first →
      3 * q.votes b (!sub_first) ≤ q.votes b sub_first →
      (adsc_mmc_read_cd env q dev).rc = ACCUDISC_OK ∧
        q.InMmcOrder sub_first b (adsc_mmc_read_cd env q dev).buf) ∧
    (∀ k sub_first, 1 ≤ k ∧ k ≤ 16 → 4 ≤ q.nsec → 2 ≤ q.displaced b (q.sector_len + k) sub_first →
      q.nsec - 1 ≤ 2 * q.displaced b (q.sector_len + k) sub_first →
      (∀ s, 1 ≤ s → s < q.nsec → ∀ f,
        q_valid (ptr b (s * q.sector_len + sub_at q.c2_len f)) q.sub_len = false) →
      (adsc_mmc_read_cd env q dev).rc = ACCUDISC_ERR_IO ∧ (adsc_mmc_read_cd env q dev).buf = b) ∧
    (q.votes b false ≤ 1 → q.votes b true ≤ 1 → (adsc_mmc_read_cd env q dev).dev.layout = dev.layout) := by
  obtain ⟨hq, dev', hl, hrc, hdev, hbuf⟩ := read_cd_combined hc2 hsub hb
  rw [hrc, hdev, hbuf, ← hl]
  exact ⟨fun f h1 hhalf ho => hq.won h1 hhalf ho,
    fun k f hk h4 h2 hhalf hn => hq.misframed hk h4 h2 hhalf hn, fun hf ht => hq.latch hf ht⟩

end

/-- A drive whose every answer has the empty Q frame at each place of `at'`. -/
def frames_at (at' : List Nat) : MmcEnv :=
  ⟨fun _ => ⟨ACCUDISC_OK, 0, 0, ⟨false, 0, 0⟩, fun a => if a ∈ at' ∨ a ∈ at'.map (· + 1) then 0xff else 0⟩,
    fun _ => some fun _ => 0⟩

/-- A read of `n` sectors with C2 and formatted Q. -/
def combined_read (n : Nat) : ReadCdCall := ⟨0, n, 0, ACCUDISC_C2_PTRS, ACCUDISC_SUB_Q, fun _ => 0, 2662⟩

/-- What a read through a bounce buffer leaves of an answer. -/
def bounced (data : Mem) (len cap : Nat) : Mem :=
  memcpy (fun _ => 0) 0 (memcpy (fun _ => 0) 0 data 0 cap) 0 len

/-- On a fresh handle: one record in subchannel-first order, which comes out in MMC order and does not
move the latch; and four records two bytes too far apart, which are refused as they came. -/
theorem read_cd_order_one : (∃ (env : MmcEnv) (q : ReadCdCall) (b : Mem),
    (adsc_mmc_read_cd env q .opened).bytes = some b ∧ q.votes b true = 1 ∧
      (adsc_mmc_read_cd env q .opened).rc = ACCUDISC_OK ∧
      q.InMmcOrder true b (adsc_mmc_read_cd env q .opened).buf ∧
      (adsc_mmc_read_cd env q .opened).dev.layout = MmcDev.opened.layout) ∧
    ∃ (env : MmcEnv) (q : ReadCdCall) (b : Mem), (adsc_mmc_read_cd env q .opened).bytes = some b ∧
      q.displaced b (q.sector_len + 2) true = 3 ∧ (adsc_mmc_read_cd env q .opened).rc = ACCUDISC_ERR_IO ∧
      (adsc_mmc_read_cd env q .opened).buf = b := by
  have hb : ∀ n ∈ [1, 4], ∀ at', (adsc_mmc_read_cd (frames_at at') (combined_read n) .opened).bytes =
      some (bounced (fun a => if a ∈ at' ∨ a ∈ at'.map (· + 1) then 0xff else 0) (n * 2662)
        (if n = 1 then 2672 else 10656)) := by
    intro n hn at'
    simp only [List.mem_cons, List.not_mem_nil, or_false] at hn
    rcases hn with rfl | rfl
      <;> refine (@read_cd_bytes (frames_at at') (combined_read _) .opened (by decide)).trans ?_ <;>
      simp [read_cd_transfer, read_cd_shape, bounce_grow, round16, read_cd_once, rounding_suspect,
        adsc_exec_check_short, adsc_resid_clamp, ReadCdCall.exact, ReadCdCmd.resid,
          MmcDev.opened, frames_at,
        combined_read, bounced, UINT32_MAX, ACCUDISC_OK, ACCUDISC_ERR_IO, ACCUDISC_ERR_SENSE]
  constructor
  · have h := read_cd_order (by decide) (by decide) (hb 1 (by decide) [2362])
    refine ⟨_, _, _, hb 1 (by decide) [2362], by decide +kernel, ?_, ?_,
      h.2.2 (by decide +kernel) (by decide +kernel)⟩
    · exact (h.1 true (by decide +kernel) (by decide +kernel) (by decide +kernel)).1
    · exact (h.1 true (by decide +kernel) (by decide +kernel) (by decide +kernel)).2
  · have h := (read_cd_order (by decide) (by decide) (hb 4 (by decide) [5026, 7690, 10354])).2.1 2
      true (by decide)
      (by decide) (by decide +kernel) (by decide +kernel) (by decide +kernel)
    exact ⟨_, _, _, hb 4 (by decide) [5026, 7690, 10354], by decide +kernel, h.1, h.2⟩

end Accudisc
