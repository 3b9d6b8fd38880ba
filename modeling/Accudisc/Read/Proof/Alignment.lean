import Accudisc.Read.Proof.Cdda
import Accudisc.Read.Proof.Shift

/-!
# What a corroborated copy says of its alignment

A neighbour that byte-matches another transfer's copy fixes the displacement between the two transfers
up to half a sector (`corroboration_aligns`), unless the sector is flat at its centre without being
constant: `adsc_shift_find` then gives no verdict, and `alignment_signal` reads that as a signal.
-/

namespace Accudisc

/-- An audio stream, by byte. -/
abbrev Stream := Int → BitVec 8

/-- Sector `m` of a stream that is read `d` samples on. -/
def window (D : Stream) (m : Nat) (d : Int) : Mem := fun i => D (2352 * m + 4 * d + i)

/-- A sector equals itself `d` samples on, on the whole overlap. -/
def SelfShift (a : Mem) (d : Int) : Prop :=
  ∀ i j : Nat, i < 2352 → j < 2352 → (j : Int) = i + 4 * d → a i = a j

/-- Not constant, but constant on the 64 bytes at its centre. -/
def Flat (a : Mem) : Prop := (∃ i < 2352, a i ≠ a 0) ∧ ∀ i < 64, a (1176 + i) = a 1176

/-- The stream is the same `d` samples on, over a sector. -/
def Repeats (D : Stream) (m : Nat) (d₀ d : Int) : Prop :=
  ∀ i < 2352, window D m (d₀ + d) i = window D m d₀ i

/-! ## The law -/

variable {a b : Mem} {d : Int}

theorem SelfShift.neg (h : SelfShift a d) : SelfShift a (-d) := fun i j hi hj hij =>
  (h j i hj hi (by omega)).symm

theorem near_neg (h : Near d) : Near (-d) := ⟨fun h0 => h.1 (by omega), by rw [Int.natAbs_neg]; exact h.2⟩

theorem SelfShift.overlap (h : SelfShift a d) : SameOverlap a a d := fun _ _ =>
  h _ _ (by omega) (by omega) (by omega)

/-- A shift either way is one back, which is found where the centre tells. -/
theorem shift_find_self (hflat : ¬∀ i < 64, a (1176 + i) = a 1176) (hd : Near d) (hs : SelfShift a d) :
    adsc_shift_find a a ≠ none := by
  obtain ⟨e, he, hneg, hse⟩ : ∃ e, Near e ∧ e < 0 ∧ SelfShift a e := by
    rcases Int.lt_or_gt_of_ne hd.1 with h | h
    · exact ⟨d, hd, h, hs⟩
    · exact ⟨-d, near_neg hd, by omega, hs.neg⟩
  have hle := he.2
  rw [← Option.isSome_iff_ne_none, shift_find_isSome hflat]
  exact ⟨e, ⟨he.1, by omega, by omega⟩, hse.overlap⟩

theorem signal_not_constant (h : alignment_signal a = true) : ∃ i < 2352, a i ≠ a 0 := by
  unfold alignment_signal at h
  by_contra hc
  push Not at hc
  rw [if_pos (by simpa [List.all_eq_true] using hc)] at h
  cases h

/-- A flat sector has a signal, whatever it repeats. -/
theorem Flat.signal (h : Flat a) : alignment_signal a = true := by
  obtain ⟨⟨i, hi, hne⟩, hflat⟩ := h
  unfold alignment_signal adsc_shift_find
  rw [if_neg (by simp only [List.all_eq_true, List.mem_range, beq_iff_eq]; exact fun h => hne (h i hi))]
  simp only [anchor_flat.2 hflat, Bool.not_false, if_true, Option.isNone_none]

/-- **The law**: a sector with a signal does not repeat itself within half a sector, unless it is flat. -/
theorem alignment_signal_law :
    (alignment_signal a = true → ∀ d, Near d → ¬SelfShift a d) ↔ ∀ d, Near d → SelfShift a d → ¬Flat a := by
  constructor
  · exact fun h d hd hs hf => h hf.signal d hd hs
  · intro h hsig d hd hs
    have hflat : ¬∀ i < 64, a (1176 + i) = a 1176 := fun hc => h d hd hs ⟨signal_not_constant hsig, hc⟩
    have hne := shift_find_self hflat hd hs
    unfold alignment_signal at hsig
    split at hsig
    · cases hsig
    · rw [Option.isNone_iff_eq_none] at hsig
      exact hne hsig

/-- What two displaced copies of a sector that are equal say of either. -/
theorem Repeats.selfShift {D : Stream} {m : Nat} {d₀ : Int} (h : Repeats D m d₀ d) :
    SelfShift (window D m d₀) d := fun i j hi _ hij => by
  have := h i hi
  unfold window at this ⊢
  rw [← this]
  exact congrArg D (by omega)

/-! ## Context reads -/

/-- The reference holds a good copy of sector `m`. -/
def Ref.Has (ref : Ref) (m : Nat) (data : Mem) : Prop :=
  ref.data = some data ∧ ref.lba ≤ m ∧ m - ref.lba < ref.n ∧ ref.hard (m - ref.lba) = false

/-- Record `k` of a context read at `w0` is a neighbour that a reference certifies. -/
def Certified (c : Cfg) (ctx : Mem) (w0 target : Nat) (refs : List Ref) (k : Nat) (ref : Ref) : Prop :=
  k < ADSC_ANCHOR_SPAN ∧ u32 (w0 + k) ≠ target ∧ ref ∈ refs ∧ ref_match c ctx k (u32 (w0 + k)) ref = true

/-- `corroborated` is that there is such a neighbour. -/
theorem corroborated_iff {c : Cfg} {ctx : Mem} {w0 target : Nat} {refs : List Ref} :
    corroborated c ctx w0 target refs = true ↔ ∃ k ref, Certified c ctx w0 target refs k ref := by
  simp only [corroborated, List.any_eq_true, List.mem_range, Bool.and_eq_true, bne_iff_ne, Certified]
  constructor
  · rintro ⟨k, hk, hne, ref, hr, hm⟩
    exact ⟨k, ref, hk, hne, hr, hm⟩
  · rintro ⟨k, ref, hk, hne, hr, hm⟩
    exact ⟨k, hk, hne, ref, hr, hm⟩

theorem ref_match_iff {c : Cfg} {ctx : Mem} {k m : Nat} {ref : Ref} :
    ref_match c ctx k m ref = true ↔ ∃ data, ref.Has m data ∧
      (∀ i < 2352, ctx (k * c.sector_len + i) = data ((m - ref.lba) * c.sector_len + i)) ∧
      alignment_signal (ptr data ((m - ref.lba) * c.sector_len)) = true := by
  unfold ref_match Ref.Has
  cases hd : ref.data with
  | none => simp
  | some data =>
    simp only [Option.some.injEq]
    split
    · rename_i hcond
      constructor
      · exact nofun
      · rintro ⟨_, ⟨rfl, h1, h2, h3⟩, -⟩
        simp only [h3, Bool.false_eq_true, or_false] at hcond
        omega
    · rename_i hcond
      simp only [not_or, Nat.not_lt, Nat.not_le, Bool.not_eq_true] at hcond
      rw [Bool.and_eq_true, beq_iff_eq, adsc_audio_diff_eq_zero]
      constructor
      · exact fun h => ⟨data, ⟨rfl, hcond⟩, h.1, h.2⟩
      · rintro ⟨_, ⟨rfl, -⟩, h⟩
        exact h

/-- A transfer delivers the stream, each sector displaced by `d` samples. -/
def Transfer.Displaced (t : Transfer) (D : Stream) (d : Int) : Prop :=
  ∀ k < t.nsec, ∀ i < 2352, record t.sector_len t.data k i = window D (u32 (t.lba + k)) d i

section
variable {c : Cfg} {ctx : Mem} {w0 target : Nat} {refs : List Ref} {D : Stream} {δ : Int} {δs : Ref → Int}

/-- A context read is never certified by a reference that is displaced from it by less than half a
sector, exactly where no such neighbour is flat and repeats over the displacement. -/
theorem certified_near
    (hctx : ∀ k < ADSC_ANCHOR_SPAN, ∀ i < 2352,
      ctx (k * c.sector_len + i) = window D (u32 (w0 + k)) δ i)
    (hrefs : ∀ ref ∈ refs, ∀ m data, ref.Has m data →
      ∀ i < 2352, data ((m - ref.lba) * c.sector_len + i) = window D m (δs ref) i) :
    (∀ k ref, Certified c ctx w0 target refs k ref → ¬Near (δ - δs ref)) ↔
      ∀ k < ADSC_ANCHOR_SPAN, u32 (w0 + k) ≠ target → ∀ ref ∈ refs, (∃ data, ref.Has (u32 (w0 + k)) data) →
        Near (δ - δs ref) → Repeats D (u32 (w0 + k)) (δs ref) (δ - δs ref) →
          ¬Flat (window D (u32 (w0 + k)) (δs ref)) := by
  have hsum : ∀ ref, δs ref + (δ - δs ref) = δ := fun ref => by omega
  constructor
  · rintro h k hk hne ref hr ⟨data, hhas⟩ hnear hrep hflat
    refine h k ref ⟨hk, hne, hr, ref_match_iff.2 ⟨data, hhas, fun i hi => ?_, ?_⟩⟩ hnear
    · have := hrep i hi
      rw [hsum] at this
      rw [hctx k hk i hi, hrefs ref hr _ data hhas i hi, this]
    · have hsig : alignment_signal (ptr data ((u32 (w0 + k) - ref.lba) * c.sector_len)) =
          alignment_signal (window D (u32 (w0 + k)) (δs ref)) :=
        alignment_signal_congr fun i hi => hrefs ref hr _ data hhas i hi
      exact hsig.trans hflat.signal
  · rintro h k ref ⟨hk, hne, hr, hm⟩ hnear
    obtain ⟨data, hhas, heq, hsig⟩ := ref_match_iff.1 hm
    have hrep : Repeats D (u32 (w0 + k)) (δs ref) (δ - δs ref) := fun i hi => by
      rw [hsum, ← hctx k hk i hi, heq i hi, hrefs ref hr _ data hhas i hi]
    have hwin : alignment_signal (ptr data ((u32 (w0 + k) - ref.lba) * c.sector_len)) =
        alignment_signal (window D (u32 (w0 + k)) (δs ref)) :=
      alignment_signal_congr fun i hi => hrefs ref hr _ data hhas i hi
    exact (alignment_signal_law.2 fun d _ _ hf =>
      h k hk hne ref hr ⟨data, hhas⟩ hnear hrep hf) (hwin.symm.trans hsig) _ hnear hrep.selfShift

end

/-! ## Accepted copies -/

/-- Among the good transfers of a log, no neighbour of `lba` that two of them share is flat and repeats
over the displacement between the two. -/
def Told (D : Stream) (δ : Transfer → Int) (L : Nat) (log : List ReadEvent) (lba : Nat) : Prop :=
  ∀ t t', .transfer t ∈ log → .transfer t' ∈ log → t.Good L → t'.Good L →
    ∀ k < t.nsec, u32 (t.lba + k) ≠ lba →
    ∀ k' < t'.nsec, u32 (t'.lba + k') = u32 (t.lba + k) → Near (δ t - δ t') →
      Repeats D (u32 (t.lba + k)) (δ t') (δ t - δ t') → ¬Flat (window D (u32 (t.lba + k)) (δ t'))

/-- A neighbour of `lba` in `t` is a chunk transfer's copy of it, and the two are not displaced by less
than half a sector. -/
def LinedUp (δ : Transfer → Int) (L : Nat) (log : List ReadEvent) (t : Transfer) (lba : Nat) : Prop :=
  ∃ t', .transfer t' ∈ log ∧ t'.Good L ∧ t'.stage.Chunk ∧ ¬Near (δ t - δ t') ∧
    ∃ k < t.nsec, u32 (t.lba + k) ≠ lba ∧ ∃ y, t'.Holds (u32 (t.lba + k)) y ∧
      adsc_audio_diff (record L t.data k) y = 0

section
variable {L lba : Nat} {log log' : List ReadEvent} {t : Transfer} {D : Stream} {δ : Transfer → Int}

theorem Corroborated.linedUp (h : Corroborated L log t lba) (ht : .transfer t ∈ log) (hg : t.Good L)
    (hD : ∀ t, .transfer t ∈ log → t.Good L → t.Displaced D (δ t)) (htold : Told D δ L log lba) :
    LinedUp δ L log t lba := by
  obtain ⟨k, hk, hne, y, ⟨t', ht', hg', hst, k', hk', hm, rfl⟩, hdiff, hsig⟩ := h
  refine ⟨t', ht', hg', hst, fun hnear => ?_, k, hk, hne, _, ⟨k', hk', hm, rfl⟩, hdiff⟩
  have hx : ∀ i < 2352, record L t.data k i = window D (u32 (t.lba + k)) (δ t) i := by
    have := hD t ht hg k hk
    rwa [hg.len] at this
  have hy : ∀ i < 2352, record t'.sector_len t'.data k' i = window D (u32 (t.lba + k)) (δ t') i := by
    have := hD t' ht' hg' k' hk'
    rwa [hm] at this
  have hrep : Repeats D (u32 (t.lba + k)) (δ t') (δ t - δ t') := fun i hi => by
    rw [show δ t' + (δ t - δ t') = δ t by omega, ← hx i hi, ← hy i hi]
    exact adsc_audio_diff_eq_zero.1 hdiff i hi
  rw [alignment_signal_congr hy] at hsig
  exact (alignment_signal_law.2 fun d _ _ hf =>
    htold t t' ht ht' hg hg' k hk hne k' hk' hm hnear hrep hf) hsig _ hnear hrep.selfShift

end

/-- **Corroboration and alignment**: the law of `alignment_signal`; when a context read is certified by a
reference displaced from it by less than half a sector; and what the copies that the position anchor
and the C2 rescue accept line up with. -/
theorem corroboration_aligns (D : Stream) :
    (∀ a, (alignment_signal a = true → ∀ d, Near d → ¬SelfShift a d) ↔
      ∀ d, Near d → SelfShift a d → ¬Flat a) ∧
    (∀ (c : Cfg) (ctx : Mem) (w0 target : Nat) (refs : List Ref) (δ : Int) (δs : Ref → Int),
      (∀ k < ADSC_ANCHOR_SPAN, ∀ i < 2352, ctx (k * c.sector_len + i) = window D (u32 (w0 + k)) δ i) →
      (∀ ref ∈ refs, ∀ m data, ref.Has m data →
        ∀ i < 2352, data ((m - ref.lba) * c.sector_len + i) = window D m (δs ref) i) →
      ((∀ k ref, Certified c ctx w0 target refs k ref → ¬Near (δ - δs ref)) ↔
        ∀ k < ADSC_ANCHOR_SPAN, u32 (w0 + k) ≠ target →
          ∀ ref ∈ refs, (∃ data, ref.Has (u32 (w0 + k)) data) →
          Near (δ - δs ref) → Repeats D (u32 (w0 + k)) (δs ref) (δ - δs ref) →
            ¬Flat (window D (u32 (w0 + k)) (δs ref)))) ∧
    (∀ (c : Cfg) (r : Rd) (p : Pass) (lba s : Nat) (buf : Mem) (refs : List Ref) (used : Nat)
      (δ : Transfer → Int), lba < 2 ^ 32 → RefsOk c.sector_len r.log refs →
      ∀ x, anchor_position c p r lba buf (s * c.sector_len) refs used = x → x.ok = true →
      (∀ t, .transfer t ∈ x.r.log → t.Good c.sector_len → t.Displaced D (δ t)) →
      Told D δ c.sector_len x.r.log lba →
      ∃ t, .transfer t ∈ x.r.log ∧ t.Good c.sector_len ∧ t.stage = .anchor p ∧
        t.Holds lba (record c.sector_len x.buf s) ∧ LinedUp δ c.sector_len x.r.log t lba) ∧
    (∀ (c : Cfg) (r : Rd) (lba s bits : Nat) (buf : Mem) (refs : List Ref) (δ : Transfer → Int),
      lba < 2 ^ 32 → RefsOk c.sector_len r.log refs →
      ∀ x, c2_rescue c r lba buf (s * c.sector_len) bits refs = x →
      record c.sector_len x.buf s ≠ record c.sector_len buf s →
      (∀ t, .transfer t ∈ x.r.log → t.Good c.sector_len → t.Displaced D (δ t)) →
      Told D δ c.sector_len x.r.log lba →
      ∃ t, .transfer t ∈ x.r.log ∧ t.Good c.sector_len ∧ t.stage = .c2 ∧
        t.Holds lba (record c.sector_len x.buf s) ∧ LinedUp δ c.sector_len x.r.log t lba) := by
  refine ⟨fun a => alignment_signal_law, fun c ctx w0 target refs δ δs => certified_near, ?_, ?_⟩
  · rintro c r p lba s buf refs used δ hlba hrefs x rfl hok hD htold
    obtain ⟨-, -, -, hanchored⟩ :=
      (anchor_position_spec (c := c) (s := s) buf p hlba used hrefs).accepted hok
    obtain ⟨t, t', hsub, ⟨hg, hst, hc, hh⟩, -⟩ := hanchored p rfl
    have ht : ReadEvent.transfer t ∈ (anchor_position c p r lba buf (s * c.sector_len) refs used).r.log :=
      hsub.subset (List.mem_cons_self ..)
    exact ⟨t, ht, hg, hst, hh, hc.linedUp ht hg hD htold⟩
  · rintro c r lba s bits buf refs δ hlba hrefs x rfl hne hD htold
    obtain ⟨-, ⟨t, ht, hg, hst, hc, hh⟩, -⟩ :=
      (@c2_rescue_spec c r lba s buf refs hlba bits hrefs).result.resolve_left fun h => hne h.1
    exact ⟨t, ht, hg, hst, hh, hc.linedUp ht hg hD htold⟩

/-- A stream of clicks, 100 samples apart. -/
def clicks : Stream := fun x => if x % 400 = 100 then 1 else 0

theorem clicks_repeat (x : Int) : clicks (x + 400) = clicks x := by
  unfold clicks
  rw [Int.add_emod_right]

/-- Its first sector is flat. -/
theorem clicks_flat : Flat (window clicks 0 0) := by
  refine ⟨⟨100, by decide, by decide⟩, fun i hi => ?_⟩
  have hzero : ∀ j : Nat, 1176 ≤ j → j < 1240 → window clicks 0 0 j = 0 := fun j h1 h2 => by
    unfold window clicks
    rw [if_neg (by omega)]
  rw [hzero _ (by omega) (by omega), hzero _ (by omega) (by omega)]

/-- Two transfers 100 samples apart: the copy of sector 0 in one corroborates a read of the other. -/
theorem corroborated_displaced : ∃ (c : Cfg) (ctx : Mem) (ref : Ref) (data : Mem),
    (∀ k < ADSC_ANCHOR_SPAN, ∀ i < 2352, ctx (k * c.sector_len + i) = window clicks (u32 (0 + k)) 100 i) ∧
    ref.Has 0 data ∧ (∀ i < 2352, data i = window clicks 0 0 i) ∧
    alignment_signal data = true ∧ SelfShift data 100 ∧ corroborated c ctx 0 1 [ref] = true := by
  let c := read_setup (answering fun _ _ => 0) (one_sector 0 0)
  have hL : c.sector_len = 2352 := rfl
  have hrep : Repeats clicks 0 0 100 := fun i _ => by
    have := clicks_repeat (2352 * (0 : Nat) + 4 * 0 + i)
    unfold window
    rw [← this]
    exact congrArg clicks (by omega)
  refine ⟨c, fun a => window clicks (a / 2352) 100 (a % 2352),
    ⟨0, 1, some (window clicks 0 0), fun _ => false⟩,
    window clicks 0 0, fun k hk i hi => ?_, ⟨rfl, by decide, by decide, rfl⟩, fun _ _ => rfl,
    clicks_flat.signal, hrep.selfShift, ?_⟩
  · rw [hL, Nat.zero_add]
    have hk' : k < 3 := hk
    show window clicks ((k * 2352 + i) / 2352) 100 ((k * 2352 + i) % 2352) = window clicks (u32 k) 100 i
    rw [show (k * 2352 + i) / 2352 = k by omega, show (k * 2352 + i) % 2352 = i by omega,
      u32_of_lt (by omega)]
  · refine corroborated_iff.2 ⟨0, _, by decide, by decide, List.mem_singleton.2 rfl, ref_match_iff.2
      ⟨_, ⟨rfl, by decide, by decide, rfl⟩, fun i hi => ?_, ?_⟩⟩
    · show window clicks ((0 * c.sector_len + i) / 2352) 100 ((0 * c.sector_len + i) % 2352) =
        window clicks 0 0 (0 * c.sector_len + i)
      rw [Nat.zero_mul, Nat.zero_add, Nat.div_eq_of_lt hi, Nat.mod_eq_of_lt hi]
      exact hrep i hi
    · rw [show (u32 (0 + 0) - 0) * c.sector_len = 0 from Nat.zero_mul _, ptr_zero]
      exact clicks_flat.signal

end Accudisc
