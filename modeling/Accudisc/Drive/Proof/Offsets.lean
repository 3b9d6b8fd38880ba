import Accudisc.Drive.Proof.Inquiry
import Mathlib.Data.Finset.Card

/-!
# The verdict of the offset lookup

The answer is a function of the set of candidates: of their distinct offsets, and of the union of their
sources and of their flags. `Scanned` is what pass 2 keeps of the candidates it has seen.
-/

namespace Accudisc

/-- The rows of the product, narrowed by the vendor where it matches one of them, else without the
generic ones. -/
def offset_candidates (offsets : List OffsetEntry) (vendor product : Chars) : List OffsetEntry :=
  let rows := offsets.filter fun r => inquiry32 product = inquiry32 r.product
  let narrowed := rows.filter fun r => inquiry32 vendor = inquiry32 r.vendor
  if narrowed ≠ [] then narrowed else rows.filter fun r => r.flags &&& ACCUDISC_OFFSET_F_GENERIC = 0

/-- The distinct offsets. -/
def offset_values (C : List OffsetEntry) : Finset Int := (C.map (·.read_offset)).toFinset

/-- **The verdict** on the candidates. -/
structure OffsetVerdict (C : List OffsetEntry) (size : Nat) (rc : Int) (out : OffsetInfo) : Prop where
  notfound_iff : rc = ACCUDISC_ERR_NOTFOUND ↔ C = []
  ok_iff : rc = ACCUDISC_OK ↔ (offset_values C).card = 1
  ambiguous_iff : rc = ACCUDISC_ERR_AMBIGUOUS ↔ 2 ≤ (offset_values C).card
  answer : rc = ACCUDISC_OK → offset_values C = {out.read_offset}
  no_answer : rc ≠ ACCUDISC_OK → out.read_offset = ACCUDISC_OFFSET_NONE
  sources : ∀ i, out.sources.getLsbD i = C.any (·.sources.getLsbD i)
  flags : ∀ i, i ≠ 1 → out.flags.getLsbD i = C.any (·.flags.getLsbD i)
  truncated : out.flags.getLsbD 1 = true ↔ 4 < (offset_values C).card
  n_values : out.n_values = min 4 (offset_values C).card
  values : caller_has_values size = true → (out.values.map (·.1)).Nodup ∧ out.values.length = out.n_values ∧
    ∀ v ∈ out.values, v.1 ∈ offset_values C ∧
      ∀ i, v.2.getLsbD i = C.any fun r => r.read_offset = v.1 && r.sources.getLsbD i

/-- What a lookup answers, apart from the order of the values and the figures of the best row. -/
structure SameVerdict (a b : Int × OffsetInfo) : Prop where
  rc : a.1 = b.1
  read_offset : a.2.read_offset = b.2.read_offset
  sources : a.2.sources = b.2.sources
  flags : a.2.flags = b.2.flags
  n_values : a.2.n_values = b.2.n_values

/-- `d` is row `r` under another spelling, to the query the same. -/
structure SameRow (vendor product : Chars) (r d : OffsetEntry) : Prop where
  product : inquiry32 product = inquiry32 r.product ↔ inquiry32 product = inquiry32 d.product
  vendor : inquiry32 vendor = inquiry32 r.vendor ↔ inquiry32 vendor = inquiry32 d.vendor
  read_offset : d.read_offset = r.read_offset
  sources : d.sources = r.sources
  flags : d.flags = r.flags

variable {offsets offsets' C D : List OffsetEntry} {vendor product : Chars} {r d : OffsetEntry}
  {s : OffsetScan}
  {size : Nat} {rc rc' : Int} {out out' : OffsetInfo}

/-! ## Pass 2 -/

/-- What pass 2 keeps of the candidates `D` that it has seen. -/
structure Scanned (D : List OffsetEntry) (s : OffsetScan) : Prop where
  matched : s.matched = true ↔ D ≠ []
  best : s.best.isSome = true ↔ D ≠ []
  overflow : s.overflow = true ↔ 4 < (offset_values D).card
  sources : ∀ i, s.sources.getLsbD i = D.any (·.sources.getLsbD i)
  flags : ∀ i, s.flags.getLsbD i = D.any (·.flags.getLsbD i)
  nodup : (s.vals.map (·.1)).Nodup
  length : s.vals.length = min 4 (offset_values D).card
  held : ∀ v ∈ s.vals, v.1 ∈ offset_values D ∧
    ∀ i, v.2.getLsbD i = D.any fun r => r.read_offset = v.1 && r.sources.getLsbD i

theorem mem_offset_values {v : Int} : v ∈ offset_values C ↔ ∃ r ∈ C, r.read_offset = v := by
  simp [offset_values]

theorem offset_values_snoc (D : List OffsetEntry) (r : OffsetEntry) :
    offset_values (D ++ [r]) = insert r.read_offset (offset_values D) := by
  ext v
  simp [offset_values, eq_comm]

/-- What the list of values says of the rows `D`. -/
structure OffsetsHeld (D : List OffsetEntry) (vals : List (Int × BitVec 8)) : Prop where
  nodup : (vals.map (·.1)).Nodup
  length : vals.length = min 4 (offset_values D).card
  held : ∀ v ∈ vals, v.1 ∈ offset_values D ∧
    ∀ i, v.2.getLsbD i = D.any fun r => r.read_offset = v.1 && r.sources.getLsbD i

theorem Scanned.values (h : Scanned D s) : OffsetsHeld D s.vals := ⟨h.nodup, h.length, h.held⟩

section
variable {vals : List (Int × BitVec 8)}

/-- The values held are among the offsets. -/
theorem OffsetsHeld.subset (h : OffsetsHeld D vals) : (vals.map (·.1)).toFinset ⊆ offset_values D := by
  intro v hv
  obtain ⟨p, hp, rfl⟩ := List.mem_map.1 (List.mem_toFinset.1 hv)
  exact (h.held p hp).1

theorem OffsetsHeld.card (h : OffsetsHeld D vals) : (vals.map (·.1)).toFinset.card = vals.length := by
  rw [List.toFinset_card_of_nodup h.nodup, List.length_map]

/-- The sources of an offset that the next row does not hold. -/
theorem any_snoc_of_ne {v : Int} (hv : r.read_offset ≠ v) (D : List OffsetEntry) (i : Nat) :
    ((D ++ [r]).any fun r => r.read_offset = v && r.sources.getLsbD i) =
      D.any fun r => r.read_offset = v && r.sources.getLsbD i := by
  rw [List.any_append, List.any_cons, List.any_nil, decide_eq_false hv]
  simp

theorem any_snoc_of_eq {v : Int} (hv : r.read_offset = v) (D : List OffsetEntry) (i : Nat) :
    ((D ++ [r]).any fun r => r.read_offset = v && r.sources.getLsbD i) =
      ((D.any fun r => r.read_offset = v && r.sources.getLsbD i) || r.sources.getLsbD i) := by
  rw [List.any_append, List.any_cons, List.any_nil, decide_eq_true hv]
  simp

/-- The row's offset is held: its sources are added there. -/
theorem OffsetsHeld.again (h : OffsetsHeld D vals) (hmem : r.read_offset ∈ vals.map (·.1)) :
    offset_values (D ++ [r]) = offset_values D ∧
      OffsetsHeld (D ++ [r]) (vals.map fun v => if v.1 = r.read_offset then
        (v.1, v.2 ||| r.sources) else v) := by
  have hsame : offset_values (D ++ [r]) = offset_values D := by
    rw [offset_values_snoc, Finset.insert_eq_of_mem (h.subset (List.mem_toFinset.2 hmem))]
  have hfst : (vals.map fun v => if v.1 = r.read_offset then (v.1, v.2 ||| r.sources) else v).map (·.1) =
      vals.map (·.1) := by
    rw [List.map_map]
    refine List.map_congr_left fun v _ => ?_
    show (if v.1 = r.read_offset then (v.1, v.2 ||| r.sources) else v).1 = v.1
    split <;> rfl
  refine ⟨hsame, by rw [hfst]; exact h.nodup, by rw [List.length_map, hsame, h.length], fun v hv => ?_⟩
  obtain ⟨p, hp, rfl⟩ := List.mem_map.1 hv
  obtain ⟨h1, h2⟩ := h.held p hp
  rw [hsame]
  split
  · rename_i heq
    refine ⟨h1, fun i => ?_⟩
    show (p.2 ||| r.sources).getLsbD i = _
    rw [any_snoc_of_eq heq.symm, BitVec.getLsbD_or, h2 i]
  · rename_i hne
    exact ⟨h1, fun i => by rw [any_snoc_of_ne (Ne.symm hne), h2 i]⟩

/-- A value that is held before a row of another offset is held after it. -/
theorem OffsetsHeld.keep (h : OffsetsHeld D vals)
    (hnot : r.read_offset ∉ vals.map (·.1)) {v : Int × BitVec 8}
    (hv : v ∈ vals) : v.1 ∈ offset_values (D ++ [r]) ∧
      ∀ i, v.2.getLsbD i = (D ++ [r]).any fun r => r.read_offset = v.1 && r.sources.getLsbD i := by
  obtain ⟨h1, h2⟩ := h.held v hv
  refine ⟨by rw [offset_values_snoc]; exact Finset.mem_insert_of_mem h1, fun i => ?_⟩
  rw [any_snoc_of_ne fun heq => hnot (List.mem_map.2 ⟨v, hv, heq.symm⟩), h2 i]

/-- Room for the row's offset: every offset so far is held, so this one is new. -/
theorem OffsetsHeld.new (h : OffsetsHeld D vals) (hnot : r.read_offset ∉ vals.map (·.1))
    (hroom : vals.length < 4) :
    (offset_values (D ++ [r])).card = (offset_values D).card + 1 ∧
      OffsetsHeld (D ++ [r]) (vals ++ [(r.read_offset, r.sources)]) := by
  have hcard := h.card
  have hlen := h.length
  have hall : (vals.map (·.1)).toFinset = offset_values D :=
    Finset.eq_of_subset_of_card_le h.subset (by omega)
  have hfresh : r.read_offset ∉ offset_values D := by
    rw [← hall]
    exact fun hm => hnot (List.mem_toFinset.1 hm)
  have hnew : (offset_values (D ++ [r])).card = (offset_values D).card + 1 := by
    rw [offset_values_snoc, Finset.card_insert_of_notMem hfresh]
  refine ⟨hnew, ?_, ?_, fun v hv => ?_⟩
  · rw [List.map_append, List.nodup_append_comm]
    exact List.nodup_cons.2 ⟨hnot, h.nodup⟩
  · rw [List.length_append, List.length_singleton, hnew]
    omega
  rcases List.mem_append.1 hv with hv | hv
  · exact h.keep hnot hv
  · rw [List.mem_singleton.1 hv]
    refine ⟨by rw [offset_values_snoc]; exact Finset.mem_insert_self _ _, fun i => ?_⟩
    have hnone : (D.any fun d => d.read_offset = r.read_offset && d.sources.getLsbD i) = false := by
      rw [List.any_eq_false]
      intro d hd hdr
      rw [Bool.and_eq_true] at hdr
      exact hfresh (mem_offset_values.2 ⟨d, hd, of_decide_eq_true hdr.1⟩)
    show r.sources.getLsbD i = _
    rw [any_snoc_of_eq rfl, hnone, Bool.false_or]

/-- No room for it: this is a fifth offset at least. -/
theorem OffsetsHeld.full (h : OffsetsHeld D vals) (hnot : r.read_offset ∉ vals.map (·.1))
    (hroom : ¬vals.length < 4) :
    4 < (offset_values (D ++ [r])).card ∧ OffsetsHeld (D ++ [r]) vals := by
  have hcard := h.card
  have hlen := h.length
  have hfive : 4 < (offset_values (D ++ [r])).card := by
    have hsub : insert r.read_offset (vals.map (·.1)).toFinset ⊆ offset_values (D ++ [r]) := by
      rw [offset_values_snoc]
      exact Finset.insert_subset_insert _ h.subset
    have := Finset.card_le_card hsub
    rw [Finset.card_insert_of_notMem fun hm => hnot (List.mem_toFinset.1 hm)] at this
    omega
  exact ⟨hfive, h.nodup, by omega, fun v hv => h.keep hnot hv⟩

end

theorem offset_row_best (s : OffsetScan) (r : OffsetEntry) : (offset_row s r).best.isSome = true := by
  have hvals : ∀ s : OffsetScan, (offset_vals s r).best = s.best := fun s => by
    unfold offset_vals
    split
    · rfl
    · split <;> rfl
  unfold offset_row
  rw [hvals]
  dsimp only
  split
  · rfl
  · split <;> rfl

/-- **One more candidate.** -/
theorem Scanned.step (h : Scanned D s) (r : OffsetEntry) : Scanned (D ++ [r]) (offset_row s r) := by
  have hsources : ∀ i, (s.sources ||| r.sources).getLsbD i = (D ++ [r]).any (·.sources.getLsbD i) :=
    fun i => by
    rw [BitVec.getLsbD_or, h.sources i, List.any_append]
    simp
  have hflags : ∀ i, (s.flags ||| r.flags).getLsbD i = (D ++ [r]).any (·.flags.getLsbD i) := fun i => by
    rw [BitVec.getLsbD_or, h.flags i, List.any_append]
    simp
  have hne : D ++ [r] ≠ [] := by simp
  have hbest := offset_row_best s r
  unfold offset_row offset_vals at hbest ⊢
  simp only [] at hbest ⊢
  by_cases hany : (s.vals.any fun v => v.1 = r.read_offset) = true
  · rw [if_pos hany] at hbest ⊢
    obtain ⟨p, hp, hpr⟩ := List.any_eq_true.1 hany
    obtain ⟨hsame, hv⟩ := h.values.again (r := r) (List.mem_map.2 ⟨p, hp, of_decide_eq_true hpr⟩)
    exact ⟨by simp, iff_of_true hbest hne, by rw [hsame]; exact h.overflow, hsources, hflags, hv.nodup, hv.length, hv.held⟩
  rw [if_neg hany] at hbest ⊢
  have hnot : r.read_offset ∉ s.vals.map (·.1) := fun hm => by
    obtain ⟨p, hp, hpr⟩ := List.mem_map.1 hm
    exact hany (List.any_eq_true.2 ⟨p, hp, decide_eq_true hpr⟩)
  by_cases hroom : s.vals.length < ACCUDISC_OFFSET_MAX_VALUES
  · rw [if_pos hroom] at hbest ⊢
    obtain ⟨hnew, hv⟩ := h.values.new hnot hroom
    refine ⟨by simp, iff_of_true hbest hne, ?_, hsources, hflags, hv.nodup, hv.length, hv.held⟩
    show s.overflow = true ↔ _
    have hlen := h.length
    unfold ACCUDISC_OFFSET_MAX_VALUES at hroom
    rw [h.overflow, hnew]
    omega
  · rw [if_neg hroom] at hbest ⊢
    obtain ⟨hfive, hv⟩ := h.values.full hnot hroom
    exact ⟨by simp, iff_of_true hbest hne, by simp [hfive], hsources, hflags, hv.nodup, hv.length, hv.held⟩

/-- **The candidates scanned.** -/
theorem scanned_all (C : List OffsetEntry) : Scanned C (C.foldl offset_row {}) := by
  induction C using List.reverseRecOn with
  | nil =>
    exact ⟨by simp, by simp, by simp [offset_values], by simp, by simp,
      List.nodup_nil, by simp [offset_values], by simp⟩
  | append_singleton D r ih =>
    rw [List.foldl_append]
    exact ih.step r

/-! ## The answer -/

theorem offset_values_card_eq_zero : (offset_values C).card = 0 ↔ C = [] := by
  rw [Finset.card_eq_zero, offset_values, List.toFinset_eq_empty_iff, List.map_eq_nil_iff]

/-- The scan's candidates are those of the query. -/
theorem offset_candidates_eq : offset_candidates offsets vendor product =
    offsets.filter (offset_candidate vendor product (offset_vendor_hit vendor product offsets)) := by
  unfold offset_candidates
  simp only []
  cases hhit : offset_vendor_hit vendor product offsets with
  | true =>
    rw [if_pos, List.filter_filter]
    · refine List.filter_congr fun r _ => ?_
      simp [offset_candidate, Bool.and_comm]
    · obtain ⟨r, hr, hm⟩ := List.any_eq_true.1 hhit
      have hm := of_decide_eq_true hm
      refine List.ne_nil_of_mem
        (List.mem_filter.2 ⟨List.mem_filter.2 ⟨hr, decide_eq_true hm.1⟩, decide_eq_true hm.2⟩)
  | false =>
    rw [if_neg, List.filter_filter]
    · refine List.filter_congr fun r _ => ?_
      simp [offset_candidate, Bool.and_comm]
    · intro hne
      obtain ⟨r, hr⟩ := List.exists_mem_of_ne_nil _ hne
      obtain ⟨hr, hv⟩ := List.mem_filter.1 hr
      obtain ⟨hr, hp⟩ := List.mem_filter.1 hr
      have := hhit.symm.trans (List.any_eq_true.2
        ⟨r, hr, decide_eq_true (And.intro (of_decide_eq_true hp) (of_decide_eq_true hv))⟩)
      exact absurd this Bool.false_ne_true

/-- No candidate says that the values are cut short. -/
theorem any_not_truncated (C : List OffsetEntry) : C.any (·.flags.getLsbD 1) = false := by
  rw [List.any_eq_false]
  intro r _
  rw [r.not_truncated]
  exact Bool.false_ne_true

/-- The flags filled in: those of the candidates, and one bit of the lookup's own. -/
theorem Scanned.answer_flags (h : Scanned C s) (i : Nat) :
    (if s.overflow then s.flags ||| ACCUDISC_OFFSET_F_TRUNCATED else s.flags).getLsbD i =
      (C.any (·.flags.getLsbD i) || (i = 1 && s.overflow)) := by
  cases s.overflow with
  | false => simp [h.flags i]
  | true =>
    have hbit : ACCUDISC_OFFSET_F_TRUNCATED.getLsbD i = decide (i = 1) := by
      rcases Nat.lt_or_ge i 8 with hi | hi
      · have : ∀ j < 8, ACCUDISC_OFFSET_F_TRUNCATED.getLsbD j = decide (j = 1) := by decide
        exact this i hi
      · rw [BitVec.getLsbD_of_ge _ _ hi, decide_eq_false (by omega)]
    simp [h.flags i, hbit]

/-- **What is filled in is the verdict.** -/
theorem offset_answer_verdict (h : Scanned C s) :
    OffsetVerdict C size (offset_answer size s).1 (offset_answer size s).2 := by
  have hzero := offset_values_card_eq_zero (C := C)
  have hlen := h.length
  have hover := h.overflow
  unfold offset_answer
  by_cases hm : s.matched = false
  · have hC : C = [] := by
      by_contra hne
      rw [h.matched.2 hne] at hm
      cases hm
    have hcard : (offset_values C).card = 0 := hzero.2 hC
    rw [if_pos hm]
    subst hC
    exact ⟨by simp, by simp [hcard]; decide, by simp [hcard]; decide,
      by intro h; exact absurd h (by decide), fun _ => rfl,
      by simp, by simp, by simp [hcard], by simp [hcard], fun _ => by simp⟩
  rw [if_neg hm]
  have hne : C ≠ [] := h.matched.1 (by simpa using hm)
  have hpos : (offset_values C).card ≠ 0 := fun h0 => hne (hzero.1 h0)
  have hsources := h.sources
  have hbits := h.answer_flags
  have hflags : ∀ i, i ≠ 1 → (if s.overflow then s.flags ||| ACCUDISC_OFFSET_F_TRUNCATED
    else s.flags).getLsbD i =
      C.any (·.flags.getLsbD i) := fun i hi => by rw [hbits, decide_eq_false hi]; simp
  have htrunc : (if s.overflow then s.flags ||| ACCUDISC_OFFSET_F_TRUNCATED else s.flags).getLsbD 1 = true ↔
      4 < (offset_values C).card := by
    rw [hbits, any_not_truncated]
    simpa using hover
  have hvalues : caller_has_values size = true →
      ((if caller_has_values size then s.vals else []).map (·.1)).Nodup ∧
        (if caller_has_values size then s.vals else []).length = s.vals.length ∧
        ∀ v ∈ (if caller_has_values size then s.vals else []), v.1 ∈ offset_values C ∧
          ∀ i, v.2.getLsbD i = C.any fun r => r.read_offset = v.1 && r.sources.getLsbD i := fun hc => by
    rw [if_pos hc]
    exact ⟨h.nodup, rfl, h.held⟩
  simp only []
  split
  · -- the candidates disagree
    rename_i hmany
    refine ⟨?_, ?_, ?_, ?_, fun _ => rfl, hsources, hflags, htrunc, hlen, hvalues⟩
    · exact iff_of_false (show ¬ACCUDISC_ERR_AMBIGUOUS = ACCUDISC_ERR_NOTFOUND by decide) hne
    · exact iff_of_false (show ¬ACCUDISC_ERR_AMBIGUOUS = ACCUDISC_OK by decide) (by omega)
    · exact iff_of_true rfl (by omega)
    · exact fun hok => absurd hok (show ¬ACCUDISC_ERR_AMBIGUOUS = ACCUDISC_OK by decide)
  · rename_i hone
    have hcard : (offset_values C).card = 1 := by omega
    obtain ⟨b, hb⟩ := Option.isSome_iff_exists.1 (h.best.2 hne)
    have hvlen : s.vals.length = 1 := by omega
    obtain ⟨v, hv⟩ := List.length_eq_one_iff.1 hvlen
    rw [hb, show s.vals.head? = some v by rw [hv]; rfl]
    refine ⟨?_, ?_, ?_, ?_, ?_, hsources, hflags, htrunc, hlen, hvalues⟩
    · exact iff_of_false (show ¬ACCUDISC_OK = ACCUDISC_ERR_NOTFOUND by decide) hne
    · exact iff_of_true rfl hcard
    · exact iff_of_false (show ¬ACCUDISC_OK = ACCUDISC_ERR_AMBIGUOUS by decide) (by omega)
    · intro _
      obtain ⟨x, hx⟩ := Finset.card_eq_one.1 hcard
      have hmem := (h.held v (by rw [hv]; exact List.mem_singleton_self v)).1
      rw [hx] at hmem ⊢
      show {x} = {v.1}
      rw [Finset.mem_singleton.1 hmem]
    · exact fun hno => absurd rfl hno

/-! ## What it does not depend on -/

/-- The same data in both lists. -/
def SameData (C D : List OffsetEntry) : Prop :=
  (∀ r ∈ C, ∃ d ∈ D, d.read_offset = r.read_offset ∧ d.sources = r.sources ∧ d.flags = r.flags) ∧
  ∀ d ∈ D, ∃ r ∈ C, r.read_offset = d.read_offset ∧ r.sources = d.sources ∧ r.flags = d.flags

theorem SameData.symm (h : SameData C D) : SameData D C := ⟨h.2, h.1⟩

theorem SameData.values (h : SameData C D) : offset_values C = offset_values D := by
  ext v
  rw [mem_offset_values, mem_offset_values]
  constructor
  · rintro ⟨r, hr, rfl⟩
    obtain ⟨d, hd, h1, _⟩ := h.1 r hr
    exact ⟨d, hd, h1⟩
  · rintro ⟨d, hd, rfl⟩
    obtain ⟨r, hr, h1, _⟩ := h.2 d hd
    exact ⟨r, hr, h1⟩

theorem SameData.any_imp (h : SameData C D) {f : OffsetEntry → Bool}
    (hf : ∀ r d : OffsetEntry, d.sources = r.sources →
    d.flags = r.flags → f d = f r) (hC : C.any f = true) : D.any f = true := by
  obtain ⟨r, hr, hfr⟩ := List.any_eq_true.1 hC
  obtain ⟨d, hd, _, h2, h3⟩ := h.1 r hr
  exact List.any_eq_true.2 ⟨d, hd, (hf r d h2 h3).trans hfr⟩

theorem SameData.any (h : SameData C D) {f : OffsetEntry → Bool}
    (hf : ∀ r d : OffsetEntry, d.sources = r.sources →
    d.flags = r.flags → f d = f r) : C.any f = D.any f :=
  Bool.eq_iff_iff.2 ⟨h.any_imp hf, h.symm.any_imp hf⟩

/-- The code follows the number of distinct offsets. -/
theorem OffsetVerdict.rc_eq (h : OffsetVerdict C size rc out) : rc =
    if (offset_values C).card = 0 then ACCUDISC_ERR_NOTFOUND
    else if (offset_values C).card = 1 then ACCUDISC_OK else ACCUDISC_ERR_AMBIGUOUS := by
  split
  · rename_i h0
    exact h.notfound_iff.2 (offset_values_card_eq_zero.1 h0)
  split
  · rename_i h1
    exact h.ok_iff.2 h1
  · exact h.ambiguous_iff.2 (by omega)

/-- **Verdicts on the same data are the same.** -/
theorem OffsetVerdict.same (h : OffsetVerdict C size rc out) (h' : OffsetVerdict D size rc' out')
    (hCD : SameData C D) :
    SameVerdict (rc, out) (rc', out') := by
  have hv := hCD.values
  have hrc : rc = rc' := by rw [h.rc_eq, h'.rc_eq, hv]
  refine ⟨hrc, ?_, ?_, ?_, ?_⟩
  · by_cases hok : rc = ACCUDISC_OK
    · have h1 := h.answer hok
      rw [hv, h'.answer (hrc ▸ hok)] at h1
      exact (Finset.singleton_injective h1).symm
    · exact (h.no_answer hok).trans (h'.no_answer (hrc ▸ hok)).symm
  · refine BitVec.eq_of_getLsbD_eq fun i _ => ?_
    show out.sources.getLsbD i = out'.sources.getLsbD i
    rw [h.sources, h'.sources]
    exact hCD.any fun r d hs _ => by rw [hs]
  · refine BitVec.eq_of_getLsbD_eq fun i _ => ?_
    show out.flags.getLsbD i = out'.flags.getLsbD i
    by_cases hi : i = 1
    · rw [hi]
      exact Bool.eq_iff_iff.2 (h.truncated.trans ((by rw [hv]) : _ ↔ _) |>.trans h'.truncated.symm)
    · rw [h.flags i hi, h'.flags i hi]
      exact hCD.any fun r d _ hf => by rw [hf]
  · show out.n_values = out'.n_values
    rw [h.n_values, h'.n_values, hv]

theorem SameData.of_perm (h : C.Perm D) : SameData C D :=
  ⟨fun r hr => ⟨r, h.mem_iff.1 hr, rfl, rfl, rfl⟩, fun d hd => ⟨d, h.mem_iff.2 hd, rfl, rfl, rfl⟩⟩

/-- The order of the table does not choose the candidates. -/
theorem offset_candidates_perm (h : offsets.Perm offsets') :
    (offset_candidates offsets vendor product).Perm (offset_candidates offsets' vendor product) := by
  have hrows := h.filter fun r => inquiry32 product = inquiry32 r.product
  have hnarrow := hrows.filter fun r => inquiry32 vendor = inquiry32 r.vendor
  unfold offset_candidates
  simp only []
  by_cases hne : (offsets.filter fun r => inquiry32 product = inquiry32 r.product).filter
      (fun r => inquiry32 vendor = inquiry32 r.vendor) ≠ []
  · rw [if_pos hne, if_pos fun h0 => hne (h0 ▸ hnarrow).eq_nil]
    exact hnarrow
  · have hnil := not_not.1 hne
    rw [if_neg hne, if_neg fun hne' => hne' (hnil ▸ hnarrow).symm.eq_nil]
    exact hrows.filter _

/-- Another spelling of a candidate is a candidate. -/
theorem offset_candidates_spelling (hr : r ∈ offset_candidates offsets vendor product)
    (hd : SameRow vendor product r d) :
    offset_candidates (d :: offsets) vendor product = d :: offset_candidates offsets vendor product := by
  unfold offset_candidates at hr ⊢
  simp only [] at hr ⊢
  by_cases hne : (offsets.filter fun r => inquiry32 product = inquiry32 r.product).filter
      (fun r => inquiry32 vendor = inquiry32 r.vendor) ≠ []
  · rw [if_pos hne] at hr ⊢
    obtain ⟨hr, hv⟩ := List.mem_filter.1 hr
    have hp := of_decide_eq_true (List.mem_filter.1 hr).2
    rw [List.filter_cons_of_pos (by simpa using hd.product.1 hp),
      List.filter_cons_of_pos (by simpa using hd.vendor.1 (of_decide_eq_true hv)),
        if_pos (List.cons_ne_nil _ _)]
  · rw [if_neg hne] at hr ⊢
    have hnil := not_not.1 hne
    obtain ⟨hr, hg⟩ := List.mem_filter.1 hr
    have hp := of_decide_eq_true (List.mem_filter.1 hr).2
    have hv : ¬inquiry32 vendor = inquiry32 r.vendor := fun hv => by
      have hmem : r ∈ (offsets.filter fun r => inquiry32 product = inquiry32 r.product).filter
        (fun r => inquiry32 vendor = inquiry32 r.vendor) := List.mem_filter.2 ⟨hr, decide_eq_true hv⟩
      rw [hnil] at hmem
      cases hmem
    rw [List.filter_cons_of_pos (by simpa using hd.product.1 hp),
      List.filter_cons_of_neg (by simpa using fun h => hv (hd.vendor.2 h)), if_neg hne,
      List.filter_cons_of_pos (by rw [hd.flags]; exact hg)]

/-! ## The lookup -/

/-- The lookup has an answer, the verdict on its candidates; no order of the table and no other spelling
of a candidate changes it. -/
def OffsetSound (offsets : List OffsetEntry) (vendor product : Chars) (size : Nat) : Prop :=
  ∃ a, accudisc_offset_for_inquiry offsets vendor product true size = some a ∧
    OffsetVerdict (offset_candidates offsets vendor product) size a.1 a.2 ∧
    (∀ offsets' a', offsets'.Perm offsets →
      accudisc_offset_for_inquiry offsets' vendor product true size = some a' → SameVerdict a a') ∧
    ∀ r ∈ offset_candidates offsets vendor product, ∀ d, SameRow vendor product r d → ∀ offsets' a',
      offsets'.Perm (d :: offsets) →
        accudisc_offset_for_inquiry offsets' vendor product true size = some a' →
      SameVerdict a a'

/-- What a lookup answers is the verdict on its candidates. -/
theorem offset_verdict {a : Int × OffsetInfo} (hp : inquiry32 product ≠ []) (h0 : 0 < size)
    (hs : size ≤ sizeof_offset_info)
      (h : accudisc_offset_for_inquiry offsets vendor product true size = some a) :
    OffsetVerdict (offset_candidates offsets vendor product) size a.1 a.2 := by
  unfold accudisc_offset_for_inquiry at h
  rw [if_neg (by simp), if_neg (by omega)] at h
  split at h
  · cases h
  · cases h
    have hscan := scanned_all (offset_candidates offsets vendor product)
    rw [offset_candidates_eq] at hscan
    rw [offset_candidates_eq]
    exact offset_answer_verdict hscan

/-- **The verdict of the lookup** stands exactly where its strings fit their buffers. -/
theorem accudisc_offset_for_inquiry_iff (hp : inquiry32 product ≠ []) (h0 : 0 < size)
    (hs : size ≤ sizeof_offset_info) :
    OffsetSound offsets vendor product size ↔ LookupFits offsets vendor product := by
  rw [← offset_in_buffers_iff]
  constructor
  · rintro ⟨a, ha, _⟩
    by_contra hno
    unfold accudisc_offset_for_inquiry at ha
    rw [if_neg (by simp), if_neg (by omega), if_pos (by simpa using hno)] at ha
    cases ha
  · intro hin
    have ha : accudisc_offset_for_inquiry offsets vendor product true size =
        some (offset_answer size (offset_scan offsets vendor product)) := by
      unfold accudisc_offset_for_inquiry
      rw [if_neg (by simp), if_neg (by omega), if_neg (by simp [hin]), if_neg hp]
    have hverdict := offset_verdict hp h0 hs ha
    refine ⟨_, ha, hverdict, fun offsets' a' hperm ha' => ?_, fun r hr d hd offsets' a' hperm ha' => ?_⟩
    · exact hverdict.same (offset_verdict hp h0 hs ha') (.of_perm (offset_candidates_perm hperm.symm))
    · refine hverdict.same (offset_verdict hp h0 hs ha') ?_
      have hcand := @offset_candidates_perm _ _ vendor product hperm
      rw [offset_candidates_spelling hr hd] at hcand
      refine ⟨fun x hx => ⟨x, hcand.mem_iff.2 (List.mem_cons_of_mem _ hx), rfl, rfl, rfl⟩, fun x hx => ?_⟩
      rcases List.mem_cons.1 (hcand.mem_iff.1 hx) with rfl | hx
      · exact ⟨r, hr, hd.read_offset.symm, hd.sources.symm, hd.flags.symm⟩
      · exact ⟨x, hx, rfl, rfl, rfl⟩

/-- Two rows of one product with two offsets. -/
def two_offsets : List OffsetEntry :=
  [{ vendor := [0x41], product := [0x50], read_offset := 30, sources := 1 },
    { vendor := [0x42], product := [0x70], read_offset := 48, sources := 2 }]

theorem accudisc_offset_for_inquiry_iff_two : OffsetSound two_offsets [] [SPACE, 0x70] sizeof_offset_info :=
  (accudisc_offset_for_inquiry_iff (by decide) (by decide) (by decide)).2
    ⟨by decide, by decide, fun _ => by decide, fun _ => by decide⟩

/-- A vendor of thirty letters, a space and a letter. -/
def long_vendor : Chars := List.replicate 30 0x41 ++ [SPACE, 0x41]

theorem long_vendor_unsound : ¬OffsetSound two_offsets long_vendor [0x50] sizeof_offset_info := by
  rintro ⟨a, ha, _⟩
  have hnone : accudisc_offset_for_inquiry two_offsets long_vendor
    [0x50] true sizeof_offset_info = none := by
    have hbuf : offset_in_buffers two_offsets long_vendor [0x50] = false := by decide +kernel
    unfold accudisc_offset_for_inquiry
    rw [hbuf]
    rfl
  rw [hnone] at ha
  cases ha

end Accudisc
