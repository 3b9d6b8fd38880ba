import Accudisc.Drive.Offsets
import Mathlib.Data.List.TakeWhile

/-!
# The normal form of INQUIRY strings

`inquiry_text` is the normal form: the words between the gaps in upper case, with one space between. A
turn of `normalize_loop` stores a pending space and the letter behind it where there is room for one of
them, so the loop stays in its buffer where the buffer's last place but one would not hold a space of the
normal form (`normalize_loop_eq`), and stores one byte too many otherwise.
-/

namespace Accudisc

def isgap (c : BitVec 8) : Bool := c = SPACE ∨ c = HTAB

/-- Two texts with a space between, where both have characters. -/
def glue (x y : Chars) : Chars := if y = [] then x else if x = [] then y else x ++ SPACE :: y

/-- **The normal form** of a string. -/
def inquiry_text (src : Chars) : Chars :=
  (((src.takeWhile (· ≠ 0)).splitOnP isgap).map (·.map toupper)).foldr glue []

/-- The string is normalised into its buffer: `cap` bytes at most, the first characters of the normal form
and a NUL, and the same again from the result. -/
structure Normalizes (src : Chars) (cap : Nat) : Prop where
  inside : (adsc_inquiry_normalize src cap).length ≤ cap
  text : adsc_inquiry_normalize src cap = (inquiry_text src).take (cap - 1) ++ [0]
  again : adsc_inquiry_normalize (adsc_inquiry_normalize src cap) cap = adsc_inquiry_normalize src cap

/-- The place of a buffer's last character is not for a space. -/
def InquiryFits (src : Chars) (cap : Nat) : Prop := (inquiry_text src)[cap - 2]? ≠ some SPACE

instance (src : Chars) (cap : Nat) : Decidable (InquiryFits src cap) := inferInstanceAs (Decidable (_ ≠ _))

variable {src dst x y z : Chars} {c : BitVec 8} {cap : Nat} {sp : Bool}

/-! ## Texts with gaps -/

@[simp] theorem glue_nil (x : Chars) : glue x [] = x := rfl

@[simp] theorem nil_glue (x : Chars) : glue [] x = x := by
  unfold glue
  by_cases h : x = [] <;> simp [h]

theorem glue_ne (hx : x ≠ []) (hy : y ≠ []) : glue x y = x ++ SPACE :: y := by
  unfold glue
  rw [if_neg hy, if_neg hx]

theorem glue_ne_nil (hx : x ≠ []) : glue x y ≠ [] := by
  unfold glue
  split
  · exact hx
  · simp [hx]

theorem append_glue (hy : y ≠ []) : glue (x ++ y) z = x ++ glue y z := by
  by_cases hz : z = []
  · rw [hz]
    rfl
  · rw [glue_ne (by simp [hy]) hz, glue_ne hy hz, List.append_assoc]

theorem glue_glue (hx : x ≠ []) (hy : y ≠ []) : glue x (glue y z) = x ++ SPACE :: glue y z :=
  glue_ne hx (glue_ne_nil hy)

/-! ## Letters -/

theorem toupper_toupper : ∀ c : BitVec 8, toupper (toupper c) = toupper c := by decide

theorem toupper_plain : ∀ c : BitVec 8, c ≠ 0 → isgap c = false → toupper c ≠ 0 ∧
    isgap (toupper c) = false := by decide

theorem isgap_false (h : isgap c = false) : ¬(c = SPACE ∨ c = HTAB) := by
  unfold isgap at h
  simpa using h

/-! ## The loop without a bound -/

/-- The loop with as much room as it needs. -/
def normalize_all : Chars → Chars → Bool → Chars
  | [], dst, _ => dst
  | c :: src, dst, in_space =>
    if c = 0 then dst
    else if isgap c then normalize_all src dst true
    else normalize_all src ((if in_space ∧ 0 < dst.length then dst ++ [SPACE] else dst) ++
      [toupper c]) false

theorem stored_eq (dst : Chars) (c : BitVec 8) :
    (if (true : Bool) ∧ 0 < dst.length then dst ++ [SPACE] else dst) ++ [c] = glue dst [c] := by
  by_cases h : dst = []
  · simp [h]
  · rw [glue_ne h (List.cons_ne_nil _ _), if_pos ⟨rfl, List.length_pos_of_ne_nil h⟩, List.append_assoc]
    rfl

/-- The words behind what is stored. -/
theorem normalize_all_words (src : Chars) :
    ∃ p ps, (src.takeWhile (· ≠ 0)).splitOnP isgap = p :: ps ∧ ∀ dst,
    normalize_all src dst true = glue dst (((p :: ps).map (·.map toupper)).foldr glue []) ∧
    (dst ≠ [] → normalize_all src dst false =
      glue (dst ++ p.map toupper) ((ps.map (·.map toupper)).foldr glue [])) := by
  induction src with
  | nil => exact ⟨[], [], rfl, fun dst => ⟨rfl, fun _ => by simp [normalize_all]⟩⟩
  | cons c src ih =>
    by_cases h0 : c = 0
    · refine ⟨[], [], by simp [h0], fun dst => ⟨?_, fun _ => ?_⟩⟩
      · rw [normalize_all, if_pos h0]
        rfl
      · rw [normalize_all, if_pos h0]
        simp
    obtain ⟨p, ps, hsplit, hall⟩ := ih
    rw [List.takeWhile_cons_of_pos (by simpa using h0)]
    by_cases hgap : isgap c = true
    · refine ⟨[], p :: ps, ?_, fun dst => ⟨?_, fun hd => ?_⟩⟩
      · rw [List.splitOnP_cons_eq_if_modifyHead, if_pos hgap, hsplit]
      · rw [normalize_all, if_neg h0, if_pos hgap, (hall dst).1]
        simp
      · rw [normalize_all, if_neg h0, if_pos hgap, (hall dst).1]
        simp
    · refine ⟨c :: p, ps, ?_, fun dst => ⟨?_, fun hd => ?_⟩⟩
      · rw [List.splitOnP_cons_eq_if_modifyHead, if_neg hgap, hsplit]
        rfl
      · rw [normalize_all, if_neg h0, if_neg hgap, stored_eq, (hall _).2 (by
          by_cases h : dst = []
          · simp [h]
          · exact glue_ne_nil h)]
        show _ = glue dst (glue (toupper c :: p.map toupper) _)
        by_cases h : dst = []
        · rw [h, nil_glue, nil_glue]
          rfl
        · rw [glue_glue h (List.cons_ne_nil _ _), glue_ne h (List.cons_ne_nil _ _), List.append_assoc,
            append_glue (by simp)]
          congr 1
          show glue (SPACE :: toupper c :: p.map toupper) _ = _
          exact append_glue (x := [SPACE]) (List.cons_ne_nil _ _)
      · rw [normalize_all, if_neg h0, if_neg hgap, if_neg fun h => by simp at h, (hall _).2 (by simp)]
        rw [List.map_cons, List.append_assoc]
        rfl

/-- **With enough room** the loop stores the normal form. -/
theorem normalize_all_eq (src : Chars) : normalize_all src [] true = inquiry_text src := by
  obtain ⟨p, ps, hsplit, hall⟩ := normalize_all_words src
  rw [(hall []).1, nil_glue, inquiry_text, hsplit]

theorem normalize_all_extends (src dst : Chars) (sp : Bool) : dst <+: normalize_all src dst sp := by
  induction src generalizing dst sp with
  | nil => exact List.prefix_rfl
  | cons c src ih =>
    rw [normalize_all]
    split
    · exact List.prefix_rfl
    split
    · exact ih dst true
    · refine List.IsPrefix.trans ?_ (ih _ _)
      split
      · rw [List.append_assoc]
        exact List.prefix_append _ _
      · exact List.prefix_append _ _

/-! ## The loop in its buffer -/

theorem normalize_loop_full (h : cap ≤ dst.length + 1) (src : Chars) (sp : Bool) :
    normalize_loop cap src dst sp = dst := by
  cases src with
  | nil => rfl
  | cons c src => rw [normalize_loop, if_pos (.inr (by omega))]

/-- **What the loop stores**: the first characters of the whole, and one more where the last place is
for a space. -/
theorem normalize_loop_eq (src : Chars) (hd : dst.length + 1 ≤ cap) : normalize_loop cap src dst sp =
    (normalize_all src dst sp).take
      (if dst.length + 2 ≤ cap ∧ (normalize_all src dst sp)[cap - 2]? = some SPACE then cap
        else cap - 1) := by
  induction src generalizing dst sp with
  | nil =>
    rw [normalize_loop, normalize_all]
    symm
    apply List.take_of_length_le
    split <;> omega
  | cons c src ih =>
    by_cases hfull : cap ≤ dst.length + 1
    · obtain ⟨t, ht⟩ := normalize_all_extends (c :: src) dst sp
      rw [normalize_loop_full hfull, if_neg fun h => by omega, ← ht, List.take_left' (by omega)]
    by_cases h0 : c = 0
    · rw [normalize_loop, if_pos (.inl h0), normalize_all, if_pos h0]
      symm
      apply List.take_of_length_le
      split <;> omega
    rw [normalize_loop, if_neg (not_or.2 ⟨h0, not_not.2 (by omega)⟩), normalize_all, if_neg h0]
    by_cases hgap : isgap c = true
    · rw [if_pos (by simpa [isgap] using hgap), if_pos hgap, ih hd]
    · rw [if_neg (by simpa [isgap] using hgap), if_neg hgap]
      -- the letter, with the pending space before it
      have hletter : toupper c ≠ SPACE := fun h => by
        have := (toupper_plain c h0 (by simpa using hgap)).2
        rw [h] at this
        exact absurd this (by decide)
      simp only []
      generalize hdst : (if sp = true ∧ 0 < dst.length then dst ++ [SPACE] else dst) = mid
      obtain ⟨t, ht⟩ := normalize_all_extends src (mid ++ [toupper c]) false
      by_cases hroom : mid.length + 2 ≤ cap
      · rw [ih (by simp; omega)]
        congr 1
        have hmid : dst.length ≤ mid.length ∧ mid.length ≤ dst.length + 1 := by
          rw [← hdst]
          split
          · simp
          · simp
        rw [List.length_append, List.length_singleton]
        by_cases hlast : mid.length + 3 ≤ cap
        · simp only [hlast, show dst.length + 2 ≤ cap by omega, true_and]
        · -- the letter takes the last place
          have hget : (normalize_all src (mid ++ [toupper c]) false)[cap - 2]? = some (toupper c) := by
            rw [← ht, List.append_assoc, List.getElem?_append_right (by omega),
              show cap - 2 - mid.length = 0 by omega]
            rfl
          rw [if_neg fun h => hlast h.1, if_neg fun h => hletter (Option.some.inj (hget.symm.trans h.2))]
      · -- the space takes the last place, and the letter the place of the NUL
        have hsp : sp = true ∧ 0 < dst.length := by
          by_contra h
          rw [if_neg h] at hdst
          rw [← hdst] at hroom
          omega
        rw [if_pos hsp] at hdst
        have hlen : mid.length = dst.length + 1 := by
          rw [← hdst]
          simp
        have hget : (normalize_all src (mid ++ [toupper c]) false)[cap - 2]? = some SPACE := by
          rw [← ht, ← hdst, List.append_assoc, List.append_assoc, List.getElem?_append_right (by omega),
            show cap - 2 - dst.length = 0 by omega]
          rfl
        rw [normalize_loop_full (by simp; omega), if_pos ⟨by omega, hget⟩, ← ht,
          List.take_left' (by simp; omega)]

/-- A space is never the first character. -/
theorem inquiry_text_head (src : Chars) : (inquiry_text src)[0]? ≠ some SPACE := by
  rw [← normalize_all_eq]
  suffices h : ∀ dst sp, dst[0]? ≠ some SPACE →
    (normalize_all src dst sp)[0]? ≠ some SPACE from h [] true (by simp)
  induction src with
  | nil => exact fun dst sp h => h
  | cons c src ih =>
    intro dst sp h
    rw [normalize_all]
    split
    · exact h
    rename_i h0
    split
    · exact ih dst true h
    rename_i hgap
    refine ih _ false ?_
    cases dst with
    | nil =>
      have := (toupper_plain c h0 (by simpa using hgap)).2
      simp only [List.length_nil, Nat.lt_irrefl, and_false, if_false, List.nil_append,
        List.getElem?_cons_zero, ne_eq,
        Option.some.injEq]
      exact fun hc => by rw [hc] at this; exact absurd this (by decide)
    | cons d dst =>
      split <;> simpa using h

/-- The bytes stored, from the normal form. -/
theorem adsc_inquiry_normalize_eq (src : Chars) (hcap : 1 ≤ cap) : adsc_inquiry_normalize src cap =
    (inquiry_text src).take (if InquiryFits src cap then cap - 1 else cap) ++ [0] := by
  unfold adsc_inquiry_normalize InquiryFits
  rw [normalize_loop_eq src (by simpa using hcap), normalize_all_eq]
  congr 2
  by_cases h : (inquiry_text src)[cap - 2]? = some SPACE
  · have : 2 ≤ cap := by
      by_contra hlt
      rw [show cap - 2 = 0 by omega] at h
      exact inquiry_text_head src h
    rw [if_pos ⟨by simpa using this, h⟩]
    exact (if_neg (not_not.2 h)).symm
  · rw [if_neg fun hh => h hh.2]
    exact (if_pos h).symm

/-! ## Normalising again -/

/-- What the loop can store: letters, and a space between two. -/
inductive Canon : Chars → Prop
  | nil : Canon []
  | letter {y : Chars} (hy : Canon y) (c : BitVec 8) (h0 : c ≠ 0) (hgap : isgap c = false)
      (hup : toupper c = c) :
    Canon (y ++ [c])
  | gap {y : Chars} (hy : Canon y) (hne : y ≠ []) (c : BitVec 8) (h0 : c ≠ 0) (hgap : isgap c = false)
    (hup : toupper c = c) : Canon (y ++ [SPACE, c])

theorem normalize_loop_canon (src : Chars) (hd : Canon dst) : Canon (normalize_loop cap src dst sp) := by
  induction src generalizing dst sp with
  | nil => exact hd
  | cons c src ih =>
    rw [normalize_loop]
    split
    · exact hd
    rename_i h
    obtain ⟨h0, _⟩ := not_or.1 h
    split
    · exact ih hd
    rename_i hg
    have hgap : isgap c = false := by simpa [isgap] using hg
    obtain ⟨hu0, hug⟩ := toupper_plain c h0 hgap
    refine ih ?_
    split
    · rename_i hs
      rw [List.append_assoc]
      exact hd.gap (List.ne_nil_of_length_pos hs.2) _ hu0 hug (toupper_toupper c)
    · exact hd.letter _ hu0 hug (toupper_toupper c)

/-- A text in normal form is stored as it is. -/
theorem Canon.stored (hy : Canon y) (hlen : y.length + 1 ≤ cap) (rest : Chars) :
    normalize_loop cap (y ++ rest) [] true = normalize_loop cap rest y (y = []) := by
  induction hy generalizing rest with
  | nil => rfl
  | @letter y hy c h0 hgap hup ih =>
    rw [List.length_append, List.length_singleton] at hlen
    rw [List.append_assoc, ih (by omega), List.singleton_append, normalize_loop,
      if_neg (not_or.2 ⟨h0, not_not.2 (by omega)⟩), if_neg (isgap_false hgap), hup]
    have hnot : ¬(decide (y = []) = true ∧ 0 < y.length) := by
      rintro ⟨h1, h2⟩
      rw [of_decide_eq_true h1] at h2
      exact absurd h2 (by decide)
    simp only [if_neg hnot]
    rw [decide_eq_false (by simp)]
  | @gap y hy hne c h0 hgap hup ih =>
    rw [List.length_append] at hlen
    have h2 : y.length + 3 ≤ cap := hlen
    rw [List.append_assoc, ih (by omega)]
    show normalize_loop cap (SPACE :: c :: rest) y _ = _
    rw [normalize_loop, if_neg (not_or.2 ⟨by decide, not_not.2 (by omega)⟩),
      if_pos (.inl rfl), normalize_loop,
      if_neg (not_or.2 ⟨h0, not_not.2 (by omega)⟩), if_neg (isgap_false hgap), hup]
    simp only [true_and, if_pos (List.length_pos_of_ne_nil hne)]
    rw [List.append_assoc, decide_eq_false (by simp)]
    rfl

/-- A text in normal form does not end in a space. -/
theorem Canon.last_ne_space (hy : Canon y) {i : Nat} (h : y[i]? = some SPACE) : y.length ≠ i + 1 := by
  have hletter : ∀ (z : Chars) (c : BitVec 8), isgap c = false → (z ++ [c])[i]? = some SPACE →
    (z ++ [c]).length ≠ i + 1 := by
    intro z c hgap h hlen
    rw [List.length_append, List.length_singleton] at hlen
    rw [List.getElem?_append_right (by omega), show i - z.length = 0 by omega] at h
    rw [Option.some.inj h] at hgap
    exact absurd hgap (by decide)
  cases hy with
  | nil => cases h
  | letter hy c h0 hgap hup => exact hletter _ c hgap h
  | @gap y hy hne c h0 hgap hup =>
    rw [show y ++ [SPACE, c] = (y ++ [SPACE]) ++ [c] by simp] at h ⊢
    exact hletter _ c hgap h

/-- A NUL ends the string. -/
theorem normalize_loop_nul (src : Chars) : normalize_loop cap (0 :: src) dst sp = dst := by
  rw [normalize_loop, if_pos (.inl rfl)]

/-- The bytes stored are within the buffer exactly where the text fits. -/
theorem inquiry_inside_iff (src : Chars) (hcap : 1 ≤ cap) :
    (adsc_inquiry_normalize src cap).length ≤ cap ↔ InquiryFits src cap := by
  have heq := adsc_inquiry_normalize_eq src hcap
  refine ⟨fun h => ?_, fun h => ?_⟩
  · by_contra hno
    rw [if_neg hno] at heq
    rw [heq, List.length_append, List.length_take, List.length_singleton] at h
    have hget : (inquiry_text src)[cap - 2]? = some SPACE := not_not.1 hno
    have hlt := (List.getElem?_eq_some_iff.1 hget).1
    -- the text would end in a space
    have hloop : normalize_loop cap src [] true = inquiry_text src := by
      rw [List.append_cancel_right heq]
      exact List.take_of_length_le (by omega)
    have hcanon : Canon (inquiry_text src) := hloop ▸ normalize_loop_canon src .nil
    exact hcanon.last_ne_space hget (by omega)
  · rw [heq, if_pos h, List.length_append, List.length_take, List.length_singleton]
    omega

/-- **In its buffer** exactly where the text fits. -/
theorem normalizes_iff (src : Chars) (hcap : 1 ≤ cap) : Normalizes src cap ↔ InquiryFits src cap := by
  refine ⟨fun h => (inquiry_inside_iff src hcap).1 h.inside, fun h => ?_⟩
  have heq := adsc_inquiry_normalize_eq src hcap
  rw [if_pos h] at heq
  have htake : normalize_loop cap src [] true = (inquiry_text src).take (cap - 1) :=
    List.append_cancel_right heq
  have hlen : ((inquiry_text src).take (cap - 1)).length + 1 ≤ cap := by
    rw [List.length_take]
    omega
  have hcanon : Canon ((inquiry_text src).take (cap - 1)) := htake ▸ normalize_loop_canon src .nil
  refine ⟨(inquiry_inside_iff src hcap).2 h, heq, ?_⟩
  rw [heq, adsc_inquiry_normalize, hcanon.stored hlen, normalize_loop_nul]

/-! ## The lookup's buffers -/

/-- The strings that the lookup normalises all fit their buffers. -/
structure LookupFits (offsets : List OffsetEntry) (vendor product : Chars) : Prop where
  query_vendor : InquiryFits vendor 32
  query_product : InquiryFits product 32
  rows : inquiry32 product ≠ [] → ∀ r ∈ offsets, InquiryFits r.product 32
  vendors : inquiry32 product ≠ [] → ∀ r ∈ offsets, inquiry32 product = inquiry32 r.product →
    InquiryFits r.vendor 32

variable {offsets : List OffsetEntry} {vendor product : Chars}

theorem pass1_mem {t : Chars} (h : t ∈ pass1_normalized vendor product offsets) : ∃ r ∈ offsets,
    t = r.product ∨ inquiry32 product = inquiry32 r.product ∧ t = r.vendor := by
  induction offsets with
  | nil => cases h
  | cons r rs ih =>
    have hrest : t ∈ pass1_normalized vendor product rs → ∃ d ∈ r :: rs,
        t = d.product ∨ inquiry32 product = inquiry32 d.product ∧ t = d.vendor := fun h => by
      obtain ⟨d, hd, ht⟩ := ih h
      exact ⟨d, List.mem_cons_of_mem _ hd, ht⟩
    rw [pass1_normalized] at h
    split at h
    · rcases List.mem_cons.1 h with rfl | h
      · exact ⟨r, List.mem_cons_self, .inl rfl⟩
      · exact hrest h
    rename_i hp
    have hp := not_not.1 hp
    split at h
    · rcases List.mem_cons.1 h with rfl | h
      · exact ⟨r, List.mem_cons_self, .inl rfl⟩
      rcases List.mem_cons.1 h with rfl | h
      · exact ⟨r, List.mem_cons_self, .inr ⟨hp, rfl⟩⟩
      · exact hrest h
    · rcases List.mem_cons.1 h with rfl | h
      · exact ⟨r, List.mem_cons_self, .inl rfl⟩
      · exact ⟨r, List.mem_cons_self, .inr ⟨hp, List.mem_singleton.1 h⟩⟩

/-- Without a hit pass 1 looks at every vendor of the product. -/
theorem pass1_vendor (hno : offset_vendor_hit vendor product offsets = false) {r : OffsetEntry}
    (hr : r ∈ offsets)
    (hp : inquiry32 product = inquiry32 r.product) :
      r.vendor ∈ pass1_normalized vendor product offsets := by
  induction offsets with
  | nil => cases hr
  | cons d rs ih =>
    unfold offset_vendor_hit at hno
    rw [List.any_cons, Bool.or_eq_false_iff] at hno
    have hd : ¬(inquiry32 product = inquiry32 d.product ∧ inquiry32 vendor = inquiry32 d.vendor) := by
      simpa using hno.1
    rw [pass1_normalized]
    rcases List.mem_cons.1 hr with rfl | hr
    · rw [if_neg (not_not.2 hp), if_pos fun hv => hd ⟨hp, hv⟩]
      exact List.mem_cons_of_mem _ List.mem_cons_self
    · have := ih hno.2 hr
      split
      · exact List.mem_cons_of_mem _ this
      rename_i hpd
      rw [if_pos fun hv => hd ⟨not_not.1 hpd, hv⟩]
      exact List.mem_cons_of_mem _ (List.mem_cons_of_mem _ this)

/-- **The lookup stays in its buffers** exactly where every string fits. -/
theorem offset_in_buffers_iff : offset_in_buffers offsets vendor product = true ↔
    LookupFits offsets vendor product := by
  unfold offset_in_buffers
  rw [List.all_eq_true]
  simp only [decide_eq_true_eq, inquiry_inside_iff _ (show 1 ≤ 32 by decide)]
  unfold offset_normalized
  constructor
  · intro h
    have hrest : inquiry32 product ≠ [] → ∀ t, t ∈ pass1_normalized vendor product offsets ∨
        t ∈ pass2_normalized product (offset_vendor_hit vendor product offsets) offsets →
          InquiryFits t 32 := by
      intro hp t ht
      refine h t (List.mem_append_right _ ?_)
      rw [if_neg hp]
      exact List.mem_append.2 ht
    refine ⟨h _ (by simp), h _ (by simp), fun hp r hr => ?_, fun hp r hr heq => ?_⟩
    · refine hrest hp _ (.inr ?_)
      unfold pass2_normalized
      refine List.mem_flatMap.2 ⟨r, hr, ?_⟩
      split <;> simp
    · cases hhit : offset_vendor_hit vendor product offsets with
      | false => exact hrest hp _ (.inl (pass1_vendor hhit hr heq))
      | true =>
        refine hrest hp _ (.inr ?_)
        unfold pass2_normalized
        refine List.mem_flatMap.2 ⟨r, hr, ?_⟩
        rw [if_pos ⟨heq, hhit⟩]
        simp
  · intro h t ht
    rcases List.mem_append.1 ht with ht | ht
    · rcases List.mem_cons.1 ht with rfl | ht
      · exact h.query_vendor
      · rw [List.mem_singleton.1 ht]
        exact h.query_product
    · split at ht
      · cases ht
      rename_i hp
      rcases List.mem_append.1 ht with ht | ht
      · obtain ⟨r, hr, rfl | ⟨heq, rfl⟩⟩ := pass1_mem ht
        · exact h.rows hp r hr
        · exact h.vendors hp r hr heq
      · obtain ⟨r, hr, ht⟩ := List.mem_flatMap.1 ht
        split at ht
        · rename_i hv
          rcases List.mem_cons.1 ht with rfl | ht
          · exact h.rows hp r hr
          · rw [List.mem_singleton.1 ht]
            exact h.vendors hp r hr hv.1
        · rw [List.mem_singleton.1 ht]
          exact h.rows hp r hr

/-- **Where the normalisation is safe**: exactly where no space of the normal form falls on the last place
of the buffer, and the lookup exactly where that holds of every string it normalises. -/
theorem adsc_inquiry_normalize_iff (src : Chars) (cap : Nat) (hcap : 1 ≤ cap) (offsets : List OffsetEntry)
    (vendor product : Chars) :
    (Normalizes src cap ↔ InquiryFits src cap) ∧
      (offset_in_buffers offsets vendor product = true ↔ LookupFits offsets vendor product) :=
  ⟨normalizes_iff src hcap, offset_in_buffers_iff⟩

theorem adsc_inquiry_normalize_iff_words : Normalizes [0x61, SPACE, 0x62] 32 :=
  (adsc_inquiry_normalize_iff [0x61, SPACE, 0x62] 32 (by decide) [] [] []).1.2 (by decide)

/-- "a b" in three bytes: the space, the letter and the NUL need four. -/
theorem inquiry_gap_overflows : ¬Normalizes [0x61, SPACE, 0x62] 3 := by
  intro h
  exact absurd h.inside (by decide)

end Accudisc
