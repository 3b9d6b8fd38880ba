import Accudisc.Write.TocParse
import Mathlib.Data.List.Induction
import Mathlib.Data.List.TakeWhile

/-!
# The lines of a `.toc` text

What a line says is read off the whole text behind it. `LineKept` is where that reads no further than the
line, and then the scan is a walk over the lines each on its own.
-/

namespace Accudisc

variable {p q k r e : CText} {ar : Arith}

/-! ## A line and what follows it -/

theorem line_of_no_nl (p : CText) : NL ∉ line_of p := fun h => by simpa using List.mem_takeWhile_imp h

/-- The text is its line, or its line and a newline. -/
theorem line_split (p : CText) : p = line_of p ∨ ∃ r, p = line_of p ++ NL :: r := by
  induction p with
  | nil => exact .inl rfl
  | cons c p ih =>
    unfold line_of at ih ⊢
    rw [List.takeWhile_cons]
    by_cases hc : c = NL
    · rw [if_neg (by simp [hc]), hc]
      exact .inr ⟨p, rfl⟩
    · rw [if_pos (by simp [hc])]
      rcases ih with h | ⟨r, h⟩
      · exact .inl (congrArg (c :: ·) h)
      · exact .inr ⟨r, congrArg (c :: ·) h⟩

theorem line_of_self (h : NL ∉ q) : line_of q = q := by
  unfold line_of
  rw [List.takeWhile_eq_self_iff]
  intro c hc
  simp only [ne_eq, decide_eq_true_eq]
  intro he
  exact h (he ▸ hc)

theorem takeWhile_stop {f : BitVec 8 → Bool} (hf : f NL = false) (q r : CText) :
    (q ++ NL :: r).takeWhile f = q.takeWhile f := by
  induction q with
  | nil => rw [List.nil_append, List.takeWhile_cons, if_neg (by rw [hf]; decide), List.takeWhile_nil]
  | cons c q ih =>
    rw [List.cons_append, List.takeWhile_cons, List.takeWhile_cons, ih]

theorem dropWhile_stop {f : BitVec 8 → Bool} (hf : f NL = false ∨ q.dropWhile f ≠ []) (r : CText) :
    (q ++ NL :: r).dropWhile f = q.dropWhile f ++ NL :: r := by
  induction q with
  | nil =>
    have hf : f NL = false := hf.resolve_right fun h => h rfl
    rw [List.nil_append, List.dropWhile_cons, if_neg (by rw [hf]; decide), List.dropWhile_nil,
      List.nil_append]
  | cons c q ih =>
    rw [List.cons_append, List.dropWhile_cons, List.dropWhile_cons] at *
    by_cases hc : f c = true
    · rw [if_pos hc] at *
      rw [if_pos hc]
      exact ih hf
    · rw [if_neg hc, if_neg hc]
      rfl

theorem line_of_stop (h : NL ∉ q) (r : CText) : line_of (q ++ NL :: r) = q := by
  unfold line_of
  rw [takeWhile_stop (by decide)]
  exact line_of_self h

theorem skipws_stop (q r : CText) : skipws (q ++ NL :: r) = skipws q ++ NL :: r :=
  dropWhile_stop (.inl (by decide)) r

theorem skipws_no_nl (h : NL ∉ q) : NL ∉ skipws q := fun hm => h ((List.dropWhile_sublist _).subset hm)

theorem drop_stop {n : Nat} (h : n ≤ q.length) (r : CText) : (q ++ NL :: r).drop n = q.drop n ++ NL :: r :=
  List.drop_append_of_le_length h

theorem kw_stop (hk : NL ∉ k) (q r : CText) : kw (q ++ NL :: r) k = kw q k := by
  unfold kw
  rcases Nat.lt_trichotomy k.length q.length with h | h | h
  · rw [List.take_append_of_le_length (Nat.le_of_lt h), drop_stop (Nat.le_of_lt h)]
    cases hd : q.drop k.length with
    | nil => exact absurd (List.drop_eq_nil_iff.1 hd) (Nat.not_le.2 h)
    | cons c d => rfl
  · rw [List.take_append_of_le_length (Nat.le_of_eq h), drop_stop (Nat.le_of_eq h), h, List.drop_length]
    rfl
  · have h1 : (q ++ NL :: r).take k.length ≠ k := by
      intro he
      apply hk
      rw [← he, List.take_append, show k.length - q.length = (k.length - q.length - 1) + 1 by omega,
        List.take_succ_cons]
      simp
    have h2 : q.take k.length ≠ k := by
      intro he
      have := congrArg List.length he
      rw [List.length_take] at this
      omega
    rw [decide_eq_false h1, decide_eq_false h2]
    rfl

/-- A keyword is within the line. -/
theorem kw_length (h : kw q k = true) : k.length ≤ q.length := by
  unfold kw at h
  rw [Bool.and_eq_true, decide_eq_true_eq] at h
  have := congrArg List.length h.1
  rw [List.length_take] at this
  omega

theorem kw_head (h : kw q k = true) (hk : k ≠ []) : q.head? = k.head? := by
  unfold kw at h
  rw [Bool.and_eq_true, decide_eq_true_eq] at h
  rw [← h.1, List.head?_take, if_neg]
  rw [List.length_eq_zero_iff]
  exact hk

theorem kw_of_head (hk : k ≠ []) (h : q.head? ≠ k.head?) : kw q k = false := by
  cases hkw : kw q k with
  | false => rfl
  | true => exact absurd (kw_head hkw hk) h

/-- A quoted string is within the line. -/
theorem parse_qstr_stop (q r : CText) (cap : Nat) :
    parse_qstr (q ++ NL :: r) cap = (parse_qstr q cap).map fun x => (x.1, x.2 ++ NL :: r) := by
  unfold parse_qstr
  rw [skipws_stop]
  cases skipws q with
  | nil =>
    simp only [List.nil_append]
    rw [if_pos (by decide)]
    rfl
  | cons c q =>
    simp only [List.cons_append]
    by_cases hc : c ≠ QUOTE
    · rw [if_pos hc, if_pos hc]
      rfl
    rw [if_neg hc, if_neg hc, takeWhile_stop (by decide),
      drop_stop (List.takeWhile_sublist _).length_le]
    cases q.drop (q.takeWhile fun c => decide (c ≠ QUOTE) && decide (c ≠ NL)).length with
    | nil => rfl
    | cons c d =>
      simp only [List.cons_append]
      by_cases hc : c = QUOTE
      · rw [if_pos hc, if_pos hc]
        rfl
      · rw [if_neg hc, if_neg hc]
        rfl

theorem strtol_stop {n : Int} (h : strtol ar q = some (n, e)) (r : CText) :
    strtol ar (q ++ NL :: r) = some (n, e ++ NL :: r) := by
  unfold strtol at h ⊢
  simp only [] at h ⊢
  have hne : q.dropWhile is_space ≠ [] := by
    intro h0
    rw [h0] at h
    simp at h
  rw [dropWhile_stop (.inr hne)]
  generalize q.dropWhile is_space = d at h hne ⊢
  have hhead : (d ++ NL :: r).head? = d.head? := by
    cases d with
    | nil => exact absurd rfl hne
    | cons c d => rfl
  have hdrop : (d ++ NL :: r).drop 1 = d.drop 1 ++ NL :: r := by
    cases d with
    | nil => exact absurd rfl hne
    | cons c d => rfl
  have hdigits : ∀ (f : CText → Int) (d : CText),
      (if d.takeWhile is_digit = [] then none
        else some (f (d.takeWhile is_digit), d.drop (d.takeWhile is_digit).length)) = some (n, e) →
      (if (d ++ NL :: r).takeWhile is_digit = [] then none
        else some (f ((d ++ NL :: r).takeWhile is_digit),
          (d ++ NL :: r).drop ((d ++ NL :: r).takeWhile is_digit).length)) =
      some (n, e ++ NL :: r) := by
    intro f d h
    rw [takeWhile_stop (by decide)]
    by_cases h0 : d.takeWhile is_digit = []
    · rw [if_pos h0] at h
      cases h
    · rw [if_neg h0] at h ⊢
      rw [drop_stop (List.takeWhile_sublist _).length_le]
      simp only [Option.some.injEq, Prod.mk.injEq] at h ⊢
      exact ⟨h.1, by rw [h.2]⟩
  simp only [hhead, hdrop]
  by_cases hsign : decide (d.head? = some 0x2d) = true ∨ d.head? = some 0x2b
  · simp only [if_pos hsign] at h ⊢
    exact hdigits (fun ds => ar.strtol (if decide (d.head? = some 0x2d) = true then -(digits_value ds : Int)
      else digits_value ds)) _ h
  · simp only [if_neg hsign] at h ⊢
    exact hdigits (fun ds => ar.strtol (if decide (d.head? = some 0x2d) = true then -(digits_value ds : Int)
      else digits_value ds)) _ h

theorem strtol_colon_stop {n : Int} (h : strtol_colon ar q = some (n, e)) (r : CText) :
    strtol_colon ar (q ++ NL :: r) = some (n, e ++ NL :: r) := by
  unfold strtol_colon at h ⊢
  cases hs : strtol ar q with
  | none =>
    rw [hs] at h
    cases h
  | some x =>
    obtain ⟨m, d⟩ := x
    rw [strtol_stop hs]
    rw [hs] at h
    cases d with
    | nil => cases h
    | cons c d =>
      simp only [List.cons_append] at h ⊢
      by_cases hc : c = COLON
      · rw [if_pos hc] at h ⊢
        simp only [Option.some.injEq, Prod.mk.injEq] at h ⊢
        exact ⟨h.1, by rw [h.2]⟩
      · rw [if_neg hc] at h
        cases h

/-- An MSF that the line holds is read as it is. -/
theorem parse_msf_stop {n : Int} (h : parse_msf ar q = some (n, e)) (r : CText) :
    parse_msf ar (q ++ NL :: r) = some (n, e ++ NL :: r) := by
  unfold parse_msf at h ⊢
  rw [skipws_stop]
  cases h1 : strtol_colon ar (skipws q) with
  | none =>
    rw [h1] at h
    cases h
  | some x =>
    rw [h1] at h
    rw [strtol_colon_stop h1]
    simp only at h ⊢
    cases h2 : strtol_colon ar x.2 with
    | none =>
      rw [h2] at h
      cases h
    | some y =>
      rw [h2] at h
      rw [strtol_colon_stop h2]
      simp only at h ⊢
      cases h3 : strtol ar y.2 with
      | none =>
        rw [h3] at h
        cases h
      | some z =>
        rw [h3] at h
        rw [strtol_stop h3]
        simp only at h ⊢
        split at h
        · cases h
        rename_i hbad
        rw [if_neg hbad]
        simp only [Option.some.injEq, Prod.mk.injEq] at h ⊢
        exact ⟨h.1, by rw [h.2]⟩

theorem parse_file_start_stop {n : Int} (h : parse_file_start ar q = some (n, e)) (r : CText) :
    parse_file_start ar (q ++ NL :: r) = some (n, e ++ NL :: r) := by
  unfold parse_file_start at h ⊢
  rw [skipws_stop]
  cases h1 : strtol ar (skipws q) with
  | none =>
    rw [h1] at h
    cases h
  | some x =>
    rw [h1] at h
    rw [strtol_stop h1]
    simp only at h ⊢
    split at h
    · cases h
    rename_i hneg
    rw [if_neg hneg]
    have hhead : (x.2 ++ NL :: r).head? ≠ some COLON ↔ x.2.head? ≠ some COLON := by
      cases x.2 with
      | nil => exact ⟨fun _ => by simp, fun _ => by simp [NL, COLON]⟩
      | cons c d => rfl
    by_cases hc : x.2.head? ≠ some COLON
    · rw [if_pos hc] at h
      rw [if_pos (hhead.2 hc)]
      simp only [Option.some.injEq, Prod.mk.injEq] at h ⊢
      exact ⟨h.1, by rw [h.2]⟩
    · rw [if_neg hc] at h
      rw [if_neg fun hh => hc (hhead.1 hh)]
      cases h2 : parse_msf ar q with
      | none =>
        rw [h2] at h
        cases h
      | some y =>
        rw [h2] at h
        rw [parse_msf_stop h2]
        simp only at h ⊢
        split at h
        · cases h
        rename_i hn
        rw [if_neg hn]
        simp only [Option.some.injEq, Prod.mk.injEq] at h ⊢
        exact ⟨h.1, by rw [h.2]⟩

/-- The fields of a FILE line that holds them both. -/
theorem file_fields_stop {x : Int × Int} (hq : (if q.head? = some 0x41 then 9 else 4) ≤ q.length)
    (h : file_fields ar q = some x) (r : CText) : file_fields ar (q ++ NL :: r) = some x := by
  have hhead : (q ++ NL :: r).head? = q.head? := by
    cases q with
    | nil => exact absurd hq (by decide)
    | cons c q => rfl
  unfold file_fields at h ⊢
  rw [hhead, drop_stop hq, parse_qstr_stop]
  cases h1 : parse_qstr (q.drop (if q.head? = some 0x41 then 9 else 4)) 1 with
  | none =>
    rw [h1] at h
    cases h
  | some y =>
    rw [h1] at h
    simp only [Option.map_some] at h ⊢
    cases h2 : parse_file_start ar y.2 with
    | none =>
      rw [h2] at h
      cases h
    | some z =>
      rw [h2] at h
      rw [parse_file_start_stop h2]
      simp only at h ⊢
      split at h
      · cases h
      rename_i hn
      rw [if_neg hn]
      cases h3 : parse_msf ar z.2 with
      | none =>
        rw [h3] at h
        cases h
      | some w =>
        rw [h3] at h
        rw [parse_msf_stop h3]
        exact h

theorem start_pregap_stop (hq : 5 ≤ q.length) (h : parse_msf ar (q.drop 5) ≠ none) (r : CText) :
    start_pregap ar (q ++ NL :: r) = start_pregap ar q := by
  unfold start_pregap
  rw [drop_stop hq]
  obtain ⟨x, hx⟩ := Option.ne_none_iff_exists'.1 h
  rw [hx, parse_msf_stop hx]

theorem strstr_append (h : strstr q k = true) (r : CText) : strstr (q ++ r) k = true := by
  unfold strstr at h ⊢
  rw [decide_eq_true_eq] at h ⊢
  exact h.trans (List.prefix_append q r).isInfix

/-! ## A line by itself -/

/-- The effect of the line at `p` is that of the line by itself, whatever the current track holds. -/
def LineLocal (ar : Arith) (st : TocText) (p : CText) : Prop :=
  ∀ cur : Option ScannedTrack, cur.isSome = st.cur.isSome →
    cue_line ar { st with cur := cur } p = cue_line ar { st with cur := cur } (line_of p)

/-- The line at `p` is not completed by those behind it; `opened` says whether it comes after a
TRACK line. -/
structure LineKept (ar : Arith) (opened : Bool) (p : CText) : Prop where
  track : kw (skipws p) kw_TRACK = true → (line_of (skipws p)).length < 64 →
    strstr (skipws p) kw_AUDIO = true →
    strstr (skipws (line_of p)) kw_AUDIO = true
  no_pre_emphasis : opened = true → kw (skipws p) kw_NO = true → strstr (skipws p) kw_PRE_EMPHASIS = true →
    strstr (skipws (line_of p)) kw_PRE_EMPHASIS = true
  no_copy : opened = true → kw (skipws p) kw_NO = true → strstr (skipws p) kw_COPY = true →
    strstr (skipws (line_of p)) kw_PRE_EMPHASIS = true ∨ strstr (skipws (line_of p)) kw_COPY = true
  file : opened = true → (kw (skipws p) kw_FILE || kw (skipws p) kw_AUDIOFILE) = true →
    file_fields ar (skipws (line_of p)) ≠ none
  start : opened = true → kw (skipws p) kw_START = true →
    parse_msf ar ((skipws (line_of p)).drop 5) ≠ none ∨ start_pregap ar (skipws p) = 0

/-- The track as a line leaves it. -/
theorem track_line_no (h : kw p kw_NO = true) (t : ScannedTrack) :
    track_line ar t p = .ok (track_no t p) := by
  have hne : ∀ k : CText, k ≠ [] → (kw_NO : CText).head? ≠ k.head? → kw p k = false := fun k hk hd =>
    kw_of_head hk fun he => hd ((kw_head h (by decide)).symm.trans he)
  unfold track_line
  rw [hne kw_ISRC (by decide) (by decide), if_neg (by decide), if_pos h]

theorem track_line_file (h : (kw p kw_FILE || kw p kw_AUDIOFILE) = true) (t : ScannedTrack) :
    track_line ar t p = track_file ar t p := by
  have hne : ∀ k : CText, k ≠ [] → (kw_FILE : CText).head? ≠ k.head? →
    (kw_AUDIOFILE : CText).head? ≠ k.head? →
      kw p k = false := by
    intro k hk hf ha
    rcases Bool.or_eq_true_iff.1 h with h | h
    · exact kw_of_head hk fun he => hf ((kw_head h (by decide)).symm.trans he)
    · exact kw_of_head hk fun he => ha ((kw_head h (by decide)).symm.trans he)
  unfold track_line
  rw [hne kw_ISRC (by decide) (by decide) (by decide), hne kw_NO (by decide) (by decide) (by decide),
    hne kw_PRE_EMPHASIS (by decide) (by decide) (by decide),
      hne kw_COPY (by decide) (by decide) (by decide),
    if_neg (by decide), if_neg (by decide), if_neg (by decide), if_neg (by decide), if_pos h]

theorem track_line_start (h : kw p kw_START = true) (t : ScannedTrack) :
    track_line ar t p = .ok { t with track := { t.track with pregap := start_pregap ar p } } := by
  have hne : ∀ k : CText, k ≠ [] → (kw_START : CText).head? ≠ k.head? → kw p k = false := fun k hk hd =>
    kw_of_head hk fun he => hd ((kw_head h (by decide)).symm.trans he)
  unfold track_line
  rw [hne kw_ISRC (by decide) (by decide), hne kw_NO (by decide) (by decide),
    hne kw_PRE_EMPHASIS (by decide) (by decide), hne kw_COPY (by decide) (by decide),
    hne kw_FILE (by decide) (by decide), hne kw_AUDIOFILE (by decide) (by decide)]
  rw [if_neg (by decide), if_neg (by decide), if_neg (by decide), if_neg (by decide),
    if_neg (by decide), if_pos h]

/-- A line of the current track, where its quotes are even. -/
theorem cue_line_track (hq : ¬(line_of (skipws p)).count QUOTE % 2 = 1)
    (hc : kw (skipws p) kw_CATALOG = false)
    (ht : kw (skipws p) kw_TRACK = false) (st : TocText) (t : ScannedTrack) :
    cue_line ar { st with cur := some t } p =
      (track_line ar t (skipws p)).map fun t => { st with cur := some t } := by
  unfold cue_line
  simp only []
  rw [if_neg hq, hc, ht, if_neg (by decide), if_neg (by decide)]

/-- A line from its first character on. -/
theorem skipws_line (p : CText) : skipws p = skipws (line_of p) ∨
    ∃ r, skipws p = skipws (line_of p) ++ NL :: r := by
  rcases line_split p with h | ⟨r, h⟩
  · exact .inl (congrArg skipws h)
  · exact .inr ⟨r, (congrArg skipws h).trans (skipws_stop _ r)⟩

/-- The keywords of a line are those of the line by itself. -/
theorem kw_line (hk : NL ∉ k) (p : CText) : kw (skipws (line_of p)) k = kw (skipws p) k := by
  rcases skipws_line p with h | ⟨r, h⟩
  · rw [h]
  · rw [h, kw_stop hk]

theorem line_of_line (p : CText) : line_of (skipws (line_of p)) = line_of (skipws p) := by
  rcases skipws_line p with h | ⟨r, h⟩
  · rw [h]
  · rw [h, line_of_stop (skipws_no_nl (line_of_no_nl p)), line_of_self (skipws_no_nl (line_of_no_nl p))]

theorem strstr_line (h : strstr (skipws (line_of p)) k = true) : strstr (skipws p) k = true := by
  rcases skipws_line p with hp | ⟨r, hp⟩
  · rwa [hp]
  · rw [hp]
    exact strstr_append h _

theorem catalog_line (h : kw (skipws p) kw_CATALOG = true) (st : TocText) :
    catalog st (skipws p) = catalog st (skipws (line_of p)) := by
  have hlen : 7 ≤ (skipws (line_of p)).length :=
    kw_length ((kw_line (k := kw_CATALOG) (by decide) p).trans h)
  rcases skipws_line p with hp | ⟨r, hp⟩
  · rw [hp]
  · rw [hp]
    unfold catalog
    rw [drop_stop hlen, parse_qstr_stop]
    cases parse_qstr ((skipws (line_of p)).drop 7) 32 with
    | none => rfl
    | some x => rfl

theorem track_isrc_line (h : kw (skipws p) kw_ISRC = true) (t : ScannedTrack) :
    track_isrc t (skipws p) = track_isrc t (skipws (line_of p)) := by
  have hlen : 4 ≤ (skipws (line_of p)).length := kw_length ((kw_line (k := kw_ISRC) (by decide) p).trans h)
  rcases skipws_line p with hp | ⟨r, hp⟩
  · rw [hp]
  · rw [hp]
    unfold track_isrc
    rw [drop_stop hlen, parse_qstr_stop]
    cases parse_qstr ((skipws (line_of p)).drop 4) 32 with
    | none => rfl
    | some x => rfl

variable {opened : Bool}

theorem LineKept.new_track (h : LineKept ar opened p) (ht : kw (skipws p) kw_TRACK = true) :
    new_track (skipws p) = new_track (skipws (line_of p)) := by
  unfold Accudisc.new_track
  rw [line_of_line]
  have haudio : (strstr (skipws p) kw_AUDIO && decide ((line_of (skipws p)).length < 64)) =
      (strstr (skipws (line_of p)) kw_AUDIO && decide ((line_of (skipws p)).length < 64)) := by
    by_cases hlen : (line_of (skipws p)).length < 64
    · rw [decide_eq_true hlen, Bool.and_true, Bool.and_true]
      exact Bool.eq_iff_iff.2 ⟨h.track ht hlen, strstr_line⟩
    · rw [decide_eq_false hlen, Bool.and_false, Bool.and_false]
  rw [haudio]

theorem LineKept.track_no (h : LineKept ar true p) (hk : kw (skipws p) kw_NO = true) (t : ScannedTrack) :
    track_no t (skipws p) = track_no t (skipws (line_of p)) := by
  unfold Accudisc.track_no
  have hpre : strstr (skipws p) kw_PRE_EMPHASIS = strstr (skipws (line_of p)) kw_PRE_EMPHASIS :=
    Bool.eq_iff_iff.2 ⟨h.no_pre_emphasis rfl hk, strstr_line⟩
  rw [hpre]
  by_cases hp : strstr (skipws (line_of p)) kw_PRE_EMPHASIS = true
  · rw [if_pos hp, if_pos hp]
  · have hcopy : strstr (skipws p) kw_COPY = strstr (skipws (line_of p)) kw_COPY :=
      Bool.eq_iff_iff.2 ⟨fun hc => (h.no_copy rfl hk hc).resolve_left hp, strstr_line⟩
    rw [if_neg hp, if_neg hp, hcopy]

theorem LineKept.track_file (h : LineKept ar true p)
    (hk : (kw (skipws p) kw_FILE || kw (skipws p) kw_AUDIOFILE) = true)
    (t : ScannedTrack) : track_file ar t (skipws p) = track_file ar t (skipws (line_of p)) := by
  obtain ⟨x, hx⟩ := Option.ne_none_iff_exists'.1 (h.file rfl hk)
  have hlen : (if (skipws (line_of p)).head? = some 0x41 then 9 else 4) ≤ (skipws (line_of p)).length := by
    rcases Bool.or_eq_true_iff.1 hk with hk | hk
    · have hkl := (kw_line (k := kw_FILE) (by decide) p).trans hk
      have hl := kw_length hkl
      rw [kw_head hkl (by decide), if_neg (by decide)]
      exact hl
    · have hl := kw_length ((kw_line (k := kw_AUDIOFILE) (by decide) p).trans hk)
      change 9 ≤ _ at hl
      split <;> omega
  unfold Accudisc.track_file
  rcases skipws_line p with hp | ⟨r, hp⟩
  · rw [hp]
  · rw [hp, file_fields_stop hlen hx, hx]

theorem LineKept.start_pregap (h : LineKept ar true p) (hk : kw (skipws p) kw_START = true) :
    start_pregap ar (skipws p) = start_pregap ar (skipws (line_of p)) := by
  have hlen := kw_length ((kw_line (k := kw_START) (by decide) p).trans hk)
  by_cases hown : parse_msf ar ((skipws (line_of p)).drop 5) = none
  · rw [(h.start rfl hk).resolve_left fun hne => hne hown]
    unfold Accudisc.start_pregap
    rw [hown]
  · rcases skipws_line p with hp | ⟨r, hp⟩
    · rw [hp]
    · rw [hp, start_pregap_stop hlen hown]

/-- A line that is not completed by those behind it acts by itself. -/
theorem LineKept.local {st : TocText} (h : LineKept ar st.cur.isSome p) : LineLocal ar st p := by
  intro cur hcur
  unfold cue_line
  simp only []
  rw [line_of_line, kw_line (by decide), kw_line (by decide)]
  by_cases hq : (line_of (skipws p)).count QUOTE % 2 = 1
  · rw [if_pos hq, if_pos hq]
  rw [if_neg hq, if_neg hq]
  by_cases hc : kw (skipws p) kw_CATALOG = true
  · rw [if_pos hc, if_pos hc]
    exact congrArg Except.ok (catalog_line hc _)
  rw [if_neg hc, if_neg hc]
  by_cases ht : kw (skipws p) kw_TRACK = true
  · rw [if_pos ht, if_pos ht, h.new_track ht]
  · rw [if_neg ht, if_neg ht]
    cases cur with
    | none => rfl
    | some t =>
      rw [← hcur] at h
      simp only
      congr 1
      unfold track_line
      rw [kw_line (by decide), kw_line (by decide), kw_line (by decide), kw_line (by decide),
        kw_line (by decide),
        kw_line (by decide), kw_line (by decide)]
      by_cases hisrc : kw (skipws p) kw_ISRC = true
      · rw [if_pos hisrc, if_pos hisrc, track_isrc_line hisrc]
      rw [if_neg hisrc, if_neg hisrc]
      by_cases hno : kw (skipws p) kw_NO = true
      · rw [if_pos hno, if_pos hno, h.track_no hno]
      rw [if_neg hno, if_neg hno]
      by_cases hfile : (kw (skipws p) kw_FILE || kw (skipws p) kw_AUDIOFILE) = true
      · rw [if_pos hfile, if_pos hfile, h.track_file hfile t]
      rw [if_neg hfile, if_neg hfile]
      by_cases hstart : kw (skipws p) kw_START = true
      · rw [if_pos hstart, if_pos hstart, h.start_pregap hstart]
      · rw [if_neg hstart, if_neg hstart]

/-! ## What a line that acts by itself says -/

section
variable {st s : TocText}

theorem cue_line_quotes (h : cue_line ar st p = .ok s) : ¬(line_of (skipws p)).count QUOTE % 2 = 1 := by
  intro hq
  unfold cue_line at h
  simp only [] at h
  rw [if_pos hq] at h
  cases h

theorem kw_other {k' : CText} (h : kw q k = true) (hk : k ≠ []) (hk' : k' ≠ []) (hd : k.head? ≠ k'.head?) :
    kw q k' = false := kw_of_head hk' fun he => hd ((kw_head h hk).symm.trans he)

/-- A TRACK line. -/
theorem cue_line_new (hq : ¬(line_of (skipws p)).count QUOTE % 2 = 1) (ht : kw (skipws p) kw_TRACK = true)
    (st : TocText) : cue_line ar st p = if 99 ≤ st.tracks.length then .error ACCUDISC_ERR_INVAL
      else .ok { st with before := st.tracks, cur := some (new_track (skipws p)) } := by
  have hc : kw (skipws p) kw_CATALOG = false := kw_other ht (by decide) (by decide) (by decide)
  unfold cue_line
  simp only []
  rw [if_neg hq, hc, if_neg (by decide), if_pos ht]

theorem LineLocal.new_track (h : LineLocal ar st p) (hok : cue_line ar st p = .ok s)
    (ht : kw (skipws p) kw_TRACK = true) : new_track (skipws p) = new_track (skipws (line_of p)) := by
  have hq := cue_line_quotes hok
  have hown : ¬(line_of (skipws (line_of p))).count QUOTE % 2 = 1 := by rwa [line_of_line]
  have heq : cue_line ar st p = cue_line ar st (line_of p) := h st.cur rfl
  rw [cue_line_new hq ht] at heq hok
  rw [cue_line_new hown ((kw_line (by decide) p).trans ht)] at heq
  by_cases hn : 99 ≤ st.tracks.length
  · rw [if_pos hn] at hok
    cases hok
  · rw [if_neg hn, if_neg hn] at heq
    have := congrArg TocText.cur (Except.ok.inj heq)
    exact Option.some.inj this

/-- Whatever the current track holds, the line leaves it as the line by itself does. -/
theorem LineLocal.track_line (h : LineLocal ar st p) (hok : cue_line ar st p = .ok s)
    (hcur : st.cur.isSome = true)
    (hc : kw (skipws p) kw_CATALOG = false) (ht : kw (skipws p) kw_TRACK = false) (t : ScannedTrack) :
    track_line ar t (skipws p) = track_line ar t (skipws (line_of p)) := by
  have hq := cue_line_quotes hok
  have hown : ¬(line_of (skipws (line_of p))).count QUOTE % 2 = 1 := by rwa [line_of_line]
  have heq := h (some t) hcur.symm
  rw [cue_line_track hq hc ht,
    cue_line_track hown ((kw_line (by decide) p).trans hc) ((kw_line (by decide) p).trans ht)]
    at heq
  cases h1 : Accudisc.track_line ar t (skipws p) with
  | error rc =>
    cases h2 : Accudisc.track_line ar t (skipws (line_of p)) with
    | error rc' =>
      rw [h1, h2] at heq
      exact congrArg Except.error (Except.error.inj heq)
    | ok u =>
      rw [h1, h2] at heq
      cases heq
  | ok t' =>
    cases h2 : Accudisc.track_line ar t (skipws (line_of p)) with
    | error rc' =>
      rw [h1, h2] at heq
      cases heq
    | ok u =>
      rw [h1, h2] at heq
      have := congrArg TocText.cur (Except.ok.inj heq)
      exact congrArg Except.ok (Option.some.inj this)

/-- The NO line of a track that has both flags. -/
theorem LineLocal.track_no (h : LineLocal ar st p) (hok : cue_line ar st p = .ok s)
    (hcur : st.cur.isSome = true)
    (hk : kw (skipws p) kw_NO = true) (t : ScannedTrack) :
    track_no t (skipws p) = track_no t (skipws (line_of p)) := by
  have := h.track_line hok hcur (kw_other hk (by decide) (by decide) (by decide))
    (kw_other hk (by decide) (by decide) (by decide)) t
  rw [track_line_no hk, track_line_no ((kw_line (by decide) p).trans hk)] at this
  exact Except.ok.inj this

/-- **A line that acts by itself** is not completed by those behind it. -/
theorem LineLocal.kept (h : LineLocal ar st p) (hok : cue_line ar st p = .ok s) :
    LineKept ar st.cur.isSome p := by
  let both : ScannedTrack := ⟨⟨true, true, true, [], 0, 0, 0, 0⟩, true⟩
  refine ⟨fun ht hlen ha => ?_, fun hcur hk hpre => ?_, fun hcur hk hcopy => ?_, fun hcur hk =>
    ?_, fun hcur hk => ?_⟩
  · have haudio := congrArg (·.track.audio) (h.new_track hok ht)
    simp only [Accudisc.new_track, ha, line_of_line, decide_eq_true hlen, Bool.and_true] at haudio
    exact haudio.symm
  · have hno := congrArg (·.track.preemphasis) (h.track_no hok hcur hk both)
    by_contra hown
    unfold Accudisc.track_no at hno
    rw [if_pos hpre, if_neg hown] at hno
    split at hno
    · cases hno
    · cases hno
  · have hno := h.track_no hok hcur hk both
    by_contra hown
    rw [not_or] at hown
    unfold Accudisc.track_no at hno
    rw [if_neg hown.1, if_neg hown.2] at hno
    split at hno
    · have := congrArg (·.track.preemphasis) hno
      cases this
    · have := congrArg (·.track.copy) hno
      cases this
  · obtain ⟨t, ht⟩ := Option.isSome_iff_exists.1 hcur
    have hheads : kw (skipws p) kw_CATALOG = false ∧ kw (skipws p) kw_TRACK = false := by
      rcases Bool.or_eq_true_iff.1 hk with hk | hk
      · exact ⟨kw_other hk (by decide) (by decide) (by decide),
          kw_other hk (by decide) (by decide) (by decide)⟩
      · exact ⟨kw_other hk (by decide) (by decide) (by decide),
          kw_other hk (by decide) (by decide) (by decide)⟩
    have heq := h.track_line hok hcur hheads.1 hheads.2 t
    have hokt : cue_line ar { st with cur := some t } p = .ok s := by
      rw [← ht]
      exact hok
    rw [cue_line_track (cue_line_quotes hok) hheads.1 hheads.2, heq,
      track_line_file (by rwa [kw_line (by decide), kw_line (by decide)])] at hokt
    intro hnone
    unfold Accudisc.track_file at hokt
    rw [hnone] at hokt
    cases hokt
  · obtain ⟨t, -⟩ := Option.isSome_iff_exists.1 hcur
    have heq := h.track_line hok hcur (kw_other hk (by decide) (by decide) (by decide))
      (kw_other hk (by decide) (by decide) (by decide)) t
    rw [track_line_start hk, track_line_start ((kw_line (by decide) p).trans hk)] at heq
    have hpre : start_pregap ar (skipws p) = start_pregap ar (skipws (line_of p)) :=
      congrArg (·.track.pregap) (Except.ok.inj heq)
    by_cases hnone : parse_msf ar ((skipws (line_of p)).drop 5) = none
    · refine .inr (hpre.trans ?_)
      unfold Accudisc.start_pregap
      rw [hnone]
    · exact .inl hnone

/-! ## The text, line by line -/

/-- A current track is there after a TRACK line. -/
theorem cue_line_opened (h : cue_line ar st p = .ok s) :
    s.cur.isSome = (st.cur.isSome || kw (skipws p) kw_TRACK) := by
  have hq := cue_line_quotes h
  by_cases ht : kw (skipws p) kw_TRACK = true
  · rw [cue_line_new hq ht] at h
    split at h
    · cases h
    · rw [← Except.ok.inj h, ht, Bool.or_true]
      rfl
  · have ht : kw (skipws p) kw_TRACK = false := Bool.eq_false_iff.2 ht
    rw [ht, Bool.or_false]
    unfold cue_line at h
    simp only [] at h
    rw [if_neg hq, ht] at h
    split at h
    · rw [← Except.ok.inj h]
      unfold catalog
      split <;> rfl
    · rw [if_neg (by decide)] at h
      cases hcur : st.cur with
      | none =>
        rw [hcur] at h
        rw [← Except.ok.inj h, hcur]
      | some t =>
        rw [hcur] at h
        simp only at h
        cases hl : Accudisc.track_line ar t (skipws p) with
        | error rc =>
          rw [hl] at h
          cases h
        | ok t' =>
          rw [hl] at h
          rw [← Except.ok.inj h]
          rfl

theorem scan_snoc_ok {ps : List CText} (h : (ps ++ [p]).foldlM (cue_line ar) {} = .ok s) :
    ∃ st, ps.foldlM (cue_line ar) {} = .ok st ∧ cue_line ar st p = .ok s := by
  rw [List.foldlM_append] at h
  cases hs : ps.foldlM (cue_line ar) {} with
  | error rc =>
    rw [hs] at h
    cases h
  | ok st =>
    rw [hs] at h
    refine ⟨st, rfl, ?_⟩
    change (cue_line ar st p >>= fun s => pure s) = .ok s at h
    rwa [bind_pure] at h

theorem scan_opened {ps : List CText} (h : ps.foldlM (cue_line ar) {} = .ok st) :
    st.cur.isSome = ps.any fun q => kw (skipws q) kw_TRACK := by
  induction ps using List.reverseRecOn generalizing st with
  | nil => rw [← Except.ok.inj h]; rfl
  | append_singleton ps p ih =>
    obtain ⟨st', hst', hl⟩ := scan_snoc_ok h
    rw [cue_line_opened hl, ih hst', List.any_append]
    simp

/-- The scan up to a line, and over it. -/
theorem scan_split {ps rest : List CText} (h : (ps ++ p :: rest).foldlM (cue_line ar) {} = .ok s) :
    ∃ st s', ps.foldlM (cue_line ar) {} = .ok st ∧ cue_line ar st p = .ok s' ∧
      rest.foldlM (cue_line ar) s' = .ok s := by
  rw [List.foldlM_append] at h
  cases hs : ps.foldlM (cue_line ar) {} with
  | error rc =>
    rw [hs] at h
    cases h
  | ok st =>
    rw [hs] at h
    change (cue_line ar st p >>= fun s' => rest.foldlM (cue_line ar) s') = .ok s at h
    cases hl : cue_line ar st p with
    | error rc =>
      rw [hl] at h
      cases h
    | ok s' =>
      rw [hl] at h
      exact ⟨st, s', rfl, hl, h⟩

end

/-- The lines of a text. -/
def toc_lines (text : CText) : List CText := (line_starts true text).map line_of

/-- Every line of the text acts by itself. -/
def TextLocal (text : CText) : Prop :=
  ∀ ps p rest st, line_starts true text = ps ++ p :: rest → ps.foldlM (cue_line machine) {} = .ok st →
    LineLocal machine st p

/-- No line of the text is completed by those behind it. -/
def TextKept (text : CText) : Prop :=
  ∀ ps p rest, line_starts true text = ps ++ p :: rest →
    LineKept machine (ps.any fun q => kw (skipws q) kw_TRACK) p

/-- The scan of lines that act by themselves is a walk over the lines. -/
theorem TextLocal.scan {text : CText} (h : TextLocal text) (ps rest : List CText)
    (hp : line_starts true text = ps ++ rest) :
    ps.foldlM (cue_line machine) {} = (ps.map line_of).foldlM (cue_line machine) {} := by
  induction ps using List.reverseRecOn generalizing rest with
  | nil => rfl
  | append_singleton ps p ih =>
    rw [List.append_assoc] at hp
    have ih := ih _ hp
    rw [List.map_append, List.foldlM_append, List.foldlM_append, ← ih]
    cases hs : ps.foldlM (cue_line machine) {} with
    | error rc => rfl
    | ok st =>
      have hl : cue_line machine st p = cue_line machine st (line_of p) := h ps p rest st hp hs st.cur rfl
      show (cue_line machine st p >>= fun s => pure s) =
        (cue_line machine st (line_of p) >>= fun s => pure s)
      rw [hl]

/-- What a text is to do line by line: each directive has the effect of its own line, so that texts that
begin with the same lines are read alike up to there; a track is one whose own TRACK line says AUDIO; and
a NO line clears the flag that it names. -/
structure TextRight (text : CText) : Prop where
  own : TextLocal text
  alike : ∀ text' toc', adsc_toc_parse_cue text' = .ok toc' → TextLocal text' → ∀ n,
    (toc_lines text').take n = (toc_lines text).take n →
      ((line_starts true text').take n).foldlM (cue_line machine) {} =
        ((line_starts true text).take n).foldlM (cue_line machine) {}
  audio : ∀ p ∈ line_starts true text, kw (skipws p) kw_TRACK = true → strstr (line_of p) kw_AUDIO = true
  no : ∀ ps p rest st t, line_starts true text = ps ++ p :: rest →
    ps.foldlM (cue_line machine) {} = .ok st →
    st.cur = some t → kw (skipws p) kw_NO = true →
      cue_line machine st p = .ok { st with cur := some (track_no t (skipws (line_of p))) }

/-! ## Audio -/

theorem track_isrc_audio (t : ScannedTrack) (ls : CText) :
    (track_isrc t ls).track.audio = t.track.audio := by
  unfold track_isrc
  split
  · rfl
  · split <;> rfl

theorem track_no_audio (t : ScannedTrack) (ls : CText) : (track_no t ls).track.audio = t.track.audio := by
  unfold track_no
  split
  · rfl
  · split <;> rfl

theorem track_file_audio {t t' : ScannedTrack} {ls : CText} (h : track_file ar t ls = .ok t') :
    t'.track.audio = t.track.audio := by
  unfold track_file at h
  split at h
  · cases h
  · rw [← Except.ok.inj h]

/-- The audio flag of a track is that of its TRACK line. -/
theorem track_line_audio {t t' : ScannedTrack} {ls : CText} (h : track_line ar t ls = .ok t') :
    t'.track.audio = t.track.audio := by
  unfold track_line at h
  by_cases hisrc : kw ls kw_ISRC = true
  · rw [if_pos hisrc] at h
    rw [← Except.ok.inj h, track_isrc_audio]
  rw [if_neg hisrc] at h
  by_cases hno : kw ls kw_NO = true
  · rw [if_pos hno] at h
    rw [← Except.ok.inj h, track_no_audio]
  rw [if_neg hno] at h
  by_cases hpre : kw ls kw_PRE_EMPHASIS = true
  · rw [if_pos hpre] at h
    rw [← Except.ok.inj h]
  rw [if_neg hpre] at h
  by_cases hcopy : kw ls kw_COPY = true
  · rw [if_pos hcopy] at h
    rw [← Except.ok.inj h]
  rw [if_neg hcopy] at h
  by_cases hfile : (kw ls kw_FILE || kw ls kw_AUDIOFILE) = true
  · rw [if_pos hfile] at h
    exact track_file_audio h
  rw [if_neg hfile] at h
  by_cases hstart : kw ls kw_START = true
  · rw [if_pos hstart] at h
    rw [← Except.ok.inj h]
  · rw [if_neg hstart] at h
    rw [← Except.ok.inj h]

/-- A track that is not audio stays in the model. -/
theorem cue_line_data {st s : TocText} (h : cue_line ar st p = .ok s)
    (hd : ∃ t ∈ st.tracks, t.track.audio = false) :
    ∃ t ∈ s.tracks, t.track.audio = false := by
  have hq := cue_line_quotes h
  unfold cue_line at h
  simp only [] at h
  rw [if_neg hq] at h
  by_cases hcat : kw (skipws p) kw_CATALOG = true
  · rw [if_pos hcat] at h
    rw [← Except.ok.inj h]
    unfold catalog
    split <;> exact hd
  rw [if_neg hcat] at h
  by_cases htrack : kw (skipws p) kw_TRACK = true
  · rw [if_pos htrack] at h
    by_cases hfull : 99 ≤ st.tracks.length
    · rw [if_pos hfull] at h
      cases h
    · rw [if_neg hfull] at h
      rw [← Except.ok.inj h]
      obtain ⟨t, ht, ha⟩ := hd
      exact ⟨t, List.mem_append_left _ ht, ha⟩
  · rw [if_neg htrack] at h
    cases hcur : st.cur with
    | none =>
      rw [hcur] at h
      exact Except.ok.inj h ▸ hd
    | some t =>
      rw [hcur] at h
      simp only at h
      cases hl : track_line ar t (skipws p) with
      | error rc =>
        rw [hl] at h
        cases h
      | ok t' =>
        rw [hl] at h
        obtain ⟨u, hu, ha⟩ := hd
        unfold TocText.tracks at hu
        rw [hcur] at hu
        rw [← Except.ok.inj h]
        rcases List.mem_append.1 hu with hu | hu
        · exact ⟨u, List.mem_append_left _ hu, ha⟩
        · refine ⟨t', List.mem_append_right _ (by simp), ?_⟩
          rw [track_line_audio hl, ← ha, List.mem_singleton.1 hu]

theorem scan_data {ps : List CText} {st s : TocText} (h : ps.foldlM (cue_line ar) st = .ok s)
    (hd : ∃ t ∈ st.tracks, t.track.audio = false) : ∃ t ∈ s.tracks, t.track.audio = false := by
  induction ps generalizing st with
  | nil => exact Except.ok.inj h ▸ hd
  | cons p ps ih =>
    rw [List.foldlM_cons] at h
    cases hl : cue_line ar st p with
    | error rc =>
      rw [hl] at h
      cases h
    | ok st' =>
      rw [hl] at h
      exact ih h (cue_line_data hl hd)

/-- The second pass takes audio tracks only. -/
theorem toc_layout_audio {ts : List ScannedTrack} {c : Nat} {x : List WriteTrack × Nat}
    (h : toc_layout c ts = .ok x) :
    ∀ t ∈ ts, t.track.audio = true := by
  induction ts generalizing c x with
  | nil => exact fun t ht => by cases ht
  | cons u ts ih =>
    unfold toc_layout at h
    -- refused: a data track, no file of its own, a pregap longer than it
    by_cases ha : u.track.audio = false
    · rw [if_pos ha] at h
      cases h
    rw [if_neg ha] at h
    by_cases hfile : u.have_file = false
    · rw [if_pos hfile] at h
      cases h
    rw [if_neg hfile] at h
    by_cases hpregap : u.track.sectors < u.track.pregap
    · rw [if_pos hpregap] at h
      cases h
    rw [if_neg hpregap] at h
    intro t ht
    rcases List.mem_cons.1 ht with rfl | ht
    · simpa using ha
    · cases hr : toc_layout (u32 (c + u.track.sectors)) ts with
      | error rc =>
        rw [hr] at h
        cases h
      | ok y => exact ih hr t ht

section
variable {text : CText} {toc : WriteToc}

theorem scan_of_parse (h : adsc_toc_parse_cue text = .ok toc) :
    ∃ s, toc_scan machine text = .ok s ∧ ∀ t ∈ s.tracks, t.track.audio = true := by
  unfold adsc_toc_parse_cue at h
  cases hs : toc_scan machine text with
  | error rc =>
    rw [hs] at h
    cases h
  | ok s =>
    rw [hs] at h
    simp only at h
    split at h
    · cases h
    refine ⟨s, rfl, ?_⟩
    cases hl : toc_layout 0 s.tracks with
    | error rc =>
      rw [hl] at h
      cases h
    | ok r => exact toc_layout_audio hl

/-- **The lines of the parser**: the directives of an accepted text have the effect of their own lines
exactly where no line is completed by those behind it. -/
theorem adsc_toc_parse_cue_lines_iff (h : adsc_toc_parse_cue text = .ok toc) :
    TextRight text ↔ TextKept text := by
  obtain ⟨s, hs, haudio⟩ := scan_of_parse h
  unfold toc_scan at hs
  constructor
  · intro hright ps p rest hp
    rw [hp] at hs
    obtain ⟨st, s', hst, hl, -⟩ := scan_split hs
    rw [← scan_opened hst]
    exact (hright.own ps p rest st hp hst).kept hl
  · intro hkept
    have hlocal : TextLocal text := by
      intro ps p rest st hp hst
      have := hkept ps p rest hp
      rw [← scan_opened hst] at this
      exact this.local
    refine ⟨hlocal, fun text' toc' _ hlocal' n hn => ?_, fun p hp ht =>
      ?_, fun ps p rest st t hp hst hcur hk => ?_⟩
    · rw [hlocal'.scan _ _ (List.take_append_drop n _).symm,
        hlocal.scan _ _ (List.take_append_drop n _).symm,
        List.map_take, List.map_take]
      exact congrArg _ hn
    · obtain ⟨ps, rest, hsplit⟩ := List.append_of_mem hp
      rw [hsplit] at hs
      obtain ⟨st, s', hst, hl, hrest⟩ := scan_split hs
      have hnew : (new_track (skipws p)).track.audio = true := by
        by_contra hno
        obtain ⟨t, ht', ha⟩ := scan_data hrest ⟨new_track (skipws p), by
          rw [cue_line_new (cue_line_quotes hl) ht] at hl
          split at hl
          · cases hl
          · rw [← Except.ok.inj hl]
            exact List.mem_append_right _ (by simp), Bool.eq_false_iff.2 hno⟩
        rw [haudio t ht'] at ha
        cases ha
      simp only [new_track, Bool.and_eq_true, decide_eq_true_eq] at hnew
      have hown := (hkept ps p rest hsplit).track ht hnew.2 hnew.1
      unfold strstr at hown ⊢
      rw [decide_eq_true_eq] at hown ⊢
      exact hown.trans (List.dropWhile_suffix _).isInfix
    · rw [hp] at hs
      obtain ⟨st', s', hst', hl, -⟩ := scan_split hs
      rw [hst] at hst'
      cases hst'
      have hopen : st.cur.isSome = true := by rw [hcur]; rfl
      have heq := (hlocal ps p rest st hp hst).track_no hl hopen hk t
      rw [← heq]
      have hline : cue_line machine { st with cur := some t } p = _ :=
        cue_line_track (cue_line_quotes hl) (kw_other hk (by decide) (by decide) (by decide))
          (kw_other hk (by decide) (by decide) (by decide)) st t
      rw [track_line_no hk, ← hcur] at hline
      exact hline

end

/-- A disc of one track, of the kind that its TRACK line says, in a file that is called AUDIO. -/
def track_toc (kind : CText) : CText :=
  kw_TRACK ++ [0x20] ++ kind ++ [NL] ++ kw_FILE ++ [0x20, QUOTE] ++ kw_AUDIO ++ [QUOTE, 0x20, 0x30, 0x20] ++
    chars ['0', ':', '2', ':', '0'] ++ [NL]

/-- A kind of data track. -/
def mode1 : CText := chars ['M', 'O', 'D', 'E', '1']

theorem adsc_toc_parse_cue_lines_iff_audio : ∃ toc, adsc_toc_parse_cue (track_toc kw_AUDIO) = .ok toc ∧
    (TextRight (track_toc kw_AUDIO) ↔ TextKept (track_toc kw_AUDIO)) := by
  have hok : (adsc_toc_parse_cue (track_toc kw_AUDIO)).toOption.isSome = true := by decide +kernel
  cases h : adsc_toc_parse_cue (track_toc kw_AUDIO) with
  | error rc =>
    rw [h] at hok
    cases hok
  | ok toc => exact ⟨toc, rfl, adsc_toc_parse_cue_lines_iff h⟩

/-- A data track is taken for audio: the name of its file says so. -/
theorem data_track_taken : ¬∀ text toc, adsc_toc_parse_cue text = .ok toc → TextRight text := by
  intro h
  have hok : (adsc_toc_parse_cue (track_toc mode1)).toOption.isSome = true := by decide +kernel
  cases hp : adsc_toc_parse_cue (track_toc mode1) with
  | error rc =>
    rw [hp] at hok
    cases hok
  | ok toc =>
    have haudio := (h _ toc hp).audio (track_toc mode1) (by decide +kernel) (by decide +kernel)
    exact absurd haudio (by decide +kernel)

end Accudisc
