import Accudisc.Meta.Proof.CdText

/-!
# CD-Text attribution is a round trip

Each string comes back for its own track (`accudisc_cdtext_round_trip`): where a string follows an omission,
a payload begins somewhere in it, and sets the track before its NUL is read.
-/

namespace Accudisc

/-- Where a string follows an omission, a payload begins with it or later in it. -/
def Findable (given : Nat → Option (List (BitVec 8))) : Prop :=
  ∀ t s, given (t + 1) = some s → given t = none →
    (text_before given (t + 1)).length % 12 = 0 ∨
      (text_before given (t + 1)).length / 12 < ((text_before given (t + 1)).length + s.length) / 12

/-- No payload is lost. -/
def whole : Nat → Bool := fun _ => false

section
variable {a : Assembler} {p t : Nat} {s : List (BitVec 8)} {given : Nat → Option (List (BitVec 8))}

theorem text_step_whole (c : BitVec 8) : text_step whole a ((t, c), p) =
    put_char (if p % 12 = 0 then { a with track := t } else a) c := rfl

/-- The bytes of a string are collected, and a payload that begins among them sets the track. -/
theorem text_run_string (hs : ∀ c ∈ s, c ≠ 0) (hlen : a.buf.length + s.length < ACCUDISC_TEXT_MAX) :
    ∃ track, text_run whole p a (s.map (t, ·)) = { a with buf := a.buf ++ s, track := track } ∧
      (track = a.track ∨ track = t) ∧ ∀ q, p ≤ q → q < p + s.length → q % 12 = 0 → track = t := by
  induction s generalizing a p with
  | nil =>
    exact ⟨a.track, by rw [List.append_nil]; rfl, .inl rfl, fun q hq hlt => absurd hlt (by simpa using hq)⟩
  | cons c s ih =>
    obtain ⟨hc, hs⟩ := List.forall_mem_cons.1 hs
    rw [List.length_cons] at hlen
    have hput : ∀ track, put_char { a with track := track } c =
      { a with track := track, buf := a.buf ++ [c] } := by
      intro track
      unfold put_char
      rw [if_pos hc, if_pos (by show a.buf.length < _; omega)]
    have hstep : ∃ track, text_step whole a ((t, c), p) = { a with track := track, buf := a.buf ++ [c] } ∧
        (track = a.track ∨ track = t) ∧ (p % 12 = 0 → track = t) := by
      rw [text_step_whole]
      split
      · exact ⟨t, hput t, .inr rfl, fun _ => rfl⟩
      · next hno => exact ⟨a.track, hput a.track, .inl rfl, fun h => absurd h hno⟩
    obtain ⟨track, hstep, hor, hset⟩ := hstep
    obtain ⟨track', hrun, hor', hset'⟩ := @ih { a with track := track, buf := a.buf ++ [c] } (p + 1) hs
      (by rw [List.length_append]; simp only [List.length_singleton]; omega)
    refine ⟨track', ?_, ?_, fun q hq hlt hmod => ?_⟩
    · rw [List.map_cons, text_run_cons, hstep, hrun, List.append_assoc]
      rfl
    · rcases hor' with h | h
      · exact hor.imp (h.trans ·) (h.trans ·)
      · exact .inr h
    · by_cases hp : q = p
      · subst hp
        rcases hor' with h | h
        · exact h.trans (hset hmod)
        · exact h
      · exact hset' q (by omega) (by rw [List.length_cons] at hlt; omega) hmod

/-- **One string**: it goes to its own track, when the track is set or a payload begins in it. -/
theorem text_run_entry (hs : ∀ c ∈ s, c ≠ 0) (hlen : s.length < ACCUDISC_TEXT_MAX) (ht : t ≤ 99)
    (hbuf : a.buf = [])
    (htrack : a.track = t ∨ ∃ q, p ≤ q ∧ q ≤ p + s.length ∧ q % 12 = 0) :
    text_run whole p a (s.map (t, ·) ++ [(t, 0)]) =
      { text := Function.update a.text t (Assembler.commit ⟨a.text, t, s⟩), track := t + 1, buf := [] } := by
  obtain ⟨track, hrun, hor, hset⟩ := @text_run_string a p t s hs (by rw [hbuf]; simpa using hlen)
  rw [text_run_append, hrun, List.length_map, hbuf, List.nil_append]
  show text_step whole ⟨a.text, track, s⟩ ((t, 0), p + s.length) = _
  have hnul : (if (p + s.length) % 12 = 0 then { (⟨a.text, track, s⟩ : Assembler) with track := t }
      else ⟨a.text, track, s⟩) = ⟨a.text, t, s⟩ := by
    split
    · rfl
    · next hno =>
      have : track = t := by
        rcases htrack with h | ⟨q, hq, hle, hmod⟩
        · exact hor.elim (·.trans h) id
        · exact hset q hq (lt_of_le_of_ne hle fun h => hno (h ▸ hmod)) hmod
      rw [this]
  rw [text_step_whole, hnul]
  unfold put_char
  rw [if_neg (not_not.2 rfl), field_for_of_le ht]

/-- What goes into the field of a track, when those before it hold what was said. -/
theorem commit_spoken {text : Nat → List (BitVec 8)} (hg : given t = some s) (ht : t ≤ 99)
    (htext : ∀ u < t, text u = spoken given u) : Assembler.commit ⟨text, t, s⟩ = spoken given t := by
  unfold Assembler.commit
  cases t with
  | zero =>
    rw [if_neg fun h => absurd (show (1 : Int) ≤ 0 from h.2) (by decide)]
    show s = (given 0).getD []
    rw [hg]
    rfl
  | succ t =>
    rw [spoken, hg]
    dsimp only
    have hone : (1 : Int) ≤ ((t + 1 : Nat) : Int) := by omega
    by_cases htab : s = [TAB]
    · rw [if_pos ⟨htab, hone⟩, if_pos htab, show ((t + 1 : Nat) : Int) - 1 = t by omega,
        field_for_of_le (by omega)]
      exact htext t (Nat.lt_succ_self t)
    · rw [if_neg fun h => htab h.1, if_neg htab]

/-- After the strings before track `t`. -/
structure SaidBefore (given : Nat → Option (List (BitVec 8))) (t : Nat) (a : Assembler) : Prop where
  buf : a.buf = []
  text : ∀ u, a.text u = if u < t then spoken given u else []
  track : ∀ v, v + 1 = t → given v ≠ none → a.track = t
  rest : ∀ u : Nat, a.track ≤ u → a.text u = []

theorem spoken_none (hg : given t = none) : spoken given t = [] := by
  cases t with
  | zero => rw [spoken, hg]; rfl
  | succ t => rw [spoken, hg]

/-- **The next track**. -/
theorem SaidBefore.next (h : SaidBefore given t a) (ht : t ≤ 99) (hgap : Findable given)
    (hstr : ∀ s, given t = some s → (∀ c ∈ s, c ≠ 0) ∧ s.length < ACCUDISC_TEXT_MAX) :
    SaidBefore given (t + 1) (text_run whole (text_before given t).length a (text_entry given t)) := by
  unfold text_entry
  cases hg : given t with
  | none =>
    refine ⟨h.buf, fun u => ?_, fun v hv hne => absurd (by rw [Nat.succ.inj hv, hg]) hne, h.rest⟩
    show a.text u = _
    rw [h.text u]
    by_cases hu : u = t
    · subst hu
      rw [if_neg (Nat.lt_irrefl u), if_pos (Nat.lt_succ_self u), spoken_none hg]
    · exact if_congr (by omega) rfl rfl
  | some s =>
    obtain ⟨hs, hlen⟩ := hstr s hg
    have htrack : a.track = t ∨ ∃ q, (text_before given t).length ≤ q ∧
        q ≤ (text_before given t).length + s.length ∧ q % 12 = 0 := by
      cases t with
      | zero => exact .inr ⟨0, Nat.le_refl 0, Nat.zero_le _, rfl⟩
      | succ v =>
        cases hv : given v with
        | some r => exact .inl (h.track v rfl (by rw [hv]; exact Option.some_ne_none r))
        | none =>
          refine .inr ?_
          rcases hgap v s hg hv with hstart | hlater
          · exact ⟨_, Nat.le_refl _, Nat.le_add_right _ _, hstart⟩
          · exact ⟨((text_before given (v + 1)).length + s.length) / 12 * 12, by omega, by omega, by omega⟩
    have htold : ∀ u < t, a.text u = spoken given u := fun u hu => by rw [h.text u, if_pos hu]
    rw [text_run_entry hs hlen ht h.buf htrack, commit_spoken hg ht htold]
    have htext : ∀ u, Function.update a.text t (spoken given t) u = if u < t + 1 then
      spoken given u else [] := by
      intro u
      by_cases hu : u = t
      · rw [hu, Function.update_self, if_pos (Nat.lt_succ_self t)]
      · rw [Function.update_of_ne hu, h.text u]
        exact if_congr (by omega) rfl rfl
    refine ⟨rfl, htext, fun _ _ _ => rfl, fun u hu => ?_⟩
    have hu : (t : Int) + 1 ≤ u := hu
    exact (htext u).trans (if_neg (by omega))

theorem text_before_succ : text_before given (t + 1) = text_before given t ++ text_entry given t := by
  unfold text_before
  rw [List.range_succ, List.flatMap_append, List.flatMap_cons, List.flatMap_nil, List.append_nil]

/-- **All tracks**. -/
theorem said_run (hgap : Findable given)
    (hstr : ∀ t s, given t = some s → (∀ c ∈ s, c ≠ 0) ∧ s.length < ACCUDISC_TEXT_MAX) (t : Nat)
      (ht : t ≤ 100) :
    SaidBefore given t (text_run whole 0 {} (text_before given t)) := by
  induction t with
  | zero => exact ⟨rfl, fun _ => rfl, fun v hv => absurd hv (Nat.succ_ne_zero v), fun _ _ => rfl⟩
  | succ t ih =>
    rw [text_before_succ, text_run_append, Nat.zero_add]
    exact (ih (by omega)).next (by omega) hgap (hstr t)

/-- **One type**: every field of it says what it was given. -/
theorem text_end_whole (hgap : Findable given)
    (hstr : ∀ t s, given t = some s → (∀ c ∈ s, c ≠ 0) ∧ s.length < ACCUDISC_TEXT_MAX) (ht : t ≤ 99) :
    (text_end given whole).text t = spoken given t := by
  have h : SaidBefore given 100 (text_run whole 0 {} (text_stream given)) := said_run hgap hstr 100 le_rfl
  unfold text_end
  rw [text_run_append, Nat.zero_add, text_run_pad fun _ _ => ⟨h.buf, h.rest⟩]
  exact (h.text t).trans (if_pos (by omega))

end

/-! ## The blob -/

section
variable {given : TextType → Nat → Option (List (BitVec 8))} {packs : List TextPack} {raw : Mem}

theorem spoken_self {given : Nat → Option (List (BitVec 8))} {t : Nat} {s : List (BitVec 8)}
    (hg : given t = some s)
    (hs : s ≠ [TAB] ∨ t = 0) : spoken given t = s := by
  cases t with
  | zero => rw [spoken, hg]; rfl
  | succ t =>
    rw [spoken, hg]
    exact if_neg (hs.resolve_right (Nat.succ_ne_zero t))

/-- A string is in some pack. -/
theorem Mixed.any (hmix : Mixed given (fun _ => whole) packs) {ty : TextType} {t : Nat} (ht : t ≤ 99)
    (hg : given ty t ≠ none) : packs.any TextPack.intact = true := by
  obtain ⟨s, hs⟩ := Option.ne_none_iff_exists'.1 hg
  have hmem : (t, (0 : BitVec 8)) ∈ text_stream (given ty) := by
    refine List.mem_flatMap.2 ⟨t, List.mem_range.2 (by omega), ?_⟩
    unfold text_entry
    rw [hs]
    exact List.mem_append_right _ (List.mem_singleton.2 rfl)
  have hpos := List.length_pos_of_mem hmem
  have hpack : ∃ x ∈ type_packs ty whole (text_stream (given ty)), x.intact = true :=
    ⟨_, List.mem_map.2 ⟨0, List.mem_range.2 (by omega), rfl⟩, rfl⟩
  obtain ⟨x, hx, hin⟩ := hpack
  rw [← hmix ty] at hx
  exact List.any_eq_true.2 ⟨x, (List.mem_filter.1 hx).1, hin⟩

/-- **The round trip**: where some string is given, the text has each string for its own track, nothing for
every other track, and for a TAB alone the string of the track before. -/
theorem accudisc_cdtext_round_trip
    (hstr : ∀ ty t s, given ty t = some s → (∀ c ∈ s, c ≠ 0) ∧ s.length < ACCUDISC_TEXT_MAX)
    (hgap : ∀ ty, Findable (given ty)) (hsome : ∃ ty t, t ≤ 99 ∧ given ty t ≠ none)
    (hmix : Mixed given (fun _ => whole) packs) (hraw : Carries raw packs) :
    ∃ text, accudisc_cdtext_decode raw (4 + packs.length * ADSC_CDTEXT_PACK_BYTES) true = .ok text ∧
      ∀ ty t, t ≤ 99 → (given ty t = none → text ty t = []) ∧
        (∀ s, given ty t = some s → s ≠ [TAB] ∨ t = 0 → text ty t = s) ∧
        (∀ u, t = u + 1 → given ty t = some [TAB] → text ty t = text ty u) := by
  obtain ⟨ty₀, t₀, ht₀, hg₀⟩ := hsome
  refine ⟨_, (decode_text hmix hraw).trans (if_pos (hmix.any ht₀ hg₀)), fun ty t ht => ?_⟩
  have htext : ∀ u ≤ 99, (text_end (given ty) whole).text u = spoken (given ty) u := fun u hu =>
    text_end_whole (hgap ty) (hstr ty) hu
  refine ⟨fun hg => ?_, fun s hg hs => ?_, ?_⟩
  · rw [htext t ht, spoken_none hg]
  · rw [htext t ht, spoken_self hg hs]
  · rintro u rfl hg
    rw [htext _ ht, htext u (by omega), spoken, hg]
    exact if_pos rfl

end

/-- Two titles, of tracks 1 and 3, the second over a payload's end. -/
def two_titles : TextType → Nat → Option (List (BitVec 8))
  | .title, 1 => some (List.replicate 8 0x41)
  | .title, 3 => some (List.replicate 5 0x42)
  | _, _ => none

/-- Their packs. -/
def two_titles_packs : List TextPack := type_packs .title whole (text_stream (two_titles .title))

theorem two_titles_mixed : Mixed two_titles (fun _ => whole) two_titles_packs := by
  intro ty
  cases ty <;> decide

theorem accudisc_cdtext_round_trip_two :
    ∃ text, accudisc_cdtext_decode (blob_of two_titles_packs) 40 true = .ok text ∧
      text .title 1 = List.replicate 8 0x41 ∧ text .title 2 = [] ∧
        text .title 3 = List.replicate 5 0x42 := by
  have hstr : ∀ ty t s, two_titles ty t = some s → (∀ c ∈ s, c ≠ 0) ∧ s.length < ACCUDISC_TEXT_MAX := by
    intro ty t s h
    unfold two_titles at h
    split at h <;> cases h <;> decide
  have hgap : ∀ ty, Findable (two_titles ty) := by
    intro ty t s hs hnone
    unfold two_titles at hs
    split at hs
    · next heq =>
      cases heq
      exact .inl rfl
    · next heq =>
      cases heq
      cases hs
      exact .inr (by decide)
    · cases hs
  obtain ⟨text, hok, htext⟩ := accudisc_cdtext_round_trip hstr hgap ⟨.title, 1, by decide, by decide⟩
    two_titles_mixed (blob_of_carries two_titles_packs)
  exact ⟨text, hok, (htext .title 1 (by decide)).2.1 _ rfl (.inl (by decide)),
    (htext .title 2 (by decide)).1 rfl, (htext .title 3 (by decide)).2.1 _ rfl (.inl (by decide))⟩

/-- Where no string is given there is no pack, and no text. -/
theorem nothing_given : Mixed (fun _ _ => none) (fun _ => whole) [] ∧ Carries (fun _ => 0) [] ∧
    accudisc_cdtext_decode (fun _ => 0) 4 true = .error ACCUDISC_ERR_SHORT := by
  refine ⟨fun ty => ?_, fun i x hx => ?_, rfl⟩
  · cases ty <;> rfl
  · cases hx

end Accudisc
