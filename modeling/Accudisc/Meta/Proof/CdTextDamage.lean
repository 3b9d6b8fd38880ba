import Accudisc.Meta.Proof.CdTextRoundTrip

/-!
# CD-Text from damaged packs

An assembler keeps what it has collected over the packs that are lost, so a field holds what arrived since
the last NUL that arrived (`text_end_lossy`), and this is a string of the disc or nothing only where the
losses fall so (`cdtext_damage_law`).
-/

namespace Accudisc

/-- The strings of the album and of all tracks to `n`. -/
def all_tracks (n : Nat) (s : Nat → List (BitVec 8)) : Nat → Option (List (BitVec 8)) := fun t =>
  if t ≤ n then some (s t) else none

/-- The bytes of the intact payloads before place `p`. -/
def bytes_before (lost : Nat → Bool) (l : List TextByte) (p : Nat) : List (BitVec 8) :=
  ((List.range p).filter fun q => !lost (q / 12)).map fun q => (l.getD q (0, 0)).2

/-- Those of them after the last NUL, as many as a string can have. -/
def since_nul (lost : Nat → Bool) (l : List TextByte) (p : Nat) : List (BitVec 8) :=
  (((bytes_before lost l p).reverse.takeWhile (· ≠ 0)).reverse).take (ACCUDISC_TEXT_MAX - 1)

/-- What arrived for a track: the bytes before its NUL, when the payload of its NUL is intact. -/
def arrived (lost : Nat → Bool) (l : List TextByte) (t : Nat) : Option (List (BitVec 8)) :=
  ((List.range l.length).find? fun p => l[p]? = some (t, 0) ∧ lost (p / 12) = false).map (since_nul lost l)

/-- The NULs before place `p`. -/
def nuls (l : List TextByte) (p : Nat) : Nat := (l.take p).countP fun x => x.2 = 0

/-- Each byte is of the track that as many NULs are before it. -/
def InOrder (l : List TextByte) : Prop := ∀ p x, l[p]? = some x → x.1 = nuls l p

section
variable {lost : Nat → Bool} {l : List TextByte} {p q t : Nat} {x : TextByte} {a : Assembler}

theorem nuls_succ (hx : l[p]? = some x) : nuls l (p + 1) = nuls l p + if x.2 = 0 then 1 else 0 := by
  unfold nuls
  rw [List.take_add_one, hx, Option.toList_some, List.countP_append, List.countP_singleton]
  simp

theorem nuls_mono (h : p ≤ q) : nuls l p ≤ nuls l q := by
  unfold nuls
  exact (List.take_sublist_take_left h).countP_le

/-- A track has one NUL. -/
theorem InOrder.nul_unique (h : InOrder l) (hp : l[p]? = some (t, 0)) (hq : l[q]? = some (t, 0)) :
    p = q := by
  have key : ∀ {p q : Nat}, l[p]? = some (t, 0) → l[q]? = some (t, 0) → ¬p < q := by
    intro p q hp hq hlt
    have h1 := nuls_succ hp
    have h2 := nuls_mono (l := l) (show p + 1 ≤ q from hlt)
    rw [if_pos rfl, ← h p _ hp] at h1
    rw [← h q _ hq] at h2
    omega
  have := key hp hq
  have := key hq hp
  omega

theorem InOrder.arrived_some (h : InOrder l) (hp : l[p]? = some (t, 0)) (hkept : lost (p / 12) = false) :
    arrived lost l t = some (since_nul lost l p) := by
  unfold arrived
  cases hf : (List.range l.length).find? fun p => l[p]? = some (t, 0) ∧ lost (p / 12) = false with
  | none =>
    refine absurd (List.find?_eq_none.1 hf p (List.mem_range.2 ?_)) (by simp [hp, hkept])
    exact (List.getElem?_eq_some_iff.1 hp).1
  | some q =>
    have hq := List.find?_some hf
    rw [decide_eq_true_eq] at hq
    rw [h.nul_unique hp hq.1]
    rfl

theorem InOrder.arrived_none (h : InOrder l) (hp : l[p]? = some (t, 0)) (hlost : lost (p / 12) = true) :
    arrived lost l t = none := by
  unfold arrived
  rw [List.find?_eq_none.2, Option.map_none]
  intro q _ hq
  rw [decide_eq_true_eq] at hq
  rw [h.nul_unique hq.1 hp, hlost] at hq
  exact Bool.noConfusion hq.2

/-! ## Bytes that arrive -/

theorem since_nul_lost (hlost : lost (p / 12) = true) : since_nul lost l (p + 1) = since_nul lost l p := by
  unfold since_nul bytes_before
  rw [List.range_succ, List.filter_append, List.filter_cons_of_neg (by simp [hlost]), List.filter_nil,
    List.append_nil]

theorem bytes_before_kept (hkept : lost (p / 12) = false) (hx : l[p]? = some x) :
    bytes_before lost l (p + 1) = bytes_before lost l p ++ [x.2] := by
  unfold bytes_before
  rw [List.range_succ, List.filter_append, List.filter_cons_of_pos (by simp [hkept]), List.filter_nil,
    List.map_append, List.map_cons, List.map_nil, List.getD_eq_getElem?_getD, hx]
  rfl

theorem since_nul_zero (hkept : lost (p / 12) = false) (hx : l[p]? = some x) (h0 : x.2 = 0) :
    since_nul lost l (p + 1) = [] := by
  unfold since_nul
  rw [bytes_before_kept hkept hx, List.reverse_append, List.reverse_singleton, List.singleton_append,
    List.takeWhile_cons_of_neg (by simpa using h0)]
  rfl

theorem take_snoc {α : Type} (s : List α) (c : α) (n : Nat) :
    (s ++ [c]).take n = if (s.take n).length < n then s.take n ++ [c] else s.take n := by
  rw [List.length_take]
  split
  · next h => rw [List.take_of_length_le (l := s ++ [c]) (by simp; omega),
      List.take_of_length_le (l := s) (by omega)]
  · next h => rw [List.take_append_of_le_length (by omega)]

theorem since_nul_byte (hkept : lost (p / 12) = false) (hx : l[p]? = some x) (h0 : x.2 ≠ 0) :
    since_nul lost l (p + 1) = if (since_nul lost l p).length < ACCUDISC_TEXT_MAX - 1
      then since_nul lost l p ++ [x.2] else since_nul lost l p := by
  unfold since_nul
  rw [bytes_before_kept hkept hx, List.reverse_append, List.reverse_singleton, List.singleton_append,
    List.takeWhile_cons_of_pos (by simpa using h0), List.reverse_cons, take_snoc]

/-! ## The assembler -/

/-- Before place `p` of the stream. -/
structure Heard (lost : Nat → Bool) (l : List TextByte) (p : Nat) (a : Assembler) : Prop where
  buf : a.buf = since_nul lost l p
  track : lost (p / 12) = false → p % 12 ≠ 0 → a.track = nuls l p
  text : ∀ t, a.text t = if t < nuls l p then spoken (arrived lost l) t else []

/-- **The next byte**. -/
theorem Heard.next (h : Heard lost l p a) (hl : InOrder l) (hx : l[p]? = some x) (ht : x.1 ≤ 99) :
    Heard lost l (p + 1) (text_step lost a (x, p)) := by
  have htag := hl p x hx
  obtain ⟨t, c⟩ := x
  dsimp only at htag ht
  subst htag
  have hnuls := nuls_succ hx
  unfold text_step
  dsimp only at hnuls ⊢
  cases hlost : lost (p / 12) with
  | true =>
    rw [if_pos rfl]
    refine ⟨h.buf.trans (since_nul_lost hlost).symm, fun hkept hmod => ?_, fun t => ?_⟩
    · rw [show (p + 1) / 12 = p / 12 by omega, hlost] at hkept
      cases hkept
    · rw [h.text t, hnuls]
      by_cases hc : c = 0
      · subst hc
        rw [if_pos rfl]
        by_cases hnew : t = nuls l p
        · subst hnew
          rw [if_neg (Nat.lt_irrefl _), if_pos (Nat.lt_succ_self _), spoken_none (hl.arrived_none hx hlost)]
        · exact if_congr (by omega) rfl rfl
      · rw [if_neg hc, Nat.add_zero]
  | false =>
    rw [if_neg (by decide)]
    have htrack : (if p % 12 = 0 then { a with track := (nuls l p : Int) } else a) =
      { a with track := nuls l p } := by
      split
      · rfl
      · next hmod => rw [← h.track hlost hmod]
    rw [htrack]
    by_cases hc : c = 0
    · subst hc
      have hcommit : Assembler.commit { a with track := (nuls l p : Int) } =
        spoken (arrived lost l) (nuls l p) := by
        have hbefore : ∀ u < nuls l p, a.text u = spoken (arrived lost l) u := fun u hu => by
          rw [h.text u, if_pos hu]
        have := commit_spoken (hl.arrived_some hx hlost) ht hbefore
        rwa [← h.buf] at this
      rw [if_pos rfl] at hnuls
      unfold put_char
      rw [if_neg (not_not.2 rfl), field_for_of_le ht]
      refine ⟨(since_nul_zero hlost hx rfl).symm, fun _ _ => by rw [hnuls]; rfl, fun t => ?_⟩
      dsimp only
      rw [hnuls]
      by_cases hnew : t = nuls l p
      · subst hnew
        rw [Function.update_self, if_pos (Nat.lt_succ_self _), hcommit]
      · rw [Function.update_of_ne hnew, h.text t]
        exact if_congr (by omega) rfl rfl
    · rw [if_neg hc, Nat.add_zero] at hnuls
      unfold put_char
      rw [if_pos hc]
      refine ⟨?_, fun _ _ => by rw [hnuls]; rfl, fun t => by rw [hnuls]; exact h.text t⟩
      dsimp only
      rw [since_nul_byte hlost hx hc, h.buf]

/-- **The whole stream**. -/
theorem heard_run (hl : InOrder l) (ht : ∀ x ∈ l, x.1 ≤ 99) (p : Nat) (hp : p ≤ l.length) :
    Heard lost l p (text_run lost 0 {} (l.take p)) := by
  induction p with
  | zero => exact ⟨rfl, fun _ h => absurd rfl h, fun _ => rfl⟩
  | succ p ih =>
    have hx : l[p]? = some l[p] := List.getElem?_eq_getElem hp
    rw [List.take_add_one, hx, Option.toList_some, text_run_append, List.length_take, Nat.zero_add,
      Nat.min_eq_left (by omega)]
    exact (ih (by omega)).next hl hx (ht _ (List.getElem_mem hp))

/-- Past the last NUL, nothing more arrives. -/
theorem arrived_past (hl : InOrder l) (h : nuls l l.length ≤ t) : arrived lost l t = none := by
  unfold arrived
  rw [List.find?_eq_none.2, Option.map_none]
  intro q _ hq
  rw [decide_eq_true_eq] at hq
  have h1 := nuls_succ hq.1
  have h2 : nuls l (q + 1) ≤ nuls l l.length := nuls_mono (List.getElem?_eq_some_iff.1 hq.1).1
  rw [if_pos rfl, ← hl q _ hq.1] at h1
  omega

end

/-! ## The strings of a disc -/

section
variable {n t : Nat} {s : Nat → List (BitVec 8)} {lost : Nat → Bool}

/-- The strings before that of track `t`, when none is left out: their NULs, their order and their end. -/
theorem text_before_all (hs : ∀ t, ∀ c ∈ s t, c ≠ 0) (t : Nat) (ht : t ≤ n + 1) :
    let l := text_before (all_tracks n s) t
    nuls l l.length = t ∧ InOrder l ∧ ∀ x, l.getLast? = some x → x.2 = 0 := by
  induction t with
  | zero =>
    refine ⟨rfl, ?_, fun x hx => by cases hx⟩
    intro p x hx
    cases hx
  | succ t ih =>
    obtain ⟨hcount, horder, -⟩ := ih (by omega)
    have hentry : text_entry (all_tracks n s) t = (s t).map (t, ·) ++ [(t, 0)] := by
      unfold text_entry all_tracks
      rw [if_pos (by omega)]
    have hzero : ∀ k, (((s t).map (t, ·)).take k).countP (fun x : TextByte => x.2 = 0) = 0 := by
      intro k
      refine List.countP_eq_zero.2 fun x hx => ?_
      obtain ⟨c, hc, rfl⟩ := List.mem_map.1 (List.mem_of_mem_take hx)
      simpa using hs t c hc
    have hcount' : (text_before (all_tracks n s) t).countP (fun x : TextByte => x.2 = 0) = t := by
      have := hcount
      unfold nuls at this
      rwa [List.take_length] at this
    have hnuls : ∀ k ≤ (s t).length,
        nuls (text_before (all_tracks n s) (t + 1)) ((text_before (all_tracks n s) t).length + k) = t := by
      intro k hk
      unfold nuls
      rw [text_before_succ, hentry, List.take_length_add_append, List.countP_append, hcount',
        List.take_append_of_le_length (by simpa using hk), hzero k, Nat.add_zero]
    dsimp only
    refine ⟨?_, fun p x hx => ?_, fun x hx => ?_⟩
    · unfold nuls
      rw [List.take_length, text_before_succ, hentry, List.countP_append, List.countP_append, hcount']
      have := hzero (s t).length
      rw [List.take_of_length_le (by simp)] at this
      rw [this]
      simp
    · rcases Nat.lt_or_ge p (text_before (all_tracks n s) t).length with hlt | hge
      · rw [text_before_succ, List.getElem?_append_left hlt] at hx
        rw [horder p x hx]
        unfold nuls
        rw [text_before_succ, List.take_append_of_le_length (Nat.le_of_lt hlt)]
      · obtain ⟨k, rfl⟩ := Nat.exists_eq_add_of_le hge
        rw [text_before_succ, List.getElem?_append_right hge, Nat.add_sub_cancel_left, hentry] at hx
        have hk : k ≤ (s t).length := by
          have := (List.getElem?_eq_some_iff.1 hx).1
          simp only [List.length_append, List.length_map, List.length_singleton] at this
          omega
        have hmem := List.mem_of_getElem? hx
        rw [hnuls k hk]
        rcases List.mem_append.1 hmem with hm | hm
        · obtain ⟨c, -, rfl⟩ := List.mem_map.1 hm
          rfl
        · rw [List.mem_singleton.1 hm]
    · rw [text_before_succ, hentry, ← List.append_assoc, List.getLast?_concat] at hx
      cases hx
      rfl

theorem text_entry_past (ht : n < t) : text_entry (all_tracks n s) t = [] := by
  unfold text_entry all_tracks
  rw [if_neg (by omega)]

theorem text_stream_all (hn : n ≤ 99) :
    text_stream (all_tracks n s) = text_before (all_tracks n s) (n + 1) := by
  unfold text_stream
  have key : ∀ k, text_before (all_tracks n s) (n + 1 + k) = text_before (all_tracks n s) (n + 1) := by
    intro k
    induction k with
    | zero => rfl
    | succ k ih => rw [← Nat.add_assoc, text_before_succ, ih, text_entry_past (by omega), List.append_nil]
  rw [← key (99 - n), show n + 1 + (99 - n) = 100 by omega]

/-- **One type**: every field of it says what arrived. -/
theorem text_end_lossy (hs : ∀ t, ∀ c ∈ s t, c ≠ 0) (hn : n ≤ 99) (t : Nat) :
    (text_end (all_tracks n s) lost).text t = spoken (arrived lost (text_stream (all_tracks n s))) t := by
  have hall := text_before_all hs (n + 1) le_rfl
  rw [← text_stream_all hn] at hall
  have hmem : ∀ x ∈ text_stream (all_tracks n s), x.1 ≤ 99 := fun x hx => mem_text_stream hx
  unfold text_end
  generalize text_stream (all_tracks n s) = l at hall hmem ⊢
  obtain ⟨hcount, horder, hlast⟩ := hall
  have h : Heard lost l l.length (text_run lost 0 {} (l.take l.length)) :=
    heard_run horder hmem l.length le_rfl
  rw [List.take_length] at h
  have htext : ∀ t, (text_run lost 0 {} l).text t = spoken (arrived lost l) t := by
    intro t
    rw [h.text t]
    split
    · rfl
    · next hno => rw [spoken_none (arrived_past horder (Nat.le_of_not_lt hno))]
  rw [text_run_append, Nat.zero_add, text_run_pad fun hkept hmod => ⟨?_, fun u hu => ?_⟩, htext]
  · -- the last byte is a NUL, and arrived with the zeros
    have hpos : l.length ≠ 0 := fun h0 => hmod (by rw [h0])
    have hx : l[l.length - 1]? = some l[l.length - 1] := List.getElem?_eq_getElem (by omega)
    rw [h.buf, show l.length = l.length - 1 + 1 by omega]
    refine since_nul_zero (by rwa [show (l.length - 1) / 12 = l.length / 12 by omega]) hx (hlast _ ?_)
    rw [List.getLast?_eq_getElem?, hx]
  · rw [h.track hkept hmod] at hu
    rw [h.text u, if_neg (by omega)]

theorem text_before_prefix (given : Nat → Option (List (BitVec 8))) {t u : Nat} (h : t ≤ u) :
    text_before given t <+: text_before given u := by
  induction u, h using Nat.le_induction with
  | base => exact List.prefix_rfl
  | succ u _ ih =>
    rw [text_before_succ]
    exact ih.trans (List.prefix_append ..)

/-- Of a stream that is whole, every string arrives, as long as a field can hold it. -/
theorem arrived_whole (hs : ∀ t, ∀ c ∈ s t, c ≠ 0) (hn : n ≤ 99) (ht : t ≤ n) :
    arrived whole (text_stream (all_tracks n s)) t = some ((s t).take (ACCUDISC_TEXT_MAX - 1)) := by
  have hall := text_before_all hs (n + 1) le_rfl
  rw [← text_stream_all hn] at hall
  obtain ⟨-, horder, -⟩ := hall
  obtain ⟨-, -, hlast⟩ := text_before_all (n := n) hs t (by omega)
  have hentry : text_entry (all_tracks n s) t = (s t).map (t, ·) ++ [(t, 0)] := by
    unfold text_entry all_tracks
    rw [if_pos ht]
  have hsplit : ∃ rest, text_stream (all_tracks n s) =
      text_before (all_tracks n s) t ++ (s t).map (t, ·) ++ (t, 0) :: rest := by
    obtain ⟨rest, hrest⟩ := text_before_prefix (all_tracks n s) (show t + 1 ≤ 100 by omega)
    refine ⟨rest, hrest.symm.trans ?_⟩
    rw [text_before_succ, hentry]
    simp
  obtain ⟨rest, hsplit⟩ := hsplit
  have hbytes : ∀ p, p ≤ (text_stream (all_tracks n s)).length →
      bytes_before whole (text_stream (all_tracks n s)) p =
        ((text_stream (all_tracks n s)).take p).map Prod.snd := by
    intro p hp
    unfold bytes_before
    rw [show (List.range p).filter (fun q => !whole (q / 12)) = List.range p
      from List.filter_eq_self.2 fun _ _ => rfl]
    refine List.ext_getElem (by simpa using hp) fun k hk hk' => ?_
    rw [List.length_map, List.length_range] at hk
    simp only [List.getElem_map, List.getElem_range, List.getElem_take]
    rw [List.getD_eq_getElem _ _ (by omega)]
  have hnul : (text_stream (all_tracks n s))[(text_before (all_tracks n s) t ++ (s t).map (t, ·)).length]? =
      some (t, 0) := by
    rw [hsplit, List.getElem?_append_right le_rfl, Nat.sub_self]
    rfl
  rw [horder.arrived_some hnul rfl]
  unfold since_nul
  rw [hbytes _ (Nat.le_of_lt (List.getElem?_eq_some_iff.1 hnul).1), hsplit, List.take_left, List.map_append,
    List.map_map, List.reverse_append]
  have hmap : (s t).map (Prod.snd ∘ fun x : BitVec 8 => (t, x)) = s t := List.map_id _
  have hprev : ((text_before (all_tracks n s) t).map Prod.snd).reverse.takeWhile (· ≠ 0) = [] := by
    rcases List.eq_nil_or_concat' (text_before (all_tracks n s) t) with hnil | ⟨l, x, hx⟩
    · rw [hnil]
      rfl
    · rw [hx] at hlast
      rw [hx, List.map_append, List.reverse_append, List.map_singleton, List.reverse_singleton,
        List.singleton_append, List.takeWhile_cons_of_neg (by simpa using hlast x List.getLast?_concat)]
  rw [hmap, List.takeWhile_append_of_pos (fun c hc => by simpa using hs t c (List.mem_reverse.1 hc)), hprev,
    List.append_nil, List.reverse_reverse]

end

/-! ## The blob -/

/-- The packs as they were before the damage. -/
def undamaged (packs : List TextPack) : List TextPack := packs.map fun x => { x with intact := true }

section
variable {n : Nat} {s : TextType → Nat → List (BitVec 8)} {lost : TextType → Nat → Bool}
  {packs : List TextPack}
  {raw raw₀ : Mem}

theorem Mixed.undamaged {given : TextType → Nat → Option (List (BitVec 8))} (h : Mixed given lost packs) :
    Mixed given (fun _ => whole) (undamaged packs) := by
  intro ty
  unfold Accudisc.undamaged
  rw [List.filter_map]
  show ((packs.filter fun x => x.ty = ty).map _) = _
  rw [h ty]
  unfold type_packs
  rw [List.map_map]
  rfl

theorem spoken_congr {g g' : Nat → Option (List (BitVec 8))} {t : Nat} (h : ∀ u ≤ t, g u = g' u) :
    spoken g t = spoken g' t := by
  induction t with
  | zero => rw [spoken, spoken, h 0 le_rfl]
  | succ t ih => rw [spoken, spoken, h (t + 1) le_rfl, ih fun u hu => h u (by omega)]

/-- When every pack is lost, nothing arrives. -/
theorem Mixed.nothing {given : TextType → Nat → Option (List (BitVec 8))} (h : Mixed given lost packs)
    (hnone : ¬packs.any TextPack.intact = true) (ty : TextType) (t : Nat) :
    arrived (lost ty) (text_stream (given ty)) t = none := by
  unfold arrived
  rw [List.find?_eq_none.2, Option.map_none]
  intro p hp hq
  rw [decide_eq_true_eq] at hq
  have hlt := List.mem_range.1 hp
  refine hnone ?_
  have hpack : ∃ x ∈ type_packs ty (lost ty) (text_stream (given ty)), x.intact = true :=
    ⟨_, List.mem_map.2 ⟨p / 12, List.mem_range.2 (by omega), rfl⟩, by simp [hq.2]⟩
  obtain ⟨x, hx, hin⟩ := hpack
  rw [← h ty] at hx
  exact List.any_eq_true.2 ⟨x, (List.mem_filter.1 hx).1, hin⟩

/-- **Damaged CD-Text**: every field is that of the undamaged packs or empty exactly where, for every track,
what arrived since the last NUL that arrived is its string or nothing. -/
theorem cdtext_damage_law (hs : ∀ ty t, ∀ c ∈ s ty t, c ≠ 0) (hn : n ≤ 99)
    (hmix : Mixed (fun ty => all_tracks n (s ty)) lost packs) (hraw : Carries raw packs)
    (hraw₀ : Carries raw₀ (undamaged packs)) :
    ∃ text₀, accudisc_cdtext_decode raw₀ (4 + packs.length * ADSC_CDTEXT_PACK_BYTES) true = .ok text₀ ∧
      ((∀ text, accudisc_cdtext_decode raw (4 + packs.length * ADSC_CDTEXT_PACK_BYTES) true = .ok text →
          ∀ ty t, t ≤ 99 → text ty t = text₀ ty t ∨ text ty t = []) ↔
        ∀ ty t, t ≤ n →
          spoken (arrived (lost ty) (text_stream (all_tracks n (s ty)))) t =
            spoken (fun t => some ((s ty t).take (ACCUDISC_TEXT_MAX - 1))) t ∨
          spoken (arrived (lost ty) (text_stream (all_tracks n (s ty)))) t = []) := by
  have htext₀ : accudisc_cdtext_decode raw₀ (4 + packs.length * ADSC_CDTEXT_PACK_BYTES) true =
      .ok fun ty => (text_end (all_tracks n (s ty)) whole).text := by
    have hany : (undamaged packs).any TextPack.intact = true :=
      @Mixed.any _ _ hmix.undamaged .title 0 (Nat.zero_le 99) (by simp [all_tracks])
    have := decode_text hmix.undamaged hraw₀
    rw [if_pos hany] at this
    rwa [show (undamaged packs).length = packs.length from List.length_map _] at this
  have hsaid : ∀ ty t, t ≤ n → (text_end (all_tracks n (s ty)) whole).text t =
      spoken (fun t => some ((s ty t).take (ACCUDISC_TEXT_MAX - 1))) t := by
    intro ty t ht
    rw [text_end_lossy (hs ty) hn]
    exact spoken_congr fun u hu => arrived_whole (hs ty) hn (by omega)
  refine ⟨_, htext₀, ?_⟩
  rw [decode_text hmix hraw]
  by_cases hany : packs.any TextPack.intact = true
  · rw [if_pos hany]
    constructor
    · intro h ty t ht
      rw [← hsaid ty t ht, ← text_end_lossy (hs ty) hn]
      exact h _ rfl ty t (by omega)
    · rintro h text heq ty t ht
      cases heq
      dsimp only
      by_cases hle : t ≤ n
      · rw [text_end_lossy (hs ty) hn, hsaid ty t hle]
        exact h ty t hle
      · refine .inr ?_
        rw [text_end_lossy (hs ty) hn, spoken_none]
        have hall := text_before_all (hs ty) (n + 1) le_rfl
        rw [← text_stream_all hn] at hall
        exact arrived_past hall.2.1 (by rw [hall.1]; omega)
  · rw [if_neg hany]
    refine ⟨fun _ ty t _ => .inr ?_, fun _ text heq => by cases heq⟩
    rw [spoken_none (hmix.nothing hany ty t)]

end

/-! ## Two titles that become one -/

/-- A title of the album that ends in the second payload, where that of the first track begins. -/
def joined_titles : TextType → Nat → List (BitVec 8)
  | .title, 0 => List.replicate 14 0x41
  | .title, 1 => List.replicate 20 0x42
  | _, _ => []

/-- The packs of the four types, of which `lost` are damaged. -/
def joined_packs (lost : TextType → Nat → Bool) : List TextPack :=
  [.title, .performer, .songwriter, .code].flatMap fun ty =>
    type_packs ty (lost ty) (text_stream (all_tracks 1 (joined_titles ty)))

theorem joined_titles_text : ∀ ty t, ∀ c ∈ joined_titles ty t, c ≠ 0 := by
  intro ty t c hc
  unfold joined_titles at hc
  split at hc
  · rw [List.eq_of_mem_replicate hc]
    decide
  · rw [List.eq_of_mem_replicate hc]
    decide
  · exact absurd hc List.not_mem_nil

/-- The second pack of the titles is lost. -/
def second_lost : TextType → Nat → Bool := fun ty j => ty = .title ∧ j = 1

theorem second_lost_mixed : Mixed (fun ty => all_tracks 1 (joined_titles ty)) second_lost
    (joined_packs second_lost) := by
  intro ty
  cases ty <;> decide

/-- The performers are lost. -/
def performers_lost : TextType → Nat → Bool := fun ty _ => ty = .performer

theorem performers_lost_mixed :
    Mixed (fun ty => all_tracks 1 (joined_titles ty)) performers_lost (joined_packs performers_lost) := by
  intro ty
  cases ty <;> decide

/-- Losing a type alone does no harm to the others. -/
theorem cdtext_damage_law_performers :
    ∃ text₀, accudisc_cdtext_decode (blob_of (undamaged (joined_packs performers_lost))) 112 true =
      .ok text₀ ∧
      ∀ text, accudisc_cdtext_decode (blob_of (joined_packs performers_lost)) 112 true = .ok text →
        ∀ ty t, t ≤ 99 → text ty t = text₀ ty t ∨ text ty t = [] := by
  obtain ⟨text₀, hok, hiff⟩ := cdtext_damage_law joined_titles_text (by decide) performers_lost_mixed
    (blob_of_carries _) (blob_of_carries _)
  refine ⟨text₀, hok, hiff.2 fun ty t ht => ?_⟩
  have hall : ∀ t ≤ 1, ∀ ty ∈ [TextType.title, .performer, .songwriter, .code],
      spoken (arrived (performers_lost ty) (text_stream (all_tracks 1 (joined_titles ty)))) t =
        spoken (fun t => some ((joined_titles ty t).take (ACCUDISC_TEXT_MAX - 1))) t ∨
      spoken (arrived (performers_lost ty) (text_stream (all_tracks 1 (joined_titles ty)))) t = [] := by
        decide
  exact hall t ht ty (by cases ty <;> decide)

theorem titles_joined : Mixed (fun ty => all_tracks 1 (joined_titles ty)) second_lost
    (joined_packs second_lost) ∧
    ∃ text₀ text,
      accudisc_cdtext_decode (blob_of (undamaged (joined_packs second_lost))) 112 true = .ok text₀ ∧
      accudisc_cdtext_decode (blob_of (joined_packs second_lost)) 112 true = .ok text ∧
      text₀ .title 1 = List.replicate 20 0x42 ∧
        text .title 1 = List.replicate 12 0x41 ++ List.replicate 11 0x42 := by
  have h₀ := decode_text second_lost_mixed.undamaged (blob_of_carries _)
  have h := decode_text second_lost_mixed (blob_of_carries _)
  rw [if_pos (by decide)] at h₀ h
  refine ⟨second_lost_mixed, _, _, h₀, h, ?_, ?_⟩
  · show (text_end (all_tracks 1 (joined_titles .title)) whole).text 1 = _
    decide
  · show (text_end (all_tracks 1 (joined_titles .title)) (second_lost .title)).text 1 = _
    decide

end Accudisc
