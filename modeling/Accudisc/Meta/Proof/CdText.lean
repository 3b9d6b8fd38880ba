import Accudisc.Lib.Loop
import Accudisc.Meta.CdText
import Mathlib.Data.List.GetD

/-!
# The text of packs that were cut from strings

`type_packs` cuts a stream of bytes, each with the track of its string, into payloads. What an assembler
makes of the packs is what it makes of the bytes, with the track set again at every payload that is intact
(`decode_text`).
-/

namespace Accudisc

/-- The byte of a type. -/
def TextType.byte : TextType → BitVec 8
  | .title => 0x80
  | .performer => 0x81
  | .songwriter => 0x82
  | .code => 0x8e

/-- A pack, and whether its CRC is good. -/
structure TextPack where
  ty : TextType
  track : Nat
  payload : List (BitVec 8)
  intact : Bool
deriving DecidableEq

/-- The bytes at `p` are the pack: single-byte characters of block 0, with a good CRC. -/
structure TextPack.At (x : TextPack) (p : Mem) : Prop where
  crc : adsc_crc16 p 16 = ~~~stored_crc p
  type : p 0 = x.ty.byte
  track : p 1 = BitVec.ofNat 8 x.track
  block : p 3 &&& 0xf0 = 0
  payload : ∀ k < 12, p (4 + k) = x.payload.getD k 0

/-- The packs of a blob; of a damaged one, that its CRC fails. -/
def Carries (raw : Mem) (packs : List TextPack) : Prop :=
  ∀ i x, packs[i]? = some x →
    (x.intact = true → x.At (ptr raw (4 + i * ADSC_CDTEXT_PACK_BYTES))) ∧
    (x.intact = false → adsc_crc16 (ptr raw (4 + i * ADSC_CDTEXT_PACK_BYTES)) 16 ≠
      ~~~stored_crc (ptr raw (4 + i * ADSC_CDTEXT_PACK_BYTES)))

/-- A byte of a string, or its NUL, and the track of the string. -/
abbrev TextByte := Nat × BitVec 8

/-- The packs of the stream `l`: payloads of twelve bytes, the last one filled up with zeros, each with the
track of its first byte; `lost` are those whose CRC fails. -/
def type_packs (ty : TextType) (lost : Nat → Bool) (l : List TextByte) : List TextPack :=
  (List.range ((l.length + 11) / 12)).map fun j =>
    { ty := ty
      track := (l.getD (12 * j) (0, 0)).1
      payload := (List.range 12).map fun k => (l.getD (12 * j + k) (0, 0)).2
      intact := !lost j }

/-- The string of a track and its NUL; a track without a string leaves nothing. -/
def text_entry (given : Nat → Option (List (BitVec 8))) (t : Nat) : List TextByte :=
  match given t with
  | some s => s.map (t, ·) ++ [(t, 0)]
  | none => []

/-- The strings before that of track `t`, in ascending order. -/
def text_before (given : Nat → Option (List (BitVec 8))) (t : Nat) : List TextByte :=
  (List.range t).flatMap (text_entry given)

/-- The strings of the album and of the tracks 1 to 99. -/
def text_stream (given : Nat → Option (List (BitVec 8))) : List TextByte := text_before given 100

/-- What the strings say: a TAB alone is the string of the track before. -/
def spoken (given : Nat → Option (List (BitVec 8))) : Nat → List (BitVec 8)
  | 0 => (given 0).getD []
  | t + 1 =>
    match given (t + 1) with
    | some s => if s = [TAB] then spoken given t else s
    | none => []

/-- What an assembler makes of a pack. -/
def Assembler.feed (a : Assembler) (x : TextPack) : Assembler :=
  if x.intact then x.payload.foldl put_char { a with track := x.track } else a

/-- What it makes of a byte, at a place of the stream. -/
def text_step (lost : Nat → Bool) (a : Assembler) (x : TextByte × Nat) : Assembler :=
  if lost (x.2 / 12) then a
  else put_char (if x.2 % 12 = 0 then { a with track := x.1.1 } else a) x.1.2

/-- The bytes from place `p` on. -/
def text_run (lost : Nat → Bool) (p : Nat) (a : Assembler) (l : List TextByte) : Assembler :=
  (l.zipIdx p).foldl (text_step lost) a

/-! ## One pack -/

section
variable {raw p : Mem} {x : TextPack} {d : TextDecoder} {i : Nat} {packs : List TextPack}

theorem text_type_byte (ty : TextType) : text_type ty.byte = some ty := by
  cases ty <;> rfl

theorem track_byte : ∀ t ≤ 99, BitVec.ofNat 8 t &&& 0x80 = 0 ∧ (BitVec.ofNat 8 t &&& 0x7f).toNat = t := by
    decide

theorem block_byte : ∀ b : BitVec 8, b &&& 0xf0 = 0 → b &&& 0x80 = 0 ∧ (b >>> 4) &&& 0x07 = 0 := by decide

theorem TextPack.At.type_eq (h : x.At p) (ht : x.track ≤ 99) : pack_type p = some x.ty := by
  unfold pack_type
  rw [if_neg (not_not.2 h.crc), h.track, if_neg (not_not.2 (track_byte _ ht).1),
    if_neg (not_not.2 (block_byte _ h.block).1), if_neg (not_not.2 (block_byte _ h.block).2), h.type,
    text_type_byte]

/-- A list of twelve, read by index. -/
theorem foldl_payload {α : Type} {f : α → BitVec 8 → α} {a : α} {l : List (BitVec 8)} (h : l.length = 12) :
    (List.range 12).foldl (fun a k => f a (l.getD k 0)) a = l.foldl f a := by
  have hl : l = (List.range 12).map fun k => l.getD k 0 := by
    refine List.ext_getElem (by simpa using h) fun k hk _ => ?_
    simp [hk]
  conv_rhs => rw [hl]
  rw [List.foldl_map]

/-- **One pack**: an intact one goes to the assembler of its type. -/
theorem decode_pack_eq (hx : packs[i]? = some x) (hraw : Carries raw packs) (ht : x.track ≤ 99)
    (hlen : x.payload.length = 12) : decode_pack raw d i =
      if x.intact then { asm := Function.update d.asm x.ty ((d.asm x.ty).feed x), used := d.used + 1 }
        else d := by
  obtain ⟨hgood, hbad⟩ := hraw i x hx
  unfold decode_pack
  dsimp only
  cases hin : x.intact with
  | false =>
    have : pack_type (ptr raw (4 + i * ADSC_CDTEXT_PACK_BYTES)) = none := by
      unfold pack_type
      rw [if_pos (hbad hin)]
    rw [this]
    rfl
  | true =>
    have hat := hgood hin
    rw [hat.type_eq ht]
    dsimp only
    rw [hat.track, (track_byte _ ht).2, if_pos rfl]
    unfold Assembler.feed
    rw [if_pos hin, ← foldl_payload hlen]
    refine congrArg (fun a => TextDecoder.mk (Function.update d.asm x.ty a) (d.used + 1)) ?_
    refine List.foldl_ext _ _ _ fun a k hk => ?_
    rw [hat.payload k (List.mem_range.1 hk)]

/-- **All packs**: each assembler is fed those of its type. -/
theorem decode_packs (hraw : Carries raw packs)
    (hpacks : ∀ x ∈ packs, x.track ≤ 99 ∧ x.payload.length = 12) :
    let d := (List.range packs.length).foldl (decode_pack raw) {}
    (∀ ty, d.asm ty = (packs.filter fun x => x.ty = ty).foldl Assembler.feed {}) ∧
      d.used = packs.countP TextPack.intact := by
  have h := Loop.foldl_range_inv (n := packs.length) (s := ({} : TextDecoder)) (f := decode_pack raw)
    (fun i (d : TextDecoder) =>
      (∀ ty, d.asm ty = ((packs.take i).filter fun x => x.ty = ty).foldl Assembler.feed {}) ∧
        d.used = (packs.take i).countP TextPack.intact) ⟨fun _ => rfl, rfl⟩ ?_
  · rwa [List.take_length] at h
  · rintro i hi d ⟨hasm, hused⟩
    have hx : packs[i]? = some packs[i] := List.getElem?_eq_getElem hi
    obtain ⟨ht, hlen⟩ := hpacks _ (List.getElem_mem hi)
    rw [decode_pack_eq hx hraw ht hlen, List.take_add_one, hx, Option.toList_some]
    refine ⟨fun ty => ?_, ?_⟩
    · rw [List.filter_append, List.foldl_append]
      by_cases hty : packs[i].ty = ty
      · subst hty
        rw [List.filter_cons_of_pos (by simp), List.filter_nil, List.foldl_cons, List.foldl_nil, ← hasm]
        split
        · exact Function.update_self ..
        · next hno => rw [Assembler.feed, if_neg hno]
      · rw [List.filter_cons_of_neg (by simpa using hty), List.filter_nil, List.foldl_nil, ← hasm]
        split
        · exact Function.update_of_ne (fun h => hty h.symm) ..
        · rfl
    · rw [List.countP_append, ← hused]
      cases hin : packs[i].intact <;> simp [hin]

end

/-! ## A blob of any packs -/

/-- The sixteen bytes that the CRC is over. -/
def pack_body (x : TextPack) : Mem := fun k =>
  if k = 0 then x.ty.byte
  else if k = 1 then BitVec.ofNat 8 x.track
  else if k < 4 then 0
  else x.payload.getD (k - 4) 0

/-- The CRC field: that of a damaged pack is not complemented. -/
def pack_crc (x : TextPack) : BitVec 16 :=
  if x.intact then ~~~(adsc_crc16 (pack_body x) 16) else adsc_crc16 (pack_body x) 16

def pack_mem (x : TextPack) : Mem := fun k =>
  if k = 16 then (pack_crc x >>> 8).setWidth 8
  else if k = 17 then (pack_crc x).setWidth 8
  else pack_body x k

/-- The packs, one after the other, behind the header. -/
def blob_of (packs : List TextPack) : Mem := fun a =>
  if a < 4 then 0
  else
    match packs[(a - 4) / ADSC_CDTEXT_PACK_BYTES]? with
    | some x => pack_mem x ((a - 4) % ADSC_CDTEXT_PACK_BYTES)
    | none => 0

section
variable {x : TextPack} {packs : List TextPack} {m m' : Mem}

theorem crc16_congr {n : Nat} (h : ∀ i < n, m i = m' i) : adsc_crc16 m n = adsc_crc16 m' n := by
  refine List.foldl_ext _ _ _ fun crc i hi => ?_
  rw [h i (List.mem_range.1 hi)]

theorem crc_bytes : ∀ c : BitVec 16, ((c >>> 8).setWidth 8).setWidth 16 <<< 8 |||
    (c.setWidth 8).setWidth 16 = c := by
  intro c
  apply BitVec.eq_of_getLsbD_eq
  intro i hi
  rw [BitVec.getLsbD_or, BitVec.getLsbD_shiftLeft, BitVec.getLsbD_setWidth, BitVec.getLsbD_setWidth,
    BitVec.getLsbD_setWidth, BitVec.getLsbD_setWidth, BitVec.getLsbD_ushiftRight]
  by_cases h : i < 8
  · simp [h, hi]
  · simp [h, hi, show i - 8 < 8 by omega, show 8 + (i - 8) = i by omega, show i - 8 < 16 by omega]

theorem not_ne_self (c : BitVec 16) : c ≠ ~~~c := fun h => by
  have := congrArg (fun c : BitVec 16 => c.getLsbD 0) h
  simp at this

theorem pack_mem_crc : adsc_crc16 (pack_mem x) 16 = adsc_crc16 (pack_body x) 16 :=
  crc16_congr fun i hi => by
    unfold pack_mem
    rw [if_neg (by omega), if_neg (by omega)]

theorem pack_mem_stored : stored_crc (pack_mem x) = pack_crc x := crc_bytes (pack_crc x)

/-- **Any packs** are the packs of a blob. -/
theorem blob_of_carries (packs : List TextPack) : Carries (blob_of packs) packs := by
  intro i x hx
  have hmem : ∀ k < ADSC_CDTEXT_PACK_BYTES, ptr (blob_of packs) (4 + i * ADSC_CDTEXT_PACK_BYTES) k =
    pack_mem x k := by
    intro k hk
    unfold ptr blob_of
    rw [if_neg (by omega), show 4 + i * ADSC_CDTEXT_PACK_BYTES + k - 4 = i *
      ADSC_CDTEXT_PACK_BYTES + k by omega,
      Nat.add_comm, Nat.add_mul_div_right _ _ (by decide), Nat.add_mul_mod_self_right, Nat.div_eq_of_lt hk,
      Nat.mod_eq_of_lt hk, Nat.zero_add, hx]
  have hcrc : adsc_crc16 (ptr (blob_of packs) (4 + i * ADSC_CDTEXT_PACK_BYTES)) 16 =
    adsc_crc16 (pack_body x) 16 :=
    (crc16_congr fun k hk => hmem k (by unfold ADSC_CDTEXT_PACK_BYTES; omega)).trans pack_mem_crc
  have hstored : stored_crc (ptr (blob_of packs) (4 + i * ADSC_CDTEXT_PACK_BYTES)) = pack_crc x := by
    unfold stored_crc
    rw [hmem 16 (by decide), hmem 17 (by decide)]
    exact pack_mem_stored
  rw [hcrc, hstored]
  unfold pack_crc
  refine ⟨fun hin => ?_, fun hin => ?_⟩
  · refine ⟨?_, hmem 0 (by decide), hmem 1 (by decide), ?_, fun k hk => ?_⟩
    · rw [hcrc, hstored, pack_crc, if_pos hin, BitVec.not_not]
    · rw [hmem 3 (by decide), show pack_mem x 3 = 0 from rfl]
      decide
    · rw [hmem _ (by unfold ADSC_CDTEXT_PACK_BYTES; omega)]
      unfold pack_mem pack_body
      rw [if_neg (by omega), if_neg (by omega), if_neg (by omega), if_neg (by omega), if_neg (by omega),
        Nat.add_sub_cancel_left]
  · rw [hin]
    exact not_ne_self _

end

/-! ## The stream -/

section
variable {lost : Nat → Bool} {p : Nat} {a : Assembler} {l m : List TextByte} {x : TextByte}

theorem text_run_append : text_run lost p a (l ++ m) = text_run lost (p + l.length)
    (text_run lost p a l) m := by
  unfold text_run
  rw [List.zipIdx_append, List.foldl_append]

theorem text_run_cons : text_run lost p a (x :: l) = text_run lost (p + 1) (text_step lost a (x, p)) l :=
  rfl

/-- Bytes of payloads that are lost. -/
theorem text_run_lost (h : ∀ q, p ≤ q → q < p + l.length → lost (q / 12) = true) :
    text_run lost p a l = a := by
  induction l generalizing p a with
  | nil => rfl
  | cons x l ih =>
    rw [List.length_cons] at h
    have hx : text_step lost a (x, p) = a := if_pos (h p le_rfl (by omega))
    rw [text_run_cons, hx, ih fun q hq hlt => h q (by omega) (by omega)]

/-- Bytes within a payload that is intact. -/
theorem text_run_within (h : ∀ q, p ≤ q → q < p + l.length → lost (q / 12) = false ∧ q % 12 ≠ 0) :
    text_run lost p a l = (l.map Prod.snd).foldl put_char a := by
  induction l generalizing p a with
  | nil => rfl
  | cons x l ih =>
    rw [List.length_cons] at h
    obtain ⟨hkept, hmid⟩ := h p le_rfl (by omega)
    have hx : text_step lost a (x, p) = put_char a x.2 := by
      unfold text_step
      dsimp only
      rw [hkept, if_neg (by decide), if_neg hmid]
    rw [text_run_cons, hx, ih fun q hq hlt => h q (by omega) (by omega)]
    rfl

/-- A payload is a pack. -/
theorem text_run_payload (j : Nat) (hl : l.length = 12) (ty : TextType) : text_run lost (12 * j) a l =
    a.feed ⟨ty, (l.getD 0 (0, 0)).1, l.map Prod.snd, !lost j⟩ := by
  unfold Assembler.feed
  cases hj : lost j with
  | true =>
    simp only [Bool.not_true, Bool.false_eq_true, if_false]
    exact text_run_lost fun q hq hlt => by rw [show q / 12 = j by omega, hj]
  | false =>
    simp only [Bool.not_false, if_true]
    cases l with
    | nil => cases hl
    | cons x l =>
      rw [List.length_cons] at hl
      have hx : text_step lost a (x, 12 * j) = put_char { a with track := x.1 } x.2 := by
        unfold text_step
        dsimp only
        rw [Nat.mul_div_cancel_left _ (by decide), hj, if_neg (by decide), if_pos (Nat.mul_mod_right ..)]
      rw [text_run_cons, hx, text_run_within fun q hq hlt =>
        ⟨by rw [show q / 12 = j by omega, hj], by omega⟩]
      rfl

/-- The zeros at the end of the last payload. -/
def text_pad (l : List TextByte) : List TextByte :=
  List.replicate ((l.length + 11) / 12 * 12 - l.length) (0, 0)

theorem getD_pad (q : Nat) : (l ++ text_pad l).getD q (0, 0) = l.getD q (0, 0) := by
  rcases Nat.lt_or_ge q l.length with h | h
  · rw [List.getD_append _ _ _ _ h]
  · rw [List.getD_append_right _ _ _ _ h, List.getD_eq_default _ _ h]
    unfold text_pad
    simp [List.getD_eq_getElem?_getD, List.getElem?_replicate]
    split <;> rfl

/-- **The packs of a stream** are its bytes and the zeros after them. -/
theorem type_packs_run (ty : TextType) (lost : Nat → Bool) (a : Assembler) (l : List TextByte) :
    (type_packs ty lost l).foldl Assembler.feed a = text_run lost 0 a (l ++ text_pad l) := by
  have hlen : (l ++ text_pad l).length = (l.length + 11) / 12 * 12 := by
    rw [List.length_append]
    unfold text_pad
    rw [List.length_replicate]
    omega
  have h := Loop.foldl_range_inv (n := (l.length + 11) / 12) (s := a)
    (f := fun a j => a.feed ⟨ty, (l.getD (12 * j) (0, 0)).1,
      (List.range 12).map fun k => (l.getD (12 * j + k) (0, 0)).2, !lost j⟩)
    (fun j b => b = text_run lost 0 a ((l ++ text_pad l).take (12 * j))) rfl ?_
  · unfold type_packs
    rw [List.foldl_map, h, ← hlen.trans (Nat.mul_comm ..), List.take_length]
  · rintro j hj b rfl
    have hchunk : (((l ++ text_pad l).drop (12 * j)).take 12).length = 12 := by
      rw [List.length_take, List.length_drop, hlen]
      omega
    rw [Nat.mul_succ, List.take_add, text_run_append, List.length_take, hlen, Nat.zero_add,
      Nat.min_eq_left (by omega), text_run_payload j hchunk ty]
    congr 2
    · rw [← getD_pad]
      simp [List.getD_eq_getElem?_getD]
    · refine List.ext_getElem (by simpa using hchunk.symm) fun k hk hk' => ?_
      rw [List.length_map, List.length_range] at hk
      simp only [List.getElem_map, List.getElem_range, List.getElem_take, List.getElem_drop]
      rw [← getD_pad, List.getD_eq_getElem _ _ (by omega)]

end

/-! ## The end of the stream -/

/-- No string stands where the next one would go, or after it. -/
structure Assembler.Rest (a : Assembler) : Prop where
  buf : a.buf = []
  text : ∀ t : Nat, a.track ≤ t → a.text t = []

section
variable {a : Assembler} {t k : Nat}

theorem field_for_of_le (h : t ≤ 99) : field_for t = some t := by
  unfold field_for
  rw [if_neg (by omega)]
  rfl

theorem field_for_some {track : Int} (h : field_for track = some t) : track = t := by
  unfold field_for at h
  split at h
  · cases h
  · cases h
    omega

theorem Assembler.commit_nil (h : a.buf = []) : a.commit = [] := by
  unfold Assembler.commit
  rw [h, if_neg fun h => by cases h.1]

/-- A zero after the last string. -/
theorem Assembler.Rest.pad (h : a.Rest) : (put_char a 0).Rest ∧ (put_char a 0).text = a.text := by
  have htext : (put_char a 0).text = a.text := by
    unfold put_char
    rw [if_neg (not_not.2 rfl)]
    dsimp only
    split
    · next t ht =>
      rw [a.commit_nil h.buf, Function.update_eq_self_iff, h.text t (le_of_eq (field_for_some ht))]
    · rfl
  refine ⟨⟨rfl, fun t ht => ?_⟩, htext⟩
  rw [htext]
  exact h.text t (Int.le_of_lt (Int.lt_of_add_one_le ht))

theorem Assembler.Rest.pads (h : a.Rest) (k : Nat) :
    ((List.replicate k (0 : BitVec 8)).foldl put_char a).text = a.text := by
  induction k generalizing a with
  | zero => rfl
  | succ k ih => rw [List.replicate_succ, List.foldl_cons, ih h.pad.1, h.pad.2]

/-- **The zeros** after the strings leave the text. -/
theorem text_run_pad {lost : Nat → Bool} {l : List TextByte} (h : lost (l.length / 12) = false →
    l.length % 12 ≠ 0 → a.Rest) :
    (text_run lost l.length a (text_pad l)).text = a.text := by
  unfold text_pad
  by_cases hfull : l.length % 12 = 0
  · rw [show (l.length + 11) / 12 * 12 - l.length = 0 by omega]
    rfl
  · cases hlost : lost (l.length / 12) with
    | true =>
      refine congrArg Assembler.text (text_run_lost fun q hq hlt => ?_)
      rw [List.length_replicate] at hlt
      rw [show q / 12 = l.length / 12 by omega, hlost]
    | false =>
      rw [text_run_within fun q hq hlt => ?_, List.map_replicate]
      · exact (h hlost hfull).pads _
      · rw [List.length_replicate] at hlt
        rw [show q / 12 = l.length / 12 by omega]
        exact ⟨hlost, by omega⟩

end

/-! ## The blob -/

section
variable {raw : Mem} {packs : List TextPack} {given : TextType → Nat → Option (List (BitVec 8))}
  {lost : TextType → Nat → Bool}

/-- A byte of the stream is of a track that has a string. -/
theorem mem_text_stream {given : Nat → Option (List (BitVec 8))} {x : TextByte}
    (h : x ∈ text_stream given) :
    x.1 ≤ 99 := by
  obtain ⟨t, ht, hx⟩ := List.mem_flatMap.1 h
  have ht := List.mem_range.1 ht
  unfold text_entry at hx
  cases hg : given t with
  | none =>
    rw [hg] at hx
    exact absurd hx List.not_mem_nil
  | some s =>
    rw [hg] at hx
    rcases List.mem_append.1 hx with hx | hx
    · obtain ⟨c, -, rfl⟩ := List.mem_map.1 hx
      exact Nat.le_of_lt_succ ht
    · rw [List.mem_singleton.1 hx]
      exact Nat.le_of_lt_succ ht

/-- The packs of the four types, interleaved in any way, some of them damaged. -/
def Mixed (given : TextType → Nat → Option (List (BitVec 8))) (lost : TextType → Nat → Bool)
    (packs : List TextPack) : Prop :=
  ∀ ty, (packs.filter fun x => x.ty = ty) = type_packs ty (lost ty) (text_stream (given ty))

theorem Mixed.shape (h : Mixed given lost packs) {x : TextPack} (hx : x ∈ packs) :
    x.track ≤ 99 ∧ x.payload.length = 12 := by
  have hmem : x ∈ type_packs x.ty (lost x.ty) (text_stream (given x.ty)) := by
    rw [← h]
    exact List.mem_filter.2 ⟨hx, by simp⟩
  obtain ⟨j, hj, hx⟩ := List.mem_map.1 hmem
  have hj := List.mem_range.1 hj
  refine ⟨?_, by rw [← hx]; simp⟩
  rw [← hx]
  dsimp only
  rw [List.getD_eq_getElem _ _ (by omega)]
  exact mem_text_stream (List.getElem_mem _)

/-- The assembler of a type at the end. -/
def text_end (given : Nat → Option (List (BitVec 8))) (lost : Nat → Bool) : Assembler :=
  text_run lost 0 {} (text_stream given ++ text_pad (text_stream given))

/-- **The text of a blob**, when a pack of it is intact. -/
theorem decode_text (hmix : Mixed given lost packs) (hraw : Carries raw packs) :
    accudisc_cdtext_decode raw (4 + packs.length * ADSC_CDTEXT_PACK_BYTES) true =
      if packs.any TextPack.intact then .ok fun ty => (text_end (given ty) (lost ty)).text
      else .error ACCUDISC_ERR_SHORT := by
  obtain ⟨hasm, hused⟩ := decode_packs hraw fun x hx => hmix.shape hx
  unfold accudisc_cdtext_decode
  rw [Nat.add_sub_cancel_left, Nat.mul_div_cancel _ (by decide)]
  dsimp only
  by_cases hany : packs.any TextPack.intact = true
  · have hpos : 0 < packs.countP TextPack.intact := by
      obtain ⟨x, hx, hin⟩ := List.any_eq_true.1 hany
      exact List.countP_pos_iff.2 ⟨x, hx, hin⟩
    have hlen := List.countP_le_length (p := TextPack.intact) (l := packs)
    rw [if_neg (by unfold ADSC_CDTEXT_PACK_BYTES; omega), if_neg Bool.false_ne_true.symm,
      if_neg (by omega), if_pos hany]
    refine congrArg Except.ok (funext fun ty => ?_)
    rw [hasm ty, hmix ty, type_packs_run]
    rfl
  · have hzero : packs.countP TextPack.intact = 0 := by
      rw [List.countP_eq_zero]
      exact fun x hx hin => hany (List.any_eq_true.2 ⟨x, hx, hin⟩)
    rw [if_neg hany, if_neg Bool.false_ne_true.symm, if_pos (hused.trans hzero), ite_self]

end

end Accudisc
