import Accudisc.Meta.Proof.CdText

/-!
# What the intake of a blob accepts and repairs

`Checked` is what holds of the blob after its first packs: only the CRC fields that the drive dropped
differ, and every one is right. The decoder's own CRC test then passes every pack.
-/

namespace Accudisc

/-- Pack `i` of a blob. -/
def blob_pack (blob : Mem) (i : Nat) : Mem := ptr blob (HDR_LEN + i * ADSC_CDTEXT_PACK_BYTES)

/-- The packs that a blob of `len` bytes has room for. -/
def blob_packs (len : Nat) : Nat := (len - HDR_LEN) / ADSC_CDTEXT_PACK_BYTES

/-- The length that the header gives. -/
def header_len (blob : Mem) : Nat := (blob 0).toNat * 256 + (blob 1).toNat

/-- The stored CRC is that of the payload. -/
def CrcRight (p : Mem) : Prop := stored_crc p = ~~~(adsc_crc16 p 16)

/-- The drive dropped the CRC: it is zero, and wrong. -/
def CrcDropped (p : Mem) : Prop := stored_crc p = 0 ∧ ¬CrcRight p

instance (p : Mem) : Decidable (CrcRight p) := inferInstanceAs (Decidable (_ = _))
instance (p : Mem) : Decidable (CrcDropped p) := inferInstanceAs (Decidable (_ ∧ _))

/-- The blob as the call leaves it, also where it refuses. -/
def blob_after (r : Except (Int × Mem × CdTextInfo) (Mem × CdTextInfo)) : Mem :=
  match r with
  | .ok st => st.1
  | .error e => e.2.1

/-! ## The decoder's test -/

/-- The CRC gate of the decoder. -/
def CrcRejected (p : Mem) : Prop := adsc_crc16 p 16 ≠ ~~~(stored_crc p)

/-- What the decoder takes from a pack that passed the gate. -/
def shown_type (p : Mem) : Option TextType :=
  if p 1 &&& 0x80 ≠ 0 then none
  else if p 3 &&& 0x80 ≠ 0 then none
  else if (p 3 >>> 4) &&& 0x07 ≠ 0 then none
  else text_type (p 0)

/-- One turn over the packs, with what a pack is in `ty`. -/
def decode_pack_by (ty : Mem → Option TextType) (raw : Mem) (d : TextDecoder) (i : Nat) : TextDecoder :=
  let p := ptr raw (4 + i * ADSC_CDTEXT_PACK_BYTES)
  match ty p with
  | none => d
  | some ty =>
    let a := { d.asm ty with track := (p 1 &&& 0x7f).toNat }
    { asm := Function.update d.asm ty ((List.range 12).foldl (fun a i => put_char a (p (4 + i))) a)
      used := d.used + 1 }

/-- The decoder, with what a pack is in `ty`. -/
def cdtext_decode_by (ty : Mem → Option TextType) (raw : Mem) (len : Nat) (alloc : Bool) :
    Except Int CdText :=
  if len < 4 + ADSC_CDTEXT_PACK_BYTES then .error ACCUDISC_ERR_SHORT
  else if alloc = false then .error ACCUDISC_ERR_NOMEM
  else
    let d := (List.range ((len - 4) / ADSC_CDTEXT_PACK_BYTES)).foldl (decode_pack_by ty raw) {}
    if d.used = 0 then .error ACCUDISC_ERR_SHORT else .ok fun ty => (d.asm ty).text

theorem decode_by_pack_type (raw : Mem) (len : Nat) (alloc : Bool) :
    accudisc_cdtext_decode raw len alloc = cdtext_decode_by pack_type raw len alloc := rfl

section
variable {p p' blob m raw : Mem} {len n k i : Nat} {alloc : Bool} {info info' : CdTextInfo}
  {st st' : Mem × CdTextInfo}

theorem pack_type_of_right (h : CrcRight p) : pack_type p = shown_type p := by
  unfold pack_type shown_type
  rw [if_neg]
  rw [h, BitVec.not_not]
  exact not_not.2 rfl

theorem CrcRight.not_rejected (h : CrcRight p) : ¬CrcRejected p := by
  unfold CrcRejected
  rw [h, BitVec.not_not]
  exact not_not.2 rfl

/-- Where every CRC is right the gate takes nothing away. -/
theorem decode_by_shown (h : ∀ i < blob_packs len, CrcRight (blob_pack raw i)) :
    accudisc_cdtext_decode raw len alloc = cdtext_decode_by shown_type raw len alloc := by
  rw [decode_by_pack_type]
  unfold cdtext_decode_by
  have hfold : (List.range ((len - 4) / ADSC_CDTEXT_PACK_BYTES)).foldl (decode_pack_by pack_type raw) {} =
      (List.range ((len - 4) / ADSC_CDTEXT_PACK_BYTES)).foldl (decode_pack_by shown_type raw) {} := by
    refine List.foldl_ext _ _ _ fun d i hi => ?_
    have := pack_type_of_right (h i (List.mem_range.1 hi))
    unfold blob_pack HDR_LEN at this
    unfold decode_pack_by
    simp only [this]
  rw [hfold]

/-! ## One pack -/

theorem stored_crc_congr (h : ∀ j, 16 ≤ j → j < 18 → p j = p' j) : stored_crc p = stored_crc p' := by
  unfold stored_crc
  rw [h 16 (by omega) (by omega), h 17 (by omega) (by omega)]

theorem crcRight_congr (h : ∀ j < 18, p j = p' j) : CrcRight p ↔ CrcRight p' := by
  unfold CrcRight
  rw [stored_crc_congr fun j _ hj => h j hj, crc16_congr fun j hj => h j (by omega)]

theorem take_size_info_congr (h : ∀ j < 16, p j = p' j) :
    take_size_info p info = take_size_info p' info := by
  unfold take_size_info
  rw [h 0 (by omega), h 1 (by omega), h 3 (by omega), h 5 (by omega), h 6 (by omega)]

theorem take_size_info_recomputed (c : Nat) :
    take_size_info p { info with crc_recomputed := c } =
      { take_size_info p info with crc_recomputed := c } := by
  unfold take_size_info
  split <;> rfl

/-- The CRC of pack `i` set from its payload. -/
def set_crc (m : Mem) (i : Nat) : Mem :=
  let want := ~~~(adsc_crc16 (blob_pack m i) 16)
  Function.update (Function.update m (HDR_LEN + i * ADSC_CDTEXT_PACK_BYTES + 16) ((want >>> 8).setWidth 8))
    (HDR_LEN + i * ADSC_CDTEXT_PACK_BYTES + 17) (want.setWidth 8)

theorem set_crc_of_ne {a : Nat} (h : a ≠ HDR_LEN + i * ADSC_CDTEXT_PACK_BYTES + 16)
    (h' : a ≠ HDR_LEN + i * ADSC_CDTEXT_PACK_BYTES + 17) : set_crc m i a = m a := by
  unfold set_crc
  rw [Function.update_of_ne h', Function.update_of_ne h]

/-- Setting the CRC makes it right. -/
theorem set_crc_right (m : Mem) (i : Nat) : CrcRight (blob_pack (set_crc m i) i) := by
  unfold CrcRight stored_crc
  have hcrc : adsc_crc16 (blob_pack (set_crc m i) i) 16 = adsc_crc16 (blob_pack m i) 16 :=
    crc16_congr fun j hj => set_crc_of_ne (by omega) (by omega)
  rw [hcrc]
  unfold blob_pack ptr set_crc
  rw [Function.update_of_ne (by omega), Function.update_self, Function.update_self]
  exact crc_bytes _

/-- One turn, by the three cases of the CRC. -/
theorem validate_pack_eq (st : Mem × CdTextInfo) (i : Nat) : validate_pack st i =
    if CrcRight (blob_pack st.1 i) then .ok (st.1, take_size_info (blob_pack st.1 i) st.2)
    else if stored_crc (blob_pack st.1 i) = 0 then
      .ok (set_crc st.1 i,
        take_size_info (blob_pack st.1 i) { st.2 with crc_recomputed := st.2.crc_recomputed + 1 })
    else .error (ACCUDISC_ERR_CRC, st.1, { st.2 with bad_pack := i }) := rfl

/-! ## The packs -/

/-- What the size information says after `k` packs, whose payload is that of the blob. -/
def scan_info (blob : Mem) (info : CdTextInfo) (k : Nat) : CdTextInfo :=
  (List.range k).foldl (fun info i => take_size_info (blob_pack blob i) info) info

/-- The packs of the first `k` whose CRC was dropped. -/
def dropped_before (blob : Mem) (k : Nat) : Nat := (List.range k).countP fun i =>
    CrcDropped (blob_pack blob i)

/-- What holds after `k` packs. -/
structure Checked (blob : Mem) (info : CdTextInfo) (k : Nat) (st : Mem × CdTextInfo) : Prop where
  bytes : ∀ a, st.1 a ≠ blob a → ∃ i < k, CrcDropped (blob_pack blob i) ∧
    (a = HDR_LEN + i * ADSC_CDTEXT_PACK_BYTES + 16 ∨ a = HDR_LEN + i * ADSC_CDTEXT_PACK_BYTES + 17)
  right : ∀ i < k, CrcRight (blob_pack st.1 i)
  sound : ∀ i < k, CrcRight (blob_pack blob i) ∨ stored_crc (blob_pack blob i) = 0
  info : st.2 = { scan_info blob info k with crc_recomputed := dropped_before blob k }

theorem Checked.init (hinfo : info.crc_recomputed = 0) : Checked blob info 0 (blob, info) where
  bytes := fun a ha => absurd rfl ha
  right := fun i hi => absurd hi (Nat.not_lt_zero i)
  sound := fun i hi => absurd hi (Nat.not_lt_zero i)
  info := by
    show info = { info with crc_recomputed := 0 }
    rw [← hinfo]

/-- The packs from `k` on are those of the blob. -/
theorem Checked.ahead (h : Checked blob info k st) {j : Nat} (hi : k ≤ i) (hj : j < 18) :
    blob_pack st.1 i j = blob_pack blob i j := by
  by_contra hne
  obtain ⟨i', hi', -, ha⟩ := h.bytes _ hne
  unfold ADSC_CDTEXT_PACK_BYTES at ha
  omega

theorem Checked.right_iff (h : Checked blob info k st) (hi : k ≤ i) :
    CrcRight (blob_pack st.1 i) ↔ CrcRight (blob_pack blob i) :=
  crcRight_congr fun _ hj => h.ahead hi hj

theorem Checked.stored (h : Checked blob info k st) (hi : k ≤ i) :
    stored_crc (blob_pack st.1 i) = stored_crc (blob_pack blob i) :=
  stored_crc_congr fun _ _ hj => h.ahead hi hj

theorem dropped_succ (blob : Mem) (k : Nat) :
    dropped_before blob (k + 1) = dropped_before blob k + if CrcDropped (blob_pack blob k) then 1
      else 0 := by
  unfold dropped_before
  rw [List.range_succ, List.countP_append, List.countP_singleton]
  simp only [decide_eq_true_eq]

theorem scan_succ (blob : Mem) (k : Nat) :
    scan_info blob info (k + 1) = take_size_info (blob_pack blob k) (scan_info blob info k) := by
  unfold scan_info
  rw [List.range_succ, List.foldl_append]
  rfl

/-- A pack whose CRC is right is left as it is. -/
theorem Checked.keep (h : Checked blob info k st) (hr : CrcRight (blob_pack blob k)) :
    Checked blob info (k + 1) (st.1, take_size_info (blob_pack st.1 k) st.2) where
  bytes := fun a ha => by
    obtain ⟨i, hi, hd⟩ := h.bytes a ha
    exact ⟨i, by omega, hd⟩
  right := fun i hi => by
    rcases Nat.lt_succ_iff_lt_or_eq.1 hi with hlt | rfl
    · exact h.right i hlt
    · exact (h.right_iff le_rfl).2 hr
  sound := fun i hi => by
    rcases Nat.lt_succ_iff_lt_or_eq.1 hi with hlt | rfl
    · exact h.sound i hlt
    · exact .inl hr
  info := by
    show take_size_info (blob_pack st.1 k) st.2 = _
    rw [take_size_info_congr fun j hj => h.ahead le_rfl (by omega), h.info,
      take_size_info_recomputed, scan_succ,
      dropped_succ, if_neg fun hd : CrcDropped _ => hd.2 hr]
    rfl

/-- A pack whose CRC was dropped has it set. -/
theorem Checked.repair (h : Checked blob info k st) (hd : CrcDropped (blob_pack blob k)) :
    Checked blob info (k + 1) (set_crc st.1 k,
      take_size_info (blob_pack st.1 k) { st.2 with crc_recomputed := st.2.crc_recomputed + 1 }) where
  bytes := fun a ha => by
    by_cases h16 : a = HDR_LEN + k * ADSC_CDTEXT_PACK_BYTES + 16
    · exact ⟨k, by omega, hd, .inl h16⟩
    by_cases h17 : a = HDR_LEN + k * ADSC_CDTEXT_PACK_BYTES + 17
    · exact ⟨k, by omega, hd, .inr h17⟩
    simp only [set_crc_of_ne h16 h17] at ha
    obtain ⟨i, hi, hd'⟩ := h.bytes a ha
    exact ⟨i, by omega, hd'⟩
  right := fun i hi => by
    rcases Nat.lt_succ_iff_lt_or_eq.1 hi with hlt | rfl
    · refine (crcRight_congr fun j hj => ?_).1 (h.right i hlt)
      show st.1 _ = set_crc st.1 k _
      refine (set_crc_of_ne ?_ ?_).symm <;> (unfold ADSC_CDTEXT_PACK_BYTES; omega)
    · exact set_crc_right st.1 i
  sound := fun i hi => by
    rcases Nat.lt_succ_iff_lt_or_eq.1 hi with hlt | rfl
    · exact h.sound i hlt
    · exact .inr hd.1
  info := by
    show take_size_info (blob_pack st.1 k) _ = _
    rw [take_size_info_congr fun j hj => h.ahead le_rfl (by omega), take_size_info_recomputed, h.info,
      take_size_info_recomputed, scan_succ, dropped_succ, if_pos hd]

theorem validate_pack_accepts (h : CrcRight (blob_pack st.1 i) ∨ stored_crc (blob_pack st.1 i) = 0) :
    ∃ st', validate_pack st i = .ok st' := by
  rw [validate_pack_eq]
  by_cases hr : CrcRight (blob_pack st.1 i)
  · exact ⟨_, if_pos hr⟩
  · exact ⟨_, (if_neg hr).trans (if_pos (h.resolve_left hr))⟩

theorem Checked.step (h : Checked blob info k st) (hst : validate_pack st k = .ok st') :
    Checked blob info (k + 1) st' := by
  rw [validate_pack_eq] at hst
  by_cases hr : CrcRight (blob_pack st.1 k)
  · rw [if_pos hr] at hst
    cases hst
    exact h.keep ((h.right_iff le_rfl).1 hr)
  · rw [if_neg hr] at hst
    by_cases hz : stored_crc (blob_pack st.1 k) = 0
    · rw [if_pos hz] at hst
      cases hst
      exact h.repair ⟨h.stored le_rfl ▸ hz, fun hr' => hr ((h.right_iff le_rfl).2 hr')⟩
    · rw [if_neg hz] at hst
      cases hst

/-- **The packs**: the loop ends exactly where each CRC is right or zero. -/
theorem validate_packs_iff (hinfo : info.crc_recomputed = 0) :
    (∃ st, (List.range n).foldlM validate_pack (blob, info) = .ok st) ↔
      ∀ i < n, CrcRight (blob_pack blob i) ∨ stored_crc (blob_pack blob i) = 0 := by
  constructor
  · intro h
    obtain ⟨st, hst⟩ := h
    exact (Loop.foldlM_range_inv (Checked blob info) (Checked.init hinfo)
      (fun i _ _ _ hc hs => hc.step hs) hst).sound
  · intro h
    have := Loop.foldlM_range_ok (Checked blob info) (f := validate_pack) (n := n) (Checked.init hinfo) ?_
    · obtain ⟨st, hst, -⟩ := this
      exact ⟨st, hst⟩
    intro i hi t ht
    have hacc : CrcRight (blob_pack t.1 i) ∨ stored_crc (blob_pack t.1 i) = 0 := by
      rw [ht.right_iff le_rfl, ht.stored le_rfl]
      exact h i hi
    obtain ⟨t', ht'⟩ := validate_pack_accepts hacc
    exact ⟨t', ht', ht.step ht'⟩

theorem validate_packs_checked (hinfo : info.crc_recomputed = 0)
    (h : (List.range n).foldlM validate_pack (blob, info) = .ok st) : Checked blob info n st :=
  Loop.foldlM_range_inv (Checked blob info) (Checked.init hinfo) (fun _ _ _ _ hc hs => hc.step hs) h

theorem dropped_none (h : ∀ i < n, CrcRight (blob_pack blob i)) : dropped_before blob n = 0 := by
  unfold dropped_before
  refine List.countP_eq_zero.2 fun i hi => ?_
  simp only [decide_eq_true_eq]
  exact fun hd => hd.2 (h i (List.mem_range.1 hi))

/-- **Right CRCs**: nothing is changed and nothing is counted. -/
theorem validate_packs_right (hinfo : info.crc_recomputed = 0) (h : ∀ i < n, CrcRight (blob_pack blob i)) :
    (List.range n).foldlM validate_pack (blob, info) =
      .ok (blob, { scan_info blob info n with crc_recomputed := 0 }) := by
  obtain ⟨st, hst⟩ := (validate_packs_iff hinfo).2 fun i hi => .inl (h i hi)
  have hc := validate_packs_checked hinfo hst
  have hbytes : st.1 = blob := by
    funext a
    by_contra hne
    obtain ⟨i, hi, hd, -⟩ := hc.bytes a hne
    exact hd.2 (h i hi)
  have hinf := hc.info
  rw [dropped_none h] at hinf
  rw [hst, ← hinf, ← hbytes]

theorem header_eq (blob : Mem) : (blob 0).toNat <<< 8 ||| (blob 1).toNat = header_len blob := by
  rw [← Nat.shiftLeft_add_eq_or_of_lt (blob 1).isLt, Nat.shiftLeft_eq]
  rfl

/-- What is asked of a blob before its packs. -/
def Framed (blob : Mem) (len : Nat) : Prop :=
  ∃ n, 1 ≤ n ∧ len = HDR_LEN + ADSC_CDTEXT_PACK_BYTES * n ∧ header_len blob = len - 2

theorem framed_iff : Framed blob len ↔ ¬len < HDR_LEN + ADSC_CDTEXT_PACK_BYTES ∧
    ¬(len - HDR_LEN) % ADSC_CDTEXT_PACK_BYTES ≠ 0 ∧ ¬header_len blob ≠ len - 2 := by
  unfold Framed HDR_LEN ADSC_CDTEXT_PACK_BYTES
  constructor
  · intro h
    obtain ⟨n, hn, hlen, hh⟩ := h
    exact ⟨by omega, by omega, not_not.2 hh⟩
  · intro h
    exact ⟨(len - 4) / 18, by omega, by omega, not_not.1 h.2.2⟩

theorem validate_framed (h : Framed blob len) : adsc_cdtext_blob_validate blob len =
    (List.range (blob_packs len)).foldlM validate_pack (blob, { npacks := blob_packs len }) := by
  obtain ⟨h1, h2, h3⟩ := framed_iff.1 h
  unfold adsc_cdtext_blob_validate
  rw [if_neg h1, if_neg h2, if_neg (header_eq blob ▸ h3)]
  rfl

theorem framed_of_ok (h : adsc_cdtext_blob_validate blob len = .ok st) : Framed blob len := by
  unfold adsc_cdtext_blob_validate at h
  rw [check_eq_ok, check_eq_ok, check_eq_ok, header_eq] at h
  exact framed_iff.2 ⟨h.1, h.2.1, h.2.2.1⟩

theorem validate_unframed (h : ¬Framed blob len) :
    blob_after (adsc_cdtext_blob_validate blob len) = blob := by
  unfold adsc_cdtext_blob_validate
  split
  · rfl
  split
  · rfl
  split
  · rfl
  rename_i h1 h2 h3
  exact absurd (framed_iff.2 ⟨h1, h2, header_eq blob ▸ h3⟩) h

/-- The repair leaves the header. -/
theorem Checked.header (h : Checked blob info n st) : header_len st.1 = header_len blob := by
  have hkeep : ∀ a < 2, st.1 a = blob a := by
    intro a ha
    by_contra hne
    obtain ⟨i, -, -, ha'⟩ := h.bytes a hne
    unfold HDR_LEN at ha'
    omega
  unfold header_len
  rw [hkeep 0 (by omega), hkeep 1 (by omega)]

/-- The repair leaves the size information. -/
theorem Checked.scan (h : Checked blob info n st) (info' : CdTextInfo) (k : Nat) :
    scan_info st.1 info' k = scan_info blob info' k := by
  refine List.foldl_ext _ _ _ fun inf i _ => take_size_info_congr fun j hj => ?_
  by_contra hne
  obtain ⟨i', -, -, ha⟩ := h.bytes _ hne
  unfold ADSC_CDTEXT_PACK_BYTES at ha
  omega

end

/-- **The intake of a blob**: accepted exactly where it is framed and each CRC is right or zero; only the
dropped CRCs are written and counted, a second pass finds nothing to do, and the decoder's gate passes
every pack. -/
theorem adsc_cdtext_blob_validate_law (blob : Mem) (len : Nat) :
    ((∃ st, adsc_cdtext_blob_validate blob len = .ok st) ↔
      ∃ n, 1 ≤ n ∧ len = HDR_LEN + ADSC_CDTEXT_PACK_BYTES * n ∧ header_len blob = len - 2 ∧
        ∀ i < n, CrcRight (blob_pack blob i) ∨ stored_crc (blob_pack blob i) = 0) ∧
    (∀ out info, adsc_cdtext_blob_validate blob len = .ok (out, info) →
      (∀ a, out a ≠ blob a → ∃ i < blob_packs len, CrcDropped (blob_pack blob i) ∧
        (a = HDR_LEN + i * ADSC_CDTEXT_PACK_BYTES + 16 ∨ a = HDR_LEN + i * ADSC_CDTEXT_PACK_BYTES + 17)) ∧
      info.crc_recomputed = (List.range (blob_packs len)).countP (fun i => CrcDropped (blob_pack blob i)) ∧
      adsc_cdtext_blob_validate out len = .ok (out, { info with crc_recomputed := 0 }) ∧
      (∀ i < blob_packs len, ¬CrcRejected (blob_pack out i)) ∧
      ∀ alloc, accudisc_cdtext_decode out len alloc = cdtext_decode_by shown_type out len alloc) ∧
    ((∀ i < blob_packs len, CrcRight (blob_pack blob i)) →
      blob_after (adsc_cdtext_blob_validate blob len) = blob) := by
  have hpacks : ∀ n, len = HDR_LEN + ADSC_CDTEXT_PACK_BYTES * n → blob_packs len = n := by
    intro n hn
    unfold blob_packs
    rw [hn, Nat.add_sub_cancel_left, Nat.mul_div_cancel_left n (by decide)]
  refine ⟨⟨fun h => ?_, fun h => ?_⟩, fun out info h => ?_, fun h => ?_⟩
  · obtain ⟨st, hst⟩ := h
    have hf := framed_of_ok hst
    have hrun := validate_framed hf
    obtain ⟨n, hn, hlen, hh⟩ := hf
    refine ⟨n, hn, hlen, hh, ?_⟩
    rw [hrun, hpacks n hlen] at hst
    exact (validate_packs_iff rfl).1 ⟨st, hst⟩
  · obtain ⟨n, hn, hlen, hh, hcrc⟩ := h
    rw [validate_framed ⟨n, hn, hlen, hh⟩, hpacks n hlen]
    exact (validate_packs_iff rfl).2 hcrc
  · have hf := framed_of_ok h
    rw [validate_framed hf] at h
    have hc := validate_packs_checked rfl h
    have hinfo : info = _ := hc.info
    have hf' : Framed out len := by
      obtain ⟨n, hn, hlen, hh⟩ := hf
      exact ⟨n, hn, hlen, hc.header.trans hh⟩
    refine ⟨hc.bytes, by rw [hinfo]; rfl, ?_, fun i hi => (hc.right i hi).not_rejected,
      fun alloc => decode_by_shown hc.right⟩
    rw [validate_framed hf', validate_packs_right rfl hc.right, hc.scan, hinfo]
  · by_cases hf : Framed blob len
    · rw [validate_framed hf, validate_packs_right rfl h]
      rfl
    · exact validate_unframed hf

end Accudisc
