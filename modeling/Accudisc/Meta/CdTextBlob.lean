import Accudisc.Cdda.SubQ
import Accudisc.Err
import Accudisc.Meta.CdTextEncode

/-!
# The CD-Text blob (`cdtext_blob.c`)

The check of a READ TOC format-05 blob before it is burned, and the repair of the packs whose CRC the
drive dropped.
-/

namespace Accudisc

def HDR_LEN : Nat := 4

structure CdTextInfo where
  npacks : Nat := 0
  crc_recomputed : Nat := 0
  have_size_info : Bool := false
  si_first_track : BitVec 8 := 0
  si_last_track : BitVec 8 := 0
  bad_pack : Nat := 0

/-- The CRC field of a pack. -/
def stored_crc (p : Mem) : BitVec 16 := (p 16).setWidth 16 <<< 8 ||| (p 17).setWidth 16

/-- Take the track range of the first size information. -/
def take_size_info (p : Mem) (info : CdTextInfo) : CdTextInfo :=
  if info.have_size_info = false ∧ p 0 = 0x8f ∧ p 1 &&& 0x80 = 0 ∧ (p 3 >>> 4) &&& 0x07 = 0 then
    { info with have_size_info := true, si_first_track := p 5, si_last_track := p 6 }
  else info

/-- One turn over the packs; an error keeps the blob and what was observed. -/
def validate_pack (st : Mem × CdTextInfo) (i : Nat) : Except (Int × Mem × CdTextInfo) (Mem × CdTextInfo) :=
  let o := HDR_LEN + i * ADSC_CDTEXT_PACK_BYTES
  let p := ptr st.1 o
  let want := ~~~(adsc_crc16 p 16)
  if stored_crc p = want then .ok (st.1, take_size_info p st.2)
  else if stored_crc p = 0 then
    .ok (Function.update (Function.update st.1 (o + 16) ((want >>> 8).setWidth 8)) (o + 17)
      (want.setWidth 8),
      take_size_info p { st.2 with crc_recomputed := st.2.crc_recomputed + 1 })
  else .error (ACCUDISC_ERR_CRC, st.1, { st.2 with bad_pack := i })

/-- The blob of `len` bytes, repaired, and what was observed. -/
def adsc_cdtext_blob_validate (blob : Mem) (len : Nat) :
    Except (Int × Mem × CdTextInfo) (Mem × CdTextInfo) :=
  if len < HDR_LEN + ADSC_CDTEXT_PACK_BYTES then .error (ACCUDISC_ERR_SHORT, blob, {})
  else if (len - HDR_LEN) % ADSC_CDTEXT_PACK_BYTES ≠ 0 then .error (ACCUDISC_ERR_INVAL, blob, {})
  else if (blob 0).toNat <<< 8 ||| (blob 1).toNat ≠ len - 2 then .error (ACCUDISC_ERR_INVAL, blob, {})
  else
    let npacks := (len - HDR_LEN) / ADSC_CDTEXT_PACK_BYTES
    (List.range npacks).foldlM validate_pack (blob, { npacks := npacks })

def adsc_cdtext_sizeinfo_mismatch (info : CdTextInfo) (ntracks : Nat) : Bool :=
  if info.have_size_info = false ∨ ntracks < 1 then false
  else info.si_first_track ≠ 1 ∨ info.si_last_track.toNat ≠ ntracks

/-- The length of a blob that passed is one that its header can hold. -/
theorem blob_len_le {blob : Mem} {len : Nat} {st : Mem × CdTextInfo}
    (h : adsc_cdtext_blob_validate blob len = .ok st) : len ≤ 0x10001 := by
  unfold adsc_cdtext_blob_validate at h
  rw [check_eq_ok, check_eq_ok, check_eq_ok] at h
  obtain ⟨-, -, hlen, -⟩ := h
  have hhdr : (blob 0).toNat <<< 8 ||| (blob 1).toNat < 2 ^ 16 :=
    Nat.or_lt_two_pow (by rw [Nat.shiftLeft_eq]; omega) (by omega)
  omega

end Accudisc
