import Accudisc.Mmc.Cdb

/-!
# The drive reads what was meant (`cdb.c`, `mmc.c`)

`MmcCall.cmd_agrees`: whatever the wrapper, the drive decodes its command to the wrapper's own arguments,
and the transfer has the direction and the length that the drive was told. Fields that are too narrow for
their argument are the hazard, so each wrapper's checks, or what its callers pass (`MmcCall.Given`), have
to keep the argument in the field.
-/

namespace Accudisc

open BigEndian

/-- The command that a call is for. -/
def MmcCall.means : MmcCall → MmcCommand
  | test_unit_ready => .TEST_UNIT_READY
  | inquiry => .INQUIRY 36
  | start_stop start loej => .START_STOP loej start
  | read_toc_raw format time_bit track xfer => .READ_TOC time_bit format track xfer
  | read_buffer_capacity => .READ_BUFFER_CAPACITY 0 12
  | read_disc_info cap => .READ_DISC_INFO 0 (min cap 34)
  | write10 lba nblocks _ => .WRITE10 lba nblocks
  | sync_cache => .SYNC_CACHE
  | send_cue_sheet len => .SEND_CUE len
  | send_opc => .SEND_OPC 1
  | get_performance start_lba max_desc _ => .GET_PERFORMANCE start_lba max_desc 0
  | set_streaming => .SET_STREAMING 28
  | set_cd_speed read_kbps write_kbps rotctl => .SET_CD_SPEED rotctl read_kbps write_kbps
  | get_configuration feature cap => .GET_CONFIG 2 feature cap
  | mode_sense10 page total => .MODE_SENSE10 page total
  | mode_select10 len _ => .MODE_SELECT10 1 len
  | read_cd lba nsec sector_type c2 sub _ _ => .READ_CD sector_type lba nsec 1 c2 sub

/-- What the wrapper does not check: the types of the arguments, and the buffers of its callers. -/
def MmcCall.Given : MmcCall → Prop
  | start_stop start loej => start < 2 ∧ loej < 2
  | read_toc_raw format time_bit track xfer => format < 16 ∧ time_bit < 2 ∧ track < 256 ∧ xfer < 2 ^ 16
  | write10 lba nblocks block_bytes => lba < 2 ^ 32 ∧ nblocks * block_bytes < 2 ^ 32
  | send_cue_sheet len => len < 2 ^ 24
  | get_performance start_lba max_desc cap => start_lba < 2 ^ 32 ∧ max_desc < 2 ^ 16 ∧
      8 + 16 * max_desc ≤ cap
  | set_cd_speed read_kbps write_kbps rotctl => read_kbps < 2 ^ 16 ∧ write_kbps < 2 ^ 16 ∧ rotctl < 4
  | get_configuration feature cap => feature < 2 ^ 16 ∧ cap < 2 ^ 16
  | mode_sense10 page total => page < 64 ∧ total < 2 ^ 16
  | mode_select10 len _ => len < 2 ^ 16
  | read_cd lba _ sector_type _ _ _ _ => lba < 2 ^ 32 ∧ sector_type < 8
  | test_unit_ready => True
  | inquiry => True
  | read_buffer_capacity => True
  | read_disc_info _ => True
  | sync_cache => True
  | send_opc => True
  | set_streaming => True

/-- The size of a block, where the call writes blocks. -/
def MmcCall.block_bytes : MmcCall → Nat
  | write10 _ _ block_bytes => block_bytes
  | _ => 0

/-- The drive reads the call's command off the block, and expects the transfer that is made: all of it on
the way out, and not more than the buffer holds on the way in. -/
structure DriveAgrees (c : MmcCall) (x : AdscCmd) : Prop where
  decoded : MmcCommand.decode x.cdb = some c.means
  group : ∀ op ∈ x.cdb.head?, x.cdb.length = group_length op
  dir : x.dir = (c.means.data c.block_bytes).1
  room : (c.means.data c.block_bytes).2 ≤ x.buf_len
  out : x.dir = .OUT → x.buf_len = (c.means.data c.block_bytes).2

/-! ## Fields -/

section
variable {v : Nat}

theorem byte_zero_toNat (h : v < 256) : (byte v 0).toNat = v := by
  rw [BigEndian.byte_toNat, Nat.pow_zero, Nat.div_one, Nat.mod_eq_of_lt h]

theorem join_two (h : v < 2 ^ 16) : join [byte v 1, byte v 0] = v := join_field_of_lt (n := 2) h

theorem join_three (h : v < 2 ^ 24) : join [byte v 2, byte v 1, byte v 0] = v := join_field_of_lt (n := 3) h

theorem join_four (h : v < 2 ^ 32) : join [byte v 3, byte v 2, byte v 1, byte v 0] = v :=
  join_field_of_lt (n := 4) h

end

/-- The sectors that READ CD's check lets through fit the field of the command. -/
theorem read_cd_nsec_lt {nsec c2 sub : Nat} (h : ¬nsec > UINT32_MAX / adsc_read_cd_sector_len c2 sub) :
    nsec < 2 ^ 24 := by
  have hlen : ACCUDISC_BYTES_AUDIO ≤ adsc_read_cd_sector_len c2 sub := by
    unfold adsc_read_cd_sector_len
    omega
  have hdiv : UINT32_MAX / adsc_read_cd_sector_len c2 sub ≤ UINT32_MAX / ACCUDISC_BYTES_AUDIO :=
    Nat.div_le_div_left hlen (by decide)
  have : UINT32_MAX / ACCUDISC_BYTES_AUDIO < 2 ^ 24 := by decide
  omega

theorem le_round16 (n : Nat) : n ≤ round16 n := by
  unfold round16
  omega

/-! ## The builders, decoded -/

section
variable {alloc param_len : Nat}

theorem decode_inquiry (h : alloc < 256) :
    MmcCommand.decode (adsc_cdb_inquiry alloc) = some (.INQUIRY alloc) := by
  simp [adsc_cdb_inquiry, MmcCommand.decode, ADSC_OP_INQUIRY, byte_zero_toNat h]

theorem decode_start_stop {start loej : Nat} (h : start < 2 ∧ loej < 2) :
    MmcCommand.decode (adsc_cdb_start_stop start loej) = some (.START_STOP loej start) := by
  have hb : (byte (loej % 2 * 2 + start % 2) 0).toNat = loej * 2 + start := by
    rw [byte_zero_toNat (by omega)]
    omega
  simp only [adsc_cdb_start_stop, MmcCommand.decode, ADSC_OP_START_STOP, hb]
  rw [if_neg (by decide), if_neg (by decide), if_pos trivial,
    show (loej * 2 + start) / 2 % 2 = loej by omega,
    show (loej * 2 + start) % 2 = start by omega]

theorem decode_read_toc {format time_bit track : Nat} (h : format < 16 ∧ time_bit < 2 ∧ track < 256 ∧
    alloc < 2 ^ 16) :
    MmcCommand.decode (adsc_cdb_read_toc alloc format time_bit track) =
      some (.READ_TOC time_bit format track alloc) := by
  obtain ⟨hf, ht, htrack, ha⟩ := h
  have hb1 : (byte (time_bit % 2 * 2) 0).toNat / 2 % 2 = time_bit := by
    rw [byte_zero_toNat (by omega)]
    omega
  have hb2 : (byte (format % 16) 0).toNat % 16 = format := by
    rw [byte_zero_toNat (by omega)]
    omega
  simp [adsc_cdb_read_toc, MmcCommand.decode, ADSC_OP_READ_TOC, hb1, hb2,
    byte_zero_toNat htrack, join_two ha]

theorem decode_read_disc_info (h : alloc < 2 ^ 16) :
    MmcCommand.decode (adsc_cdb_read_disc_info alloc) = some (.READ_DISC_INFO 0 alloc) := by
  simp [adsc_cdb_read_disc_info, MmcCommand.decode, ADSC_OP_READ_DISC_INFO, join_two h]

theorem decode_write10 {lba nblocks : Nat} (hl : lba < 2 ^ 32) (hn : nblocks < 2 ^ 16) :
    MmcCommand.decode (adsc_cdb_write10 lba nblocks) = some (.WRITE10 lba nblocks) := by
  simp [adsc_cdb_write10, MmcCommand.decode, ADSC_OP_WRITE10, join_four hl, join_two hn]

theorem decode_send_cue {len : Nat} (h : len < 2 ^ 24) :
    MmcCommand.decode (adsc_cdb_send_cue len) = some (.SEND_CUE len) := by
  simp [adsc_cdb_send_cue, MmcCommand.decode, ADSC_OP_SEND_CUE, join_three h]

theorem decode_get_performance {start_lba max_desc type : Nat} (hl : start_lba < 2 ^ 32)
    (hm : max_desc < 2 ^ 16)
    (ht : type < 256) : MmcCommand.decode (adsc_cdb_get_performance start_lba max_desc type) =
      some (.GET_PERFORMANCE start_lba max_desc type) := by
  simp [adsc_cdb_get_performance, MmcCommand.decode, ADSC_OP_GET_PERFORMANCE, join_four hl, join_two hm,
    byte_zero_toNat ht]

theorem decode_set_streaming (h : param_len < 2 ^ 16) :
    MmcCommand.decode (adsc_cdb_set_streaming param_len) = some (.SET_STREAMING param_len) := by
  simp [adsc_cdb_set_streaming, MmcCommand.decode, ADSC_OP_SET_STREAMING, join_two h]

theorem decode_set_cd_speed {read_kbps write_kbps rotctl : Nat} (hr : read_kbps < 2 ^ 16)
    (hw : write_kbps < 2 ^ 16)
    (hc : rotctl < 4) : MmcCommand.decode (adsc_cdb_set_cd_speed read_kbps write_kbps rotctl) =
      some (.SET_CD_SPEED rotctl read_kbps write_kbps) := by
  have hb : (byte (rotctl % 4) 0).toNat % 4 = rotctl := by
    rw [byte_zero_toNat (by omega)]
    omega
  simp [adsc_cdb_set_cd_speed, MmcCommand.decode, ADSC_OP_SET_CD_SPEED, hb, join_two hr, join_two hw]

theorem decode_get_configuration {feature : Nat} (hf : feature < 2 ^ 16) (ha : alloc < 2 ^ 16) :
    MmcCommand.decode (adsc_cdb_get_configuration alloc 2 feature) =
      some (.GET_CONFIG 2 feature alloc) := by
  have hb : (byte 2 0).toNat = 2 := byte_zero_toNat (by decide)
  simp [adsc_cdb_get_configuration, MmcCommand.decode, ADSC_OP_GET_CONFIG, hb, join_two hf, join_two ha]

theorem decode_mode_sense10 {page : Nat} (hp : page < 64) (ha : alloc < 2 ^ 16) :
    MmcCommand.decode (adsc_cdb_mode_sense10 alloc page) = some (.MODE_SENSE10 page alloc) := by
  have hb : (byte (page % 64) 0).toNat % 64 = page := by
    rw [byte_zero_toNat (by omega)]
    omega
  simp [adsc_cdb_mode_sense10, MmcCommand.decode, ADSC_OP_MODE_SENSE10, hb, join_two ha]

theorem decode_mode_select10 (h : param_len < 2 ^ 16) :
    MmcCommand.decode (adsc_cdb_mode_select10 param_len) = some (.MODE_SELECT10 1 param_len) := by
  simp [adsc_cdb_mode_select10, MmcCommand.decode, ADSC_OP_MODE_SELECT10, join_two h]

theorem decode_read_cd {lba nsec sector_type c2 sub : Nat} (hl : lba < 2 ^ 32) (hn : nsec < 2 ^ 24)
    (ht : sector_type < 8)
    (hc : c2 < 4) (hs : sub < 8) : MmcCommand.decode (adsc_cdb_read_cd lba nsec sector_type c2 sub) =
      some (.READ_CD sector_type lba nsec 1 c2 sub) := by
  have hb1 : (byte (sector_type % 8 * 4) 0).toNat / 4 % 8 = sector_type := by
    rw [byte_zero_toNat (by omega)]
    omega
  have hu : (byte (16 + c2 % 4 * 2) 0).toNat / 16 % 2 = 1 := by
    rw [byte_zero_toNat (by omega)]
    omega
  have he : (byte (16 + c2 % 4 * 2) 0).toNat / 2 % 4 = c2 := by
    rw [byte_zero_toNat (by omega)]
    omega
  have hb10 : (byte (sub % 8) 0).toNat % 8 = sub := by
    rw [byte_zero_toNat (by omega)]
    omega
  simp [adsc_cdb_read_cd, MmcCommand.decode, ADSC_OP_READ_CD, hb1, hu, he, hb10,
    join_four hl, join_three hn]

end

/-! ## Every wrapper -/

/-- **The drive reads what was meant**, whichever wrapper made the command. -/
theorem MmcCall.cmd_agrees (c : MmcCall) (x : AdscCmd) (hc : c.Given) (hx : c.cmd = .ok x) :
    DriveAgrees c x := by
  cases c with
  | test_unit_ready =>
    cases hx
    exact ⟨rfl, by simp [group_length], rfl, Nat.le_refl _, nofun⟩
  | inquiry =>
    cases hx
    exact ⟨decode_inquiry (by decide), by simp [adsc_cdb_inquiry, ADSC_OP_INQUIRY, group_length], rfl,
      Nat.le_refl _, nofun⟩
  | start_stop start loej =>
    cases hx
    exact ⟨decode_start_stop hc, by simp [adsc_cdb_start_stop, ADSC_OP_START_STOP, group_length], rfl,
      Nat.le_refl _, nofun⟩
  | read_toc_raw format time_bit track xfer =>
    cases hx
    exact ⟨decode_read_toc hc, by simp [adsc_cdb_read_toc, ADSC_OP_READ_TOC, group_length], rfl,
      Nat.le_refl _, nofun⟩
  | read_buffer_capacity =>
    cases hx
    exact ⟨rfl, by simp [adsc_cdb_read_buffer_capacity, ADSC_OP_READ_BUFFER_CAPACITY, group_length],
      rfl, Nat.le_refl _,
      nofun⟩
  | read_disc_info cap =>
    obtain ⟨-, hx⟩ := check_eq_ok.1 hx
    cases hx
    have hwant : (if 34 < cap then 34 else cap) = min cap 34 := by
      split <;> omega
    rw [hwant]
    exact ⟨decode_read_disc_info (by omega), by simp [adsc_cdb_read_disc_info, ADSC_OP_READ_DISC_INFO,
      group_length], rfl,
      Nat.le_refl _, nofun⟩
  | write10 lba nblocks block_bytes =>
    obtain ⟨hg, hx⟩ := check_eq_ok.1 hx
    cases hx
    have hlen : u32 (nblocks * block_bytes) = nblocks * block_bytes := Nat.mod_eq_of_lt hc.2
    exact ⟨decode_write10 hc.1 (by omega), by simp [adsc_cdb_write10, ADSC_OP_WRITE10, group_length], rfl,
      Nat.le_of_eq hlen.symm, fun _ => hlen⟩
  | sync_cache =>
    cases hx
    exact ⟨rfl, by simp [adsc_cdb_sync_cache, ADSC_OP_SYNC_CACHE, group_length], rfl, Nat.le_refl _, nofun⟩
  | send_cue_sheet len =>
    obtain ⟨-, hx⟩ := check_eq_ok.1 hx
    cases hx
    exact ⟨decode_send_cue hc, by simp [adsc_cdb_send_cue, ADSC_OP_SEND_CUE, group_length], rfl,
      Nat.le_refl _, fun _ => rfl⟩
  | send_opc =>
    cases hx
    exact ⟨rfl, by simp [adsc_cdb_send_opc, ADSC_OP_SEND_OPC, group_length], rfl, Nat.le_refl _, nofun⟩
  | get_performance start_lba max_desc cap =>
    obtain ⟨-, hx⟩ := check_eq_ok.1 hx
    cases hx
    exact ⟨decode_get_performance hc.1 hc.2.1 (by decide),
      by simp [adsc_cdb_get_performance, ADSC_OP_GET_PERFORMANCE, group_length], rfl, hc.2.2, nofun⟩
  | set_streaming =>
    cases hx
    exact ⟨decode_set_streaming (by decide), by simp [adsc_cdb_set_streaming, ADSC_OP_SET_STREAMING,
      group_length], rfl,
      Nat.le_refl _, fun _ => rfl⟩
  | set_cd_speed read_kbps write_kbps rotctl =>
    cases hx
    exact ⟨decode_set_cd_speed hc.1 hc.2.1 hc.2.2, by simp [adsc_cdb_set_cd_speed, ADSC_OP_SET_CD_SPEED,
      group_length], rfl,
      Nat.le_refl _, nofun⟩
  | get_configuration feature cap =>
    cases hx
    exact ⟨decode_get_configuration hc.1 hc.2, by simp [adsc_cdb_get_configuration, ADSC_OP_GET_CONFIG,
      group_length], rfl,
      Nat.le_refl _, nofun⟩
  | mode_sense10 page total =>
    cases hx
    exact ⟨decode_mode_sense10 hc.1 hc.2, by simp [adsc_cdb_mode_sense10, ADSC_OP_MODE_SENSE10,
      group_length], rfl,
      Nat.le_refl _, nofun⟩
  | mode_select10 len page_off =>
    obtain ⟨-, hx⟩ := check_eq_ok.1 hx
    cases hx
    exact ⟨decode_mode_select10 hc, by simp [adsc_cdb_mode_select10, ADSC_OP_MODE_SELECT10, group_length],
      rfl,
      Nat.le_refl _, fun _ => rfl⟩
  | read_cd lba nsec sector_type c2 sub sector_len rounded =>
    obtain ⟨hg, hx⟩ := check_eq_ok.1 hx
    cases hx
    simp only [not_or, not_not] at hg
    obtain ⟨hc2, hsub, rfl, -, hnsec⟩ := hg
    refine ⟨decode_read_cd hc.1 (read_cd_nsec_lt hnsec) hc.2 (by omega) (by omega),
      by simp [adsc_cdb_read_cd, ADSC_OP_READ_CD, group_length], rfl, ?_, nofun⟩
    show nsec * adsc_read_cd_sector_len c2 sub ≤ if rounded = true then _ else _
    split
    · exact le_round16 _
    · exact Nat.le_refl _

theorem MmcCall.cmd_agrees_subcode : DriveAgrees (.read_cd 11849 27 1 1 1 2742 true)
    { cdb := adsc_cdb_read_cd 11849 27 1 1 1, dir := .IN, buf_len := 74048, timeout_ms := 60000 } :=
  MmcCall.cmd_agrees _ _ ⟨by decide, by decide⟩ (by rfl)

end Accudisc
