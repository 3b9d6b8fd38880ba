import Accudisc.Drive.Identify
import Accudisc.Drive.Proof.Inquiry

/-!
# A drive is one drive

However often a handle asks, the drive is who it said it was the first time it answered; its fields are
too short for the lookup's buffers to matter, and their padding does not matter either.
-/

namespace Accudisc

/-! ## The fields -/

section
variable {src : Mem} {n cap : Nat} {dst pad s : Chars} {sp : Bool}

/-- A field as the drive sent it. -/
def raw_field (m : Mem) (off n : Nat) : Chars := (List.range n).map fun i => m (off + i)

theorem trim_len_le : trim_len src n ≤ n := by
  induction n with
  | zero => exact Nat.le_refl 0
  | succ n ih =>
    rw [trim_len]
    split <;> omega

/-- The field is what is kept of it, and padding. -/
theorem trim_len_pad : ∃ pad, (List.range n).map src = (List.range (trim_len src n)).map src ++ pad ∧
    ∀ c ∈ pad, c = SPACE ∨ c = 0 := by
  induction n with
  | zero => exact ⟨[], rfl, fun c hc => absurd hc List.not_mem_nil⟩
  | succ n ih =>
    obtain ⟨pad, heq, hpad⟩ := ih
    rw [trim_len]
    by_cases hc : src n = SPACE ∨ src n = 0
    · rw [if_pos hc]
      refine ⟨pad ++ [src n], ?_, List.forall_mem_append.2 ⟨hpad, List.forall_mem_singleton.2 hc⟩⟩
      rw [List.range_succ, List.map_append, heq, List.append_assoc]
      rfl
    · rw [if_neg hc]
      exact ⟨[], (List.append_nil _).symm, fun c hc => absurd hc List.not_mem_nil⟩

theorem normalize_loop_blank (hpad : ∀ c ∈ pad, c = SPACE ∨ c = 0) :
    normalize_loop cap pad dst sp = dst := by
  induction pad generalizing sp with
  | nil => rfl
  | cons c pad ih =>
    obtain ⟨hc, hpad⟩ := List.forall_mem_cons.1 hpad
    rw [normalize_loop]
    by_cases hstop : c = 0 ∨ ¬dst.length + 1 < cap
    · rw [if_pos hstop]
    · rw [if_neg hstop, if_pos (.inl (hc.resolve_right fun h => hstop (.inl h)))]
      exact ih hpad

/-- The normal form does not see the padding. -/
theorem normalize_loop_pad {pad' : Chars} (hpad : ∀ c ∈ pad, c = SPACE ∨ c = 0)
    (hpad' : ∀ c ∈ pad', c = SPACE ∨ c = 0) :
    normalize_loop cap (s ++ pad) dst sp = normalize_loop cap (s ++ pad') dst sp := by
  induction s generalizing dst sp with
  | nil => rw [List.nil_append, List.nil_append, normalize_loop_blank hpad, normalize_loop_blank hpad']
  | cons c s ih =>
    rw [List.cons_append, List.cons_append, normalize_loop, normalize_loop]
    split
    · rfl
    · split
      · exact ih
      · exact ih

theorem inquiry32_copy_trim : inquiry32 (copy_trim src n) = inquiry32 ((List.range n).map src) := by
  obtain ⟨pad, heq, hpad⟩ := @trim_len_pad src n
  unfold inquiry32 copy_trim
  rw [heq]
  exact normalize_loop_pad (List.forall_mem_singleton.2 (.inr rfl)) hpad

/-- A pending space is all that the normal form can be longer by. -/
theorem normalize_loop_length :
    (normalize_loop cap s dst sp).length ≤ dst.length + s.length + if sp then 1 else 0 := by
  induction s generalizing dst sp with
  | nil =>
    rw [normalize_loop]
    omega
  | cons c s ih =>
    rw [normalize_loop, List.length_cons]
    split
    · omega
    · split
      · have h := @ih dst true
        rw [if_pos rfl] at h
        omega
      · have h := @ih ((if sp ∧ 0 < dst.length then dst ++ [SPACE] else dst) ++ [toupper c]) false
        rw [if_neg Bool.false_ne_true, List.length_append, List.length_singleton] at h
        dsimp only
        refine Nat.le_trans h ?_
        by_cases hs : sp = true ∧ 0 < dst.length
        · rw [if_pos hs, if_pos hs.1, List.length_append, List.length_singleton]
          omega
        · rw [if_neg hs]
          omega

theorem short_fits (h : s.length ≤ 30) : InquiryFits s 32 := by
  rw [← inquiry_inside_iff s (by decide), adsc_inquiry_normalize, List.length_append, List.length_singleton]
  have hlen := @normalize_loop_length 32 [] s true
  rw [if_pos rfl, List.length_nil] at hlen
  omega

theorem copy_trim_length : (copy_trim src n).length ≤ n + 1 := by
  have h := @trim_len_le src n
  unfold copy_trim
  rw [List.length_append, List.length_map, List.length_range, List.length_singleton]
  omega

end

/-! ## The lookup -/

section
variable {offsets : List OffsetEntry} {vendor product vendor' product' : Chars}

/-- Every row of the table fits the lookup's buffers. -/
def RowsFit (offsets : List OffsetEntry) : Prop :=
  ∀ r ∈ offsets, InquiryFits r.vendor 32 ∧ InquiryFits r.product 32

theorem RowsFit.lookup (h : RowsFit offsets) (hv : vendor.length ≤ 30) (hp : product.length ≤ 30) :
    offset_in_buffers offsets vendor product = true :=
  offset_in_buffers_iff.2 ⟨short_fits hv, short_fits hp, fun _ r hr =>
    (h r hr).2, fun _ r hr _ => (h r hr).1⟩

/-- The lookup sees the normal forms only. -/
theorem accudisc_offset_for_inquiry_congr (hv : inquiry32 vendor = inquiry32 vendor')
    (hp : inquiry32 product = inquiry32 product') (hfit : offset_in_buffers offsets vendor product = true)
    (hfit' : offset_in_buffers offsets vendor' product' = true) (args : Bool) (size : Nat) :
    accudisc_offset_for_inquiry offsets vendor product args size =
      accudisc_offset_for_inquiry offsets vendor' product' args size := by
  have hscan : offset_scan offsets vendor product = offset_scan offsets vendor' product' := by
    unfold offset_scan offset_candidate offset_vendor_hit
    rw [hv, hp]
  unfold accudisc_offset_for_inquiry
  rw [hfit, hfit', hp, hscan]

end

/-! ## Every call -/

section
variable {answers : Nat → Int × Mem} {offsets : List OffsetEntry} {dev : IdDev}

/-- What a handle knows is what the first good answer said. -/
structure IdKnown (answers : Nat → Int × Mem) (dev : IdDev) : Prop where
  unknown : dev.id = none → ∀ k < dev.inquiries, (answers k).1 ≠ ACCUDISC_OK
  known : ∀ id, dev.id = some id → ∃ k, dev.inquiries = k + 1 ∧ adsc_mmc_inquiry (answers k) = .ok id ∧
    ∀ j < k, (answers j).1 ≠ ACCUDISC_OK

theorem adsc_mmc_inquiry_ok {answer : Int × Mem} {id : DriveId} (h : adsc_mmc_inquiry answer = .ok id) :
    answer.1 = ACCUDISC_OK ∧ id.vendor = copy_trim (fun i => answer.2 (8 + i)) 8 ∧
      id.product = copy_trim (fun i => answer.2 (16 + i)) 16 := by
  unfold adsc_mmc_inquiry at h
  by_cases hrc : answer.1 ≠ ACCUDISC_OK
  · rw [if_pos hrc] at h
    cases h
  · rw [if_neg hrc] at h
    cases h
    exact ⟨not_not.1 hrc, rfl, rfl⟩

theorem adsc_dev_identify_known (h : dev.id ≠ none) : (adsc_dev_identify answers dev).2 = dev := by
  obtain ⟨id, hid⟩ := Option.ne_none_iff_exists'.1 h
  unfold adsc_dev_identify
  rw [hid]

theorem IdKnown.identify (h : IdKnown answers dev) : IdKnown answers (adsc_dev_identify answers dev).2 := by
  by_cases hid : dev.id = none
  · unfold adsc_dev_identify
    rw [hid]
    dsimp only
    have hbefore := h.unknown hid
    cases hr : adsc_mmc_inquiry (answers dev.inquiries) with
    | error rc =>
      refine ⟨fun _ k hk => ?_, nofun⟩
      rcases Nat.lt_succ_iff_lt_or_eq.1 hk with hk | rfl
      · exact hbefore k hk
      · intro hok
        rw [adsc_mmc_inquiry, if_neg (not_not.2 hok)] at hr
        cases hr
    | ok id' =>
      refine ⟨nofun, fun id h => ?_⟩
      cases h
      exact ⟨dev.inquiries, rfl, hr, hbefore⟩
  · rw [adsc_dev_identify_known hid]
    exact h

/-- Whatever a call asks, it leaves the handle as it was or identified. -/
theorem id_call_cases (dev : IdDev) (c : IdCall) :
    id_call answers offsets dev c = dev ∨
      id_call answers offsets dev c = (adsc_dev_identify answers dev).2 := by
  have hoffset : ∀ args size, (accudisc_offset_for_device answers offsets args size dev).2 = dev ∨
      (accudisc_offset_for_device answers offsets args size dev).2 = (adsc_dev_identify answers dev).2 := by
    intro args size
    unfold accudisc_offset_for_device
    cases args with
    | false => exact .inl rfl
    | true =>
      refine .inr ?_
      rw [if_neg (by decide)]
      dsimp only
      split <;> rfl
  cases c with
  | IDENTIFY args =>
    cases args with
    | false => exact .inl rfl
    | true => exact .inr rfl
  | OFFSET args size => exact hoffset args size
  | READ_OFFSET args =>
    cases args with
    | false => exact .inl rfl
    | true => exact hoffset true sizeof_offset_info

theorem id_calls_known (calls : List IdCall) (h : IdKnown answers dev) :
    IdKnown answers (id_calls answers offsets calls dev) := by
  induction calls generalizing dev with
  | nil => exact h
  | cons c calls ih =>
    refine ih ?_
    rcases @id_call_cases answers offsets dev c with heq | heq
    · rw [heq]
      exact h
    · rw [heq]
      exact h.identify

theorem id_calls_settled (calls : List IdCall) (h : dev.id ≠ none) :
    id_calls answers offsets calls dev = dev := by
  induction calls generalizing dev with
  | nil => rfl
  | cons c calls ih =>
    have hstep : id_call answers offsets dev c = dev := by
      rcases @id_call_cases answers offsets dev c with heq | heq
      · exact heq
      · exact heq.trans (adsc_dev_identify_known h)
    show id_calls answers offsets calls (id_call answers offsets dev c) = dev
    rw [hstep]
    exact ih h

end

/-- After any calls: the drive is who it was at its first good answer, which is asked for no more; and the
lookup of its offset stays in its buffers and answers as for the fields that the drive sent. -/
structure DriveIdentified (answers : Nat → Int × Mem) (offsets : List OffsetEntry) (dev : IdDev) :
    Prop where
  known : IdKnown answers dev
  settled : dev.id ≠ none → ∀ calls, id_calls answers offsets calls dev = dev
  inside : ∀ args size, (accudisc_offset_for_device answers offsets args size dev).1 ≠ none
  fields : ∀ k, dev.id ≠ none → dev.inquiries = k + 1 → ∀ size,
    (accudisc_offset_for_device answers offsets true size dev).1 =
      accudisc_offset_for_inquiry offsets (raw_field (answers k).2 8 8)
        (raw_field (answers k).2 16 16) true size

/-- **A drive is one drive**, whatever it answers to the INQUIRYs that come after. -/
theorem id_calls_identified (answers : Nat → Int × Mem) (offsets : List OffsetEntry)
    (hrows : RowsFit offsets)
    (calls : List IdCall) : DriveIdentified answers offsets (id_calls answers offsets calls {}) := by
  have hstart : IdKnown answers {} := ⟨fun _ k hk => absurd hk (Nat.not_lt_zero k), nofun⟩
  have hknown : IdKnown answers (id_calls answers offsets calls {}) := id_calls_known calls hstart
  revert hknown
  generalize id_calls answers offsets calls {} = dev
  intro hknown
  have hfit : ∀ {answer : Int × Mem} {id : DriveId}, adsc_mmc_inquiry answer = .ok id →
      offset_in_buffers offsets id.vendor id.product = true := by
    intro answer id h
    obtain ⟨-, hv, hp⟩ := adsc_mmc_inquiry_ok h
    rw [hv, hp]
    exact hrows.lookup (Nat.le_trans copy_trim_length (by decide))
      (Nat.le_trans copy_trim_length (by decide))
  have hsome : ∀ {answer : Int × Mem} {id : DriveId}, adsc_mmc_inquiry answer = .ok id → ∀ size,
      accudisc_offset_for_inquiry offsets id.vendor id.product true size ≠ none := by
    intro answer id h size
    unfold accudisc_offset_for_inquiry
    rw [hfit h, Bool.not_true, if_neg Bool.false_ne_true]
    split
    · nofun
    · rw [if_neg Bool.false_ne_true]
      split
      · nofun
      · nofun
  refine ⟨hknown, fun h calls => id_calls_settled calls h, fun args size => ?_, fun k hid hk size => ?_⟩
  · unfold accudisc_offset_for_device
    cases args with
    | false => nofun
    | true =>
      rw [if_neg (by decide)]
      unfold adsc_dev_identify
      cases hid : dev.id with
      | some id =>
        obtain ⟨k, -, hk, -⟩ := hknown.known id hid
        exact hsome hk size
      | none =>
        dsimp only
        cases hr : adsc_mmc_inquiry (answers dev.inquiries) with
        | error rc => nofun
        | ok id => exact hsome hr size
  · obtain ⟨id, hid⟩ := Option.ne_none_iff_exists'.1 hid
    obtain ⟨k', hk', hinq, -⟩ := hknown.known id hid
    obtain rfl : k' = k := by omega
    obtain ⟨-, hv, hp⟩ := adsc_mmc_inquiry_ok hinq
    have hraw : offset_in_buffers offsets (raw_field (answers k').2 8 8)
      (raw_field (answers k').2 16 16) = true :=
      hrows.lookup (by simp [raw_field]) (by simp [raw_field])
    unfold accudisc_offset_for_device adsc_dev_identify
    rw [if_neg (by decide), hid]
    dsimp only
    refine accudisc_offset_for_inquiry_congr ?_ ?_ (hfit hinq) hraw true size
    · rw [hv]
      exact inquiry32_copy_trim
    · rw [hp]
      exact inquiry32_copy_trim

/-- A drive that gives its name at the second INQUIRY only, and a table of one row. -/
theorem id_calls_identified_second :
    DriveIdentified (fun k => (if k = 0 then ACCUDISC_ERR_IO else ACCUDISC_OK, fun _ => 0x41))
      [{ vendor := [0x41], product := [0x42], read_offset := 30 }]
      (id_calls (fun k => (if k = 0 then ACCUDISC_ERR_IO else ACCUDISC_OK, fun _ => 0x41))
        [{ vendor := [0x41], product := [0x42], read_offset := 30 }]
        [.IDENTIFY true, .READ_OFFSET true, .OFFSET true 44] {}) :=
  id_calls_identified _ _ (by
    intro r hr
    rw [List.mem_singleton.1 hr]
    exact ⟨short_fits (by decide), short_fits (by decide)⟩) _

end Accudisc
