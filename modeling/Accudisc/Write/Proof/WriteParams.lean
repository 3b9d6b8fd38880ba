import Accudisc.Write.Proof.Burn

/-!
# The write parameters page

What MODE SENSE leaves in the log (`mode_sense_tri`), what `wp_program` selects (`wp_program_tri`), and
how the page that is sent follows from the page that is held.
-/

namespace Accudisc

open Exit History

/-- The page of a mode parameter list. -/
def mode_page (data : Mem) : Mem := ptr data (page_off data)

/-- How MODE SENSE leaves the log: with the header read and the full one, when it is good. -/
def ModeSensed (page : Nat) : Except Int ModePage → List Sent → List Sent → Prop
  | .error rc, old, new => rc ≠ ACCUDISC_OK ∧ Later (fun x => ∃ len, x.cmd = .mode_sense page len) old new
  | .ok m, old, new => ∃ head full, new = full :: head :: old ∧
      head.cmd = .mode_sense page 8 ∧ head.answer.rc = ACCUDISC_OK ∧
      full.cmd = .mode_sense page m.len ∧ full.answer.rc = ACCUDISC_OK ∧ full.answer.data = m.buf ∧
      m.po = page_off m.buf

section
variable {answers : Nat → DriveAnswer} {l : List Sent} {cmd : BurnCmd}

/-- A command adds itself and its answer. -/
theorem exec_tri {E : Option Int → Burn → Prop} :
    Tri (fun s => s.log = l) (exec answers cmd) (fun a s => s.log = ⟨cmd, a⟩ :: l) E := by
  rintro s rfl
  rfl

theorem mode_sense_tri {page cap : Nat} {E : Option Int → Burn → Prop} :
    Tri (fun s => s.log = l) (adsc_mmc_mode_sense10 answers page cap) (fun r s =>
      ModeSensed page r l s.log) E := by
  unfold adsc_mmc_mode_sense10
  refine .ite (fun _ => .pure fun s hs => ⟨by decide, ?_⟩) fun _ => ?_
  · rw [hs]
    exact .refl
  refine .bind exec_tri fun head => .ite (fun hrc => .pure fun s hs => ⟨hrc, ?_⟩) fun hhead => ?_
  · rw [hs]
    exact .cons ⟨8, rfl⟩
  refine .bind exec_tri fun full => .ite (fun hrc => .pure fun s hs => ⟨hrc, ?_⟩) fun hfull => ?_
  · rw [hs]
    exact .trans (.cons ⟨8, rfl⟩) (.cons ⟨_, rfl⟩)
  refine .ite (fun _ => .pure fun s hs => ⟨by decide, ?_⟩) fun _ => .pure fun s hs => ?_
  · rw [hs]
    exact .trans (.cons ⟨8, rfl⟩) (.cons ⟨_, rfl⟩)
  · exact ⟨_, _, hs, rfl, Decidable.not_not.1 hhead, rfl, Decidable.not_not.1 hfull, rfl, rfl⟩

end

/-! ## The page that is selected -/

/-- The page as it is sent, where `wp` says what for. -/
def sent_page (held : Mem) (wp : WriteParams) : Mem :=
  Function.update (wp_page held 0 wp) 0 (wp_page held 0 wp 0 &&& 0x3f)

section
variable {d : Mem} {po : Nat} {wp : WriteParams}

/-- Byte by byte. -/
theorem wp_page_apply (i : Nat) : wp_page d po wp i =
    if i = po + 8 then 0x00
    else if i = po + 4 then (d i &&& 0xf0) ||| if wp.cdtext then 0x03 else 0x00
    else if i = po + 3 then d i &&& 0x3f
    else if i = po + 2 then (d i &&& 0xe0) ||| 0x02 ||| (if wp.simulate then 0x10 else 0) |||
      (if wp.burnproof then 0x40 else 0)
    else d i := by
  unfold wp_page
  by_cases h8 : i = po + 8
  · subst h8
    simp
  by_cases h4 : i = po + 4
  · subst h4
    simp
  by_cases h3 : i = po + 3
  · subst h3
    simp
  by_cases h2 : i = po + 2
  · subst h2
    simp
  · simp [h8, h4, h3, h2]

theorem select_bytes_apply (h : 8 ≤ po) (i : Nat) : select_bytes d po i =
    if i = po then d i &&& 0x3f else if i < 2 then 0 else d i := by
  unfold select_bytes
  by_cases hi : i = po
  · subst hi
    simp [show i ≠ 0 by omega, show i ≠ 1 by omega]
  · rcases show i = 0 ∨ i = 1 ∨ 2 ≤ i by omega with rfl | rfl | h2
    · simp [Function.update_apply, hi]
    · simp [Function.update_apply, hi]
    · simp [Function.update_apply, hi, show i ≠ 0 by omega, show i ≠ 1 by omega, show ¬i < 2 by omega]

theorem page_off_ge : 8 ≤ page_off d := Nat.le_add_right 8 _

theorem page_off_congr {d' : Mem} (h6 : d' 6 = d 6) (h7 : d' 7 = d 7) : page_off d' = page_off d := by
  unfold page_off be16 ptr
  simp only [Nat.add_zero, Nat.reduceAdd]
  rw [h6, h7]

/-- The page that goes out is made of the page that is held. -/
theorem mode_page_select (hpo : po = page_off d) :
    page_off (select_bytes (wp_page d po wp) po) = po ∧
    mode_page (select_bytes (wp_page d po wp) po) = sent_page (mode_page d) wp := by
  have hge : 8 ≤ po := hpo ▸ page_off_ge
  have hlow (i : Nat) (h2 : 2 ≤ i) (h8 : i < 8) : select_bytes (wp_page d po wp) po i = d i := by
    rw [select_bytes_apply hge, if_neg (by omega), if_neg (by omega), wp_page_apply, if_neg (by omega),
      if_neg (by omega), if_neg (by omega), if_neg (by omega)]
  have hoff : page_off (select_bytes (wp_page d po wp) po) = po := by
    rw [page_off_congr (hlow 6 (by decide) (by decide)) (hlow 7 (by decide) (by decide)), hpo]
  refine ⟨hoff, funext fun i => ?_⟩
  unfold mode_page sent_page
  rw [hoff, ← hpo]
  show select_bytes (wp_page d po wp) po (po + i) = _
  rw [select_bytes_apply hge, Function.update_apply]
  simp only [wp_page_apply, ptr, Nat.add_left_cancel_iff, Nat.zero_add]
  by_cases hi : i = 0
  · subst hi
    simp
  · rw [if_neg (by omega), if_neg (by omega), if_neg hi]

/-- The second attempt sends what a request without CD-Text would have sent. -/
theorem retry_page (hge : 8 ≤ po) (hcd : wp.cdtext = true) :
    select_bytes (Function.update (select_bytes (wp_page d po wp) po) (po + 4)
      (select_bytes (wp_page d po wp) po (po + 4) &&& 0xf0)) po =
    select_bytes (wp_page d po { wp with cdtext := false }) po := by
  have hmask (b : BitVec 8) : ((b &&& 0xf0) ||| 0x03) &&& 0xf0 = b &&& 0xf0 := by decide +revert
  have hidem (b : BitVec 8) : b &&& 0x3f &&& 0x3f = b &&& 0x3f := by decide +revert
  funext i
  simp only [select_bytes_apply hge, Function.update_apply, wp_page_apply, hcd]
  by_cases hi : i = po
  · subst hi
    simp
    exact hidem _
  by_cases h4 : i = po + 4
  · subst h4
    simp [show ¬po + 4 < 2 by omega]
    exact hmask _
  · simp [hi, h4]
    omega

end

/-! ## What `wp_program` leaves -/

/-- `wp_program` sensed the page, had some selects refused, and had the last one taken. -/
structure Programmed (wp : WriteParams) (sent : WpPage) (old new : List Sent) (head full sel : Sent)
    (refused : List Sent) (len po : Nat) : Prop where
  log : new = sel :: (refused ++ full :: head :: old)
  head_cmd : head.cmd = .mode_sense ADSC_MODE_WRITE_PARAMS 8
  head_ok : head.answer.rc = ACCUDISC_OK
  full_cmd : full.cmd = .mode_sense ADSC_MODE_WRITE_PARAMS len
  full_ok : full.answer.rc = ACCUDISC_OK
  refused_cmd : ∀ x ∈ refused, (∃ data len, x.cmd = .mode_select data len) ∧ x.answer.rc ≠ ACCUDISC_OK
  off : po = page_off full.answer.data
  room : po + 9 ≤ len
  sel_cmd : sel.cmd = .mode_select
    (select_bytes (wp_page full.answer.data po { wp with cdtext := wp.cdtext && refused.isEmpty }) po) len
  sel_ok : sel.answer.rc = ACCUDISC_OK
  sent_eq : sent = wp_capture
    (select_bytes (wp_page full.answer.data po { wp with cdtext := wp.cdtext && refused.isEmpty }) po) len
      po

/-- A refused `wp_program` sent no more than its senses and selects that were refused. -/
def Unprogrammed (old new : List Sent) : Prop :=
  Later (fun x => (∃ len, x.cmd = .mode_sense ADSC_MODE_WRITE_PARAMS len) ∨
    (∃ data len, x.cmd = .mode_select data len) ∧ x.answer.rc ≠ ACCUDISC_OK) old new

section
variable {answers : Nat → DriveAnswer} {l : List Sent} {wp : WriteParams} {E : Option Int → Burn → Prop}

theorem mode_select_tri {buf : Mem} {len po : Nat} (h : po < len) :
    Tri (fun s => s.log = l) (adsc_mmc_mode_select10 answers buf len po)
      (fun r s => r.2 = select_bytes buf po ∧
        ∃ a, r.1 = a.rc ∧ s.log = ⟨.mode_select (select_bytes buf po) len, a⟩ :: l) E := by
  unfold adsc_mmc_mode_select10
  rw [if_neg (by omega)]
  exact .bind exec_tri fun a => .pure fun s hs => ⟨rfl, a, rfl, hs⟩

/-- **What `wp_program` does.** -/
theorem wp_program_tri :
    Tri (fun s => s.log = l) (wp_program answers wp)
      (fun r s => match r with
        | .error rc => rc ≠ ACCUDISC_OK ∧ Unprogrammed l s.log
        | .ok sent => ∃ head full sel refused len po,
            Programmed wp sent l s.log head full sel refused len po) E := by
  unfold wp_program
  refine .bind mode_sense_tri fun r => ?_
  cases r with
  | error rc => exact .pure fun s hs => ⟨hs.1, hs.2.mono fun x hx => .inl hx⟩
  | ok m =>
    rintro s ⟨head, full, hlog, hhead, hhead', hfull, hfull', hbuf, hpo⟩
    have hge : 8 ≤ m.po := hpo ▸ page_off_ge
    have hsensed : Later (fun x => (∃ len, x.cmd = .mode_sense ADSC_MODE_WRITE_PARAMS len) ∨
        (∃ data len, x.cmd = .mode_select data len) ∧ x.answer.rc ≠ ACCUDISC_OK) l (full :: head :: l) :=
      .trans (.cons (.inl ⟨8, hhead⟩)) (.cons (.inl ⟨_, hfull⟩))
    refine Tri.ite (P := fun s => s.log = full :: head :: l) (fun _ => .pure fun s hs => ?_)
      (fun hroom => ?_) s hlog
    · rw [hs]
      exact ⟨by decide, hsensed⟩
    refine .bind (mode_select_tri (by omega)) fun r => ?_
    rintro s ⟨hr, a, hrc, hs⟩
    refine Tri.ite (P := fun s => s.log = _ :: full :: head :: l) (fun hok => .pure fun s hs => ?_)
      (fun hno => ?_) s hs
    · exact ⟨head, full, _, [], m.len, m.po, {
        log := hs, head_cmd := hhead, head_ok := hhead', full_cmd := hfull, full_ok := hfull'
        refused_cmd := by simp
        off := by rw [hbuf, hpo]
        room := by omega
        sel_cmd := by simp [hbuf]
        sel_ok := by rw [← hok, hrc]
        sent_eq := by simp [hr, hbuf] }⟩
    have href : (∃ data len,
      (⟨.mode_select (select_bytes (wp_page m.buf m.po wp) m.po) m.len, a⟩ : Sent).cmd =
        .mode_select data len) ∧ a.rc ≠ ACCUDISC_OK := ⟨⟨_, _, rfl⟩, fun h => hno (hrc.trans h)⟩
    refine .ite (fun hcd => .pure fun s hs => ?_) fun hcd => ?_
    · rw [hs]
      exact ⟨hno, hsensed.trans (.cons (.inr href))⟩
    refine .bind (mode_select_tri (by omega)) fun r' => ?_
    rintro s ⟨hr', a', hrc', hs⟩
    rw [hr, retry_page hge (by simpa using hcd)] at hr' hs
    refine Tri.ite (P := fun s => s.log = _ :: _ :: full :: head :: l) (fun hok => .pure fun s hs => ?_)
      (fun hno' => .pure fun s hs => ?_) s hs
    · exact ⟨head, full, _, [_], m.len, m.po, {
        log := hs, head_cmd := hhead, head_ok := hhead', full_cmd := hfull, full_ok := hfull'
        refused_cmd := by simpa using href
        off := by rw [hbuf, hpo]
        room := by omega
        sel_cmd := by simp [hbuf]
        sel_ok := by rw [← hok, hrc']
        sent_eq := by simp [hr', hbuf] }⟩
    · rw [hs]
      exact ⟨hno', (hsensed.trans (.cons (.inr href))).trans
        (.cons (.inr ⟨⟨_, _, rfl⟩, fun h => hno' (hrc'.trans h)⟩))⟩

end

/-! ## From the held page to the sent one -/

/-- The sent page decodes to `wp`, and is the held one elsewhere; PS and the reserved bit of byte 0
aside. -/
structure RoundTrip (wp : WriteParams) (held sent : Mem) : Prop where
  decode : wp_decode sent = (2, wp)
  multisession : sent 3 &&& 0xc0 = 0
  session_format : sent 8 = 0
  code : sent 0 &&& 0x3f = held 0 &&& 0x3f
  byte2 : sent 2 &&& 0xa0 = held 2 &&& 0xa0
  byte3 : sent 3 &&& 0x3f = held 3 &&& 0x3f
  byte4 : sent 4 &&& 0xf0 = held 4 &&& 0xf0
  rest : ∀ i, i ∉ [0, 2, 3, 4, 8] → sent i = held i

section
variable {held : Mem} {wp : WriteParams}

theorem sent_page_apply (i : Nat) : sent_page held wp i =
    if i = 0 then held 0 &&& 0x3f
    else if i = 8 then 0x00
    else if i = 4 then (held 4 &&& 0xf0) ||| if wp.cdtext then 0x03 else 0x00
    else if i = 3 then held 3 &&& 0x3f
    else if i = 2 then (held 2 &&& 0xe0) ||| 0x02 ||| (if wp.simulate then 0x10 else 0) |||
      (if wp.burnproof then 0x40 else 0)
    else held i := by
  unfold sent_page
  rw [Function.update_apply]
  by_cases h0 : i = 0
  · subst h0
    simp [wp_page_apply]
  rw [if_neg h0, if_neg h0, wp_page_apply]
  simp only [Nat.zero_add]
  split_ifs <;> simp_all

/-- The second byte of the sent page, bit by bit. -/
theorem byte2_decode (b : BitVec 8) (simulate burnproof : Bool) :
    let p := (b &&& 0xe0) ||| 0x02 ||| (if simulate then 0x10 else 0) ||| (if burnproof then 0x40 else 0)
    p &&& 0x0f = 2 ∧ (decide (p &&& 0x10 ≠ 0) = simulate) ∧ p &&& 0xa0 = b &&& 0xa0 ∧
      ((decide (p &&& 0x40 ≠ 0) = burnproof) ↔ (burnproof = true ∨ b &&& 0x40 = 0)) := by
  revert b simulate burnproof
  decide +kernel

theorem byte4_decode (b : BitVec 8) (cdtext : Bool) :
    let p := (b &&& 0xf0) ||| if cdtext then 0x03 else 0x00
    (decide (p &&& 0x0f = 0x03) = cdtext) ∧ p &&& 0xf0 = b &&& 0xf0 := by
  revert b cdtext
  decide +kernel

theorem byte3_decode (b : BitVec 8) : b &&& 0x3f &&& 0xc0 = 0 ∧ b &&& 0x3f &&& 0x3f = b &&& 0x3f := by
  revert b
  decide +kernel

/-- BUFE is or-ed: the page says what was asked for when BURN-Proof was asked for, or was not set. -/
theorem sent_page_roundTrip :
    RoundTrip wp held (sent_page held wp) ↔ wp.burnproof = true ∨ held 2 &&& 0x40 = 0 := by
  obtain ⟨htype, htest, hkeep, hbufe⟩ := byte2_decode (held 2) wp.simulate wp.burnproof
  obtain ⟨hcd, hkeep4⟩ := byte4_decode (held 4) wp.cdtext
  have h2 : sent_page held wp 2 = (held 2 &&& 0xe0) ||| 0x02 ||| (if wp.simulate then 0x10 else 0) |||
      (if wp.burnproof then 0x40 else 0) := by rw [sent_page_apply]; rfl
  have h3 : sent_page held wp 3 = held 3 &&& 0x3f := by rw [sent_page_apply]; rfl
  have h4 : sent_page held wp 4 = (held 4 &&& 0xf0) ||| if wp.cdtext then 0x03 else 0x00 := by
    rw [sent_page_apply]; rfl
  have h8 : sent_page held wp 8 = 0 := by rw [sent_page_apply]; rfl
  have h0 : sent_page held wp 0 = held 0 &&& 0x3f := by rw [sent_page_apply]; rfl
  constructor
  · intro h
    refine hbufe.1 ?_
    have := congrArg (fun d => d.2.burnproof) h.decode
    rw [← h2]
    exact this
  · intro h
    refine {
      decode := ?_
      multisession := by rw [h3]; exact (byte3_decode _).1
      session_format := h8
      code := by rw [h0]; exact (byte3_decode _).2
      byte2 := by rw [h2]; exact hkeep
      byte3 := by rw [h3]; exact (byte3_decode _).2
      byte4 := by rw [h4]; exact hkeep4
      rest := fun i hi => ?_ }
    · unfold wp_decode
      rw [h2, h4, htype, htest, hbufe.2 h, hcd]
    · simp only [List.mem_cons, List.not_mem_nil, or_false, not_or] at hi
      rw [sent_page_apply, if_neg hi.1, if_neg hi.2.2.2.2, if_neg hi.2.2.2.1,
        if_neg hi.2.2.1, if_neg hi.2.1]

end

/-- **The page that `adsc_write_set_params` has the drive take** says what was asked for exactly when
BURN-Proof was asked for or the page held did not have it set. -/
theorem adsc_write_set_params_page {answers : Nat → DriveAnswer} {wp : WriteParams} {s s' : Burn}
    (h : out (adsc_write_set_params answers wp) s = (.ok ACCUDISC_OK, s')) :
    ∃ sel refused full head data len, s'.log = sel :: (refused ++ full :: head :: s.log) ∧
      full.cmd = .mode_sense ADSC_MODE_WRITE_PARAMS len ∧ full.answer.rc = ACCUDISC_OK ∧
      (∀ x ∈ refused, (∃ data len, x.cmd = .mode_select data len) ∧ x.answer.rc ≠ ACCUDISC_OK) ∧
      sel.cmd = .mode_select data len ∧ sel.answer.rc = ACCUDISC_OK ∧
      (RoundTrip { wp with cdtext := wp.cdtext && refused.isEmpty } (mode_page full.answer.data)
          (mode_page data) ↔ wp.burnproof = true ∨ mode_page full.answer.data 2 &&& 0x40 = 0) := by
  have htri : Tri (fun t => t.log = s.log) (adsc_write_set_params answers wp)
      (fun rc t => rc = ACCUDISC_OK → ∃ sent head full sel refused len po,
        Programmed wp sent s.log t.log head full sel refused len po) (fun _ _ => True) := by
    unfold adsc_write_set_params
    refine .bind wp_program_tri fun r => ?_
    cases r with
    | error rc => exact .pure fun t ht hrc => absurd hrc ht.1
    | ok sent => exact .pure fun t ht _ => ⟨sent, ht⟩
  have := htri s rfl
  rw [h] at this
  obtain ⟨sent, head, full, sel, refused, len, po, hp⟩ := this rfl
  refine ⟨sel, refused, full, head, _, len, hp.log, hp.full_cmd, hp.full_ok, hp.refused_cmd, hp.sel_cmd,
    hp.sel_ok, ?_⟩
  rw [(mode_page_select hp.off).2]
  exact sent_page_roundTrip

-- the runs below evaluate the loop
attribute [local semireducible] exec_loop

/-- A drive whose page 05 has BUFE set. -/
def bufe_drive : Nat → DriveAnswer := fun _ =>
  ⟨ACCUDISC_OK, fun _ => 0, 0, fun i => [0, 22, 0, 0, 0, 0, 0, 0, 0x05, 14, 0x62].getD i 0⟩

/-- A request without BURN-Proof, and a drive that holds it. -/
theorem adsc_write_set_params_page_set :
    ∃ s' sel refused full head data len,
      out (adsc_write_set_params bufe_drive ⟨true, true, false⟩) {} = (.ok ACCUDISC_OK, s') ∧
      s'.log = sel :: (refused ++ full :: head :: []) ∧ sel.cmd = .mode_select data len ∧
      RoundTrip ⟨true, true, false⟩ (mode_page full.answer.data) (mode_page data) := by
  obtain ⟨sel, refused, full, head, data, len, hlog, -, -, -, hsel, -, hiff⟩ :=
    @adsc_write_set_params_page bufe_drive ⟨true, true, false⟩ {} _ rfl
  exact ⟨_, sel, refused, full, head, data, len, rfl, hlog, hsel, hiff.2 (.inl rfl)⟩

theorem bufe_stays_on :
    ∃ s' data len, out (adsc_write_set_params bufe_drive ⟨false, false, false⟩) {} = (.ok ACCUDISC_OK, s') ∧
      (s'.log.head?.map Sent.cmd) = some (.mode_select data len) ∧
      (wp_decode (mode_page data)).2.burnproof = true :=
  ⟨_, _, _, rfl, rfl, by decide⟩

end Accudisc
