import Accudisc.Write.Proof.BurnTiles

/-!
# No laser before the checks

SEND OPC, SEND CUE SHEET and WRITE(10) come after a page 05 that reads back as the drive took it and a
READ DISC INFORMATION that says blank; a check that fails ends the burn before the cue sheet. The read-back
is compared within the length that the page claims, over zeros: that is right where it claims the nine bytes
that are compared.
-/

namespace Accudisc

open Exit History

/-- A command that uses the laser, or commits the drive to it. -/
def BurnCmd.Laser : BurnCmd → Prop
  | .send_opc | .send_cue_sheet _ _ | .write10 _ _ _ _ => True
  | _ => False

/-- MODE SENSE of page 05. -/
def BurnCmd.SensesParams : BurnCmd → Prop
  | .mode_sense page _ => page = ADSC_MODE_WRITE_PARAMS
  | _ => False

def BurnCmd.Selects : BurnCmd → Prop
  | .mode_select _ _ => True
  | _ => False

/-- The page that the drive took last. -/
def selected_page : List Sent → Option Mem
  | [] => none
  | x :: older =>
    match x.cmd with
    | .mode_select data _ => if x.answer.rc = ACCUDISC_OK then some (mode_page data)
        else selected_page older
    | _ => selected_page older

/-- The fields of a burn are the same in two pages. -/
structure SameFields (a b : Mem) : Prop where
  write_type : a 2 &&& 0x0f = b 2 &&& 0x0f
  test_write : a 2 &&& 0x10 = b 2 &&& 0x10
  bufe : a 2 &&& 0x40 = b 2 &&& 0x40
  multisession : a 3 &&& 0xc0 = b 3 &&& 0xc0
  block_type : a 4 &&& 0x0f = b 4 &&& 0x0f
  session_format : a 8 = b 8

/-- A good MODE SENSE brought bytes 0 to 8 of page 05. -/
def Sent.BringsPage (x : Sent) : Prop :=
  ∃ len, x.cmd = .mode_sense ADSC_MODE_WRITE_PARAMS len ∧ x.answer.rc = ACCUDISC_OK ∧
    page_off x.answer.data + 9 ≤ len

/-- It brought the fields of the page that the drive took. -/
def PageReadBack (x : Sent) (older : List Sent) : Prop :=
  x.BringsPage ∧ ∃ p, selected_page older = some p ∧ SameFields p (mode_page x.answer.data)

/-- The last look at page 05 was a read-back, and nothing was selected after it. -/
def ParamsHeld (R : Sent → List Sent → Prop) (l : List Sent) : Prop :=
  Since (fun x older => PageReadBack x older ∧ R x older) (fun y => ¬y.cmd.SensesParams ∧ ¬y.cmd.Selects) l

/-- SEND OPC came before it. -/
def OpcBefore (_ : Sent) (before : List Sent) : Prop := ∃ z ∈ before, z.cmd = .send_opc

/-- READ DISC INFORMATION said that the disc is blank. -/
def Sent.SaysBlank (x : Sent) : Prop :=
  x.cmd = .read_disc_info ∧ x.answer.rc = ACCUDISC_OK ∧ 7 ≤ disc_info_len x.answer.data ∧
    disc_status x.answer.data = 0

/-- What comes before a command that uses the laser. -/
structure Cleared (opts : BurnOpts) (x : Sent) (older : List Sent) : Prop where
  params : x.cmd.Laser → ParamsHeld (fun _ _ => True) older
  blank : x.cmd.Laser → ∃ y ∈ older, y.SaysBlank
  calibrated : x.cmd.Cue → opts.simulate = false → ParamsHeld OpcBefore older

/-- A check failed: MODE SENSE of page 05 did; the page, read behind its header, is short or differs from
the one that the drive took; or READ DISC INFORMATION, before the cue sheet, does not say blank. -/
inductive CheckFailed (x : Sent) (older : List Sent) : Prop
  | sense (hx : x.cmd.SensesParams) (hrc : x.answer.rc ≠ ACCUDISC_OK)
  | short (hx : x.cmd.SensesParams) (head : Sent) (before : List Sent) (hold : older = head :: before)
      (hhead : head.cmd.SensesParams) (hno : ¬x.BringsPage)
  | fields (hx : x.BringsPage) (p : Mem) (hp : selected_page older = some p)
      (hno : ¬SameFields p (mode_page x.answer.data))
  | blank (hx : x.cmd = .read_disc_info) (hcue : ∀ y ∈ older, ¬y.cmd.Cue) (hno : ¬x.SaysBlank)

/-- Every page 05 that is read back claims the bytes that are compared. -/
def PagesWhole (l : List Sent) : Prop :=
  Always (fun x older => x.BringsPage → selected_page older ≠ none →
    7 ≤ (mode_page x.answer.data 1).toNat) l

/-! ## The fields -/

section
variable {a b : Mem}

/-- Only the first nine bytes are compared. -/
theorem SameFields.congr {a' b' : Mem} (h : SameFields a b) (ha : ∀ i < 9, a' i = a i)
    (hb : ∀ i < 9, b' i = b i) : SameFields a' b' := by
  have ha2 := ha 2 (by decide)
  have hb2 := hb 2 (by decide)
  exact {
    write_type := by rw [ha2, hb2]; exact h.write_type
    test_write := by rw [ha2, hb2]; exact h.test_write
    bufe := by rw [ha2, hb2]; exact h.bufe
    multisession := by rw [ha 3 (by decide), hb 3 (by decide)]; exact h.multisession
    block_type := by rw [ha 4 (by decide), hb 4 (by decide)]; exact h.block_type
    session_format := by rw [ha 8 (by decide), hb 8 (by decide)]; exact h.session_format }

/-- A capture that is nine bytes long has the first nine bytes of the page. -/
theorem wp_capture_apply {d : Mem} {len po i : Nat} (h : 9 ≤ (wp_capture d len po).len) (hi : i < 9) :
    (wp_capture d len po).bytes i = d (po + i) :=
  if_pos (Nat.lt_of_lt_of_le hi h)

end

/-! ## Logs -/

/-- What came before is cleared, and no check failed. -/
structure Clear (opts : BurnOpts) (l : List Sent) : Prop where
  cleared : Always (Cleared opts) l
  passed : Always (fun x older => ¬CheckFailed x older) l

/-- A command that neither uses the laser, nor asks for page 05 or the disc, nor selects. -/
def BurnCmd.Plain (c : BurnCmd) : Prop :=
  ¬c.Laser ∧ ¬c.SensesParams ∧ ¬c.Selects ∧ c ≠ .read_disc_info

section
variable {opts : BurnOpts} {x : Sent} {l : List Sent} {p : Mem} {R : Sent → List Sent → Prop}

theorem BurnCmd.Cue.laser {c : BurnCmd} (h : c.Cue) : c.Laser := by
  cases c <;> trivial

theorem BurnCmd.Writes.laser {c : BurnCmd} (h : c.Writes) : c.Laser := by
  cases c <;> trivial

theorem Sent.BringsPage.senses (h : x.BringsPage) : x.cmd.SensesParams := by
  obtain ⟨len, hx, -⟩ := h
  rw [hx]
  rfl

/-- A command without the laser needs nothing before it. -/
theorem cleared_dark (h : ¬x.cmd.Laser) : Cleared opts x l :=
  ⟨fun hx => absurd hx h, fun hx => absurd hx h, fun hx => absurd hx.laser h⟩

/-- Only MODE SENSE of page 05 and READ DISC INFORMATION can fail. -/
theorem unfailed (hs : ¬x.cmd.SensesParams) (hd : x.cmd ≠ .read_disc_info) : ¬CheckFailed x l := by
  intro h
  cases h with
  | sense hx hrc => exact hs hx
  | short hx head before hold hhead hno => exact hs hx
  | fields hx p hp hno => exact hs hx.senses
  | blank hx hcue hno => exact hd hx

theorem selected_other (h : ¬x.cmd.Selects) : selected_page (x :: l) = selected_page l := by
  rcases x with ⟨cmd, a⟩
  cases cmd <;> first | rfl | exact absurd trivial h

theorem selected_select {data : Mem} {len : Nat} (h : x.cmd = .mode_select data len)
    (hok : x.answer.rc = ACCUDISC_OK) : selected_page (x :: l) = some (mode_page data) := by
  unfold selected_page
  rw [h]
  exact if_pos hok

theorem Clear.nil : Clear opts [] := ⟨always_nil, always_nil⟩

theorem Clear.cons (h : Clear opts l) (hx : Cleared opts x l) (hno : ¬CheckFailed x l) :
    Clear opts (x :: l) :=
  ⟨always_cons.2 ⟨hx, h.cleared⟩, always_cons.2 ⟨hno, h.passed⟩⟩

/-- A select is checked by nothing but its read-back. -/
theorem Clear.quiet (h : Clear opts l) (hl : ¬x.cmd.Laser) (hs : ¬x.cmd.SensesParams)
    (hd : x.cmd ≠ .read_disc_info) : Clear opts (x :: l) := h.cons (cleared_dark hl) (unfailed hs hd)

theorem ParamsHeld.cons (h : ParamsHeld R l) (hs : ¬x.cmd.SensesParams) (hsel : ¬x.cmd.Selects) :
    ParamsHeld R (x :: l) := by
  obtain ⟨newer, y, older, rfl, hy, hall⟩ := h
  exact ⟨x :: newer, y, older, rfl, hy, List.forall_mem_cons.2 ⟨⟨hs, hsel⟩, hall⟩⟩

theorem PagesWhole.tail (h : PagesWhole (x :: l)) : PagesWhole l := (always_cons.1 h).2

end

/-! ## The checks -/

/-- The page that the drive took last is the one that is compared, where that has nine bytes. -/
def Took (sent : WpPage) (l : List Sent) : Prop :=
  ∃ p, selected_page l = some p ∧ (9 ≤ sent.len → ∀ i < 9, sent.bytes i = p i)

/-- The next MODE SENSE is not behind another. -/
def Fresh (l : List Sent) : Prop := ∀ x older, l = x :: older → ¬x.cmd.SensesParams

/-- Where the read-backs are whole, `K`. -/
def Under (K : List Sent → Prop) (l : List Sent) : Prop := PagesWhole l → K l

section
variable {K K' : List Sent → Prop} {opts : BurnOpts} {sent : WpPage} {x : Sent} {l : List Sent}

theorem Under.cons (h : Under K l) (hK : PagesWhole (x :: l) → K l → K' (x :: l)) : Under K' (x :: l) :=
  fun hw => hK hw (h hw.tail)

theorem Under.mono (h : Under K l) (hK : K l → K' l) : Under K' l := fun hw => hK (h hw)

theorem Took.cons (h : Took sent l) (hx : ¬x.cmd.Selects) : Took sent (x :: l) := by
  unfold Took
  rw [selected_other hx]
  exact h

theorem fresh_cons (hx : ¬x.cmd.SensesParams) : Fresh (x :: l) := by
  rintro y older ⟨⟩
  exact hx

/-- The header of a page, that is not behind another, says nothing that is checked. -/
theorem header_passes (hx : x.cmd = .mode_sense ADSC_MODE_WRITE_PARAMS 8) (hrc : x.answer.rc = ACCUDISC_OK)
    (hl : Fresh l) : ¬CheckFailed x l := by
  intro hno
  cases hno with
  | sense _ hrc' => exact hrc' hrc
  | short _ y before hold hy _ => exact hl y before hold hy
  | fields hbrings p hp _ =>
    obtain ⟨len, hc, -, hlen⟩ := hbrings
    rw [hx] at hc
    cases hc
    have := page_off_ge (d := x.answer.data)
    omega
  | blank hd _ _ => rw [hx] at hd; cases hd

/-- A page that is read passes with the fields of the one that the drive took. -/
theorem page_passes (hx : x.BringsPage)
    (hl : ∀ p, selected_page l = some p → SameFields p (mode_page x.answer.data)) : ¬CheckFailed x l := by
  intro hno
  cases hno with
  | sense _ hrc =>
    obtain ⟨len, -, hok, -⟩ := hx
    exact hrc hok
  | short _ y before _ _ hshort => exact hshort hx
  | fields _ p hp hother => exact hother (hl p hp)
  | blank hd _ _ =>
    obtain ⟨len, hc, -⟩ := hx
    rw [hd] at hc
    cases hc

end

section
variable {answers : Nat → DriveAnswer} {env : BurnEnv} {toc : WriteToc} {opts : BurnOpts} {sent : WpPage}
  {l : List Sent} {E : Option Int → Burn → Prop}

end

section
variable {env : BurnEnv} {toc : WriteToc} {opts : BurnOpts} {sent : WpPage} {wp : WriteParams}
  {old l : List Sent} {head full sel : Sent} {refused : List Sent} {len po : Nat}
    {E : Option Int → Burn → Prop}

/-- What `wp_program` leaves passes, and the page it sent is the one that the drive took. -/
theorem Programmed.clear {caps : Sent} (hcaps : caps.cmd = .get_configuration ADSC_FEATURE_CD_MASTERING)
    (h : Programmed wp sent [caps] l head full sel refused len po) :
      Clear opts l ∧ Took sent l ∧ Fresh l := by
  have hcaps' : ¬caps.cmd.SensesParams ∧ ¬caps.cmd.Selects := by
    rw [hcaps]
    exact ⟨id, id⟩
  have hsensed : Clear opts [head, caps] :=
    (Clear.nil.quiet (by rw [hcaps]; exact id) hcaps'.1 (by rw [hcaps]; nofun)).cons
      (cleared_dark (by rw [h.head_cmd]; exact id))
        (header_passes h.head_cmd h.head_ok (fresh_cons hcaps'.1))
  have hfull : ¬CheckFailed full [head, caps] := by
    refine page_passes ⟨len, h.full_cmd, h.full_ok, h.off ▸ h.room⟩ fun p hp => ?_
    rw [selected_other (by rw [h.head_cmd]; exact id), selected_other hcaps'.2] at hp
    cases hp
  have hread : Clear opts (full :: [head, caps]) :=
    hsensed.cons (cleared_dark (by rw [h.full_cmd]; exact id)) hfull
  have hrefused : Later (fun x => x.cmd.Selects) (full :: [head, caps]) (refused ++ full :: [head, caps]) :=
    ⟨refused, rfl, fun y hy => by
      obtain ⟨⟨data, len', hc⟩, -⟩ := h.refused_cmd y hy
      rw [hc]
      trivial⟩
  have hselects {x : Sent} {m : List Sent} (hx : x.cmd.Selects) (hm : Clear opts m) :
    Clear opts (x :: m) := by
    rcases x with ⟨cmd, a⟩
    cases cmd with
    | mode_select data len => exact hm.quiet id id nofun
    | _ => exact hx.elim
  rw [h.log]
  refine ⟨hselects (by rw [h.sel_cmd]; trivial) (hrefused.inv (fun x m hx hm => hselects hx hm) hread), ?_,
    fresh_cons (by rw [h.sel_cmd]; exact id)⟩
  refine ⟨_, selected_select h.sel_cmd h.sel_ok, fun hlen i hi => ?_⟩
  have hbytes := wp_capture_apply (h.sent_eq ▸ hlen) hi
  rw [h.sent_eq, hbytes]
  unfold mode_page ptr
  rw [(mode_page_select h.off).1]

end

/-! ## The burn -/

/-- A command behind the cue sheet. -/
def BurnCmd.Late : BurnCmd → Prop
  | .write10 _ _ _ _ | .read_buffer_capacity | .sync_cache | .read_disc_info => True
  | _ => False

/-- A log behind which the disc is being written. -/
structure Burning (opts : BurnOpts) (l : List Sent) : Prop where
  clear : Clear opts l
  held : ParamsHeld (fun _ _ => True) l
  blank : ∃ y ∈ l, y.SaysBlank
  cue : ∃ y ∈ l, y.cmd.Cue

/-- No cue sheet was sent, and nothing was written. -/
def Unburnt (l : List Sent) : Prop := ∀ y ∈ l, ¬y.cmd.Cue ∧ ¬y.cmd.Writes

/-- A burn that its checks end: with an error, and before the cue sheet. -/
structure Refused (opts : BurnOpts) (e : Option Int) (s : Burn) : Prop where
  code : ∃ rc, e = some rc ∧ rc ≠ ACCUDISC_OK
  closed : s.session_open = false
  unburnt : Unburnt s.log
  cleared : Under (Always (Cleared opts)) s.log

section
variable {env : BurnEnv} {toc : WriteToc} {opts : BurnOpts} {sent : WpPage} {di : DiscInfo} {fuel : Nat}
  {x : Sent} {l : List Sent} {s : Burn} {e : Option Int} {r : Option Int}

theorem BurnCmd.Late.quiet {c : BurnCmd} (h : c.Late) : ¬c.SensesParams ∧ ¬c.Selects ∧ ¬c.Cue := by
  cases c <;> first | exact ⟨id, id, id⟩ | exact h.elim

theorem Burning.cons (h : Burning opts l) (hx : x.cmd.Late) : Burning opts (x :: l) := by
  obtain ⟨hs, hsel, hcue⟩ := hx.quiet
  have hcleared : Cleared opts x l := ⟨fun _ => h.held, fun _ => h.blank, fun hc => absurd hc hcue⟩
  refine ⟨h.clear.cons hcleared fun hno => ?_, h.held.cons hs hsel, List.exists_mem_cons_of_exists h.blank,
    List.exists_mem_cons_of_exists h.cue⟩
  cases hno with
  | sense hx _ => exact hs hx
  | short hx _ _ _ _ _ => exact hs hx
  | fields hx _ _ _ => exact hs hx.senses
  | blank _ hold _ =>
    obtain ⟨y, hy, hc⟩ := h.cue
    exact hold y hy hc

end

/-! ## Runs -/

end Accudisc
