import Accudisc.Lib.RunningPick
import Accudisc.Toc.Proof.Toc

/-!
# The order of the lead-in's entries

The tracks, the sessions and the anomalies are the same in every order. The disc's first track, disc type,
last track and lead-out are each a pick at a running minimum or maximum of the session numbers, and
`OrderSettled` is where every order gives the same.
-/

namespace Accudisc

/-- The address of an entry. -/
def FulltocEntry.addr (e : FulltocEntry) : Int := accudisc_msf_to_lba e.pmin e.psec e.pframe

def FulltocEntry.IsTrack (e : FulltocEntry) : Prop := 0x01 ≤ e.point ∧ e.point ≤ 0x63

/-- An A0 or A1 pointer that is taken. -/
def FulltocEntry.Points (e : FulltocEntry) (point : BitVec 8) : Prop :=
  e.point = point ∧ ¬(e.pmin < 1 ∨ 99 < e.pmin) ∧ session_ok e.session = true

/-- A lead-out pointer that is taken. -/
def FulltocEntry.IsA2 (e : FulltocEntry) : Prop := e.point = 0xA2 ∧ 0 ≤ e.addr

instance (e : FulltocEntry) : Decidable e.IsTrack := inferInstanceAs (Decidable (_ ∧ _))
instance (e : FulltocEntry) (point : BitVec 8) : Decidable (e.Points point) :=
  inferInstanceAs (Decidable (_ ∧ _))
instance (e : FulltocEntry) : Decidable e.IsA2 := inferInstanceAs (Decidable (_ ∧ _))

/-- No pair of session and point repeats, and no track is in two sessions. -/
def FulltocSimple (es : List FulltocEntry) : Prop :=
  es.Pairwise fun e e' => ¬(e.session = e'.session ∧ e.point = e'.point) ∧ (e.IsTrack → e.point ≠ e'.point)

/-! ## The tables -/

/-- The tables that the entries fill. -/
structure FulltocTables where
  slot : Nat → Option AccuTrack := fun _ => none
  sess : Nat → Option AccuSession := fun _ => none
  anomalies : Nat := 0

def FulltocScan.tables (s : FulltocScan) : FulltocTables := ⟨s.slot, s.sess, s.anomalies⟩

/-- What an entry says of its session. -/
def sess_edit (e : FulltocEntry) (x : AccuSession) : AccuSession :=
  { x with
    first_track := if e.Points 0xA0 then e.pmin else x.first_track
    last_track := if e.Points 0xA1 then e.pmin else x.last_track
    leadout_lba := if e.IsA2 then e.addr.toNat else x.leadout_lba }

/-- What an entry flags. -/
def entry_anomalies (e : FulltocEntry) : Nat :=
  anomaly (!session_ok e.session) ACCUDISC_TOC_ANOM_BAD_SESSION |||
    anomaly (e.IsTrack ∧ e.addr < 0) ACCUDISC_TOC_ANOM_NEGATIVE_LBA |||
    anomaly ((e.point = 0xA0 ∨ e.point = 0xA1) ∧ (e.pmin < 1 ∨ 99 < e.pmin)) ACCUDISC_TOC_ANOM_BAD_TRACK_NUM

def table_slot (slot : Nat → Option AccuTrack) (e : FulltocEntry) : Nat → Option AccuTrack :=
  if e.IsTrack ∧ 0 ≤ e.addr ∧ slot e.point.toNat = none then
    Function.update slot e.point.toNat
      (some { number := e.point, adr_ctrl := e.adr_ctrl, session := e.session, lba := e.addr.toNat })
  else slot

def table_sess (sess : Nat → Option AccuSession) (e : FulltocEntry) : Nat → Option AccuSession :=
  if session_ok e.session then
    Function.update sess e.session.toNat
      (some (sess_edit e ((sess e.session.toNat).getD { number := e.session })))
  else sess

/-- One entry. -/
def table_step (t : FulltocTables) (e : FulltocEntry) : FulltocTables :=
  ⟨table_slot t.slot e, table_sess t.sess e, t.anomalies ||| entry_anomalies e⟩

/-- The running minimum and maximum of the session numbers. -/
def next_first (first session : BitVec 8) : BitVec 8 := if first = 0 ∨
    session < first then session else first
def next_last (last session : BitVec 8) : BitVec 8 := if last < session then session else last

section
variable {s : FulltocScan} {e : FulltocEntry} {es es' : List FulltocEntry}

/-- The session bounds and the session's entry. -/
theorem fulltoc_session_spec (s : FulltocScan) (e : FulltocEntry) : fulltoc_session s e =
    { s with
      first_session := next_first s.first_session e.session
      last_session := next_last s.last_session e.session
      sess := if session_ok e.session then
          Function.update s.sess e.session.toNat
            (some ((s.sess e.session.toNat).getD { number := e.session }))
        else s.sess
      anomalies := s.anomalies ||| anomaly (!session_ok e.session) ACCUDISC_TOC_ANOM_BAD_SESSION } := by
  unfold fulltoc_session next_first next_last
  cases hok : session_ok e.session with
  | false => simp [anomaly]
  | true =>
    simp only [if_true]
    cases hs : s.sess e.session.toNat with
    | none => simp [anomaly]
    | some x =>
      have : Function.update s.sess e.session.toNat (some x) = s.sess := by
        rw [← hs]
        exact Function.update_eq_self _ _
      simp [anomaly, this]

theorem sess_edit_none (h0 : ¬e.Points 0xA0) (h1 : ¬e.Points 0xA1) (h2 : ¬e.IsA2) (x : AccuSession) :
    sess_edit e x = x := by
  unfold sess_edit
  rw [if_neg h0, if_neg h1, if_neg h2]

/-- The session's entry, created and edited at once. -/
theorem table_sess_eq (hok : session_ok e.session = true) {f : AccuSession → AccuSession}
    (hf : ∀ x, sess_edit e x = f x)
    (sess : Nat → Option AccuSession) :
    Function.update (Function.update sess e.session.toNat
      (some ((sess e.session.toNat).getD { number := e.session })))
      e.session.toNat ((Function.update sess e.session.toNat
        (some ((sess e.session.toNat).getD { number := e.session })) e.session.toNat).map f) =
          table_sess sess e := by
  unfold table_sess
  rw [if_pos hok, Function.update_idem, Function.update_self, hf]
  rfl

theorem table_sess_id (hf : session_ok e.session = true → ∀ x, sess_edit e x = x) (sess : Nat →
    Option AccuSession) :
    (if session_ok e.session then
      Function.update sess e.session.toNat (some ((sess e.session.toNat).getD { number := e.session }))
        else sess) =
      table_sess sess e := by
  unfold table_sess
  by_cases hok : session_ok e.session = true
  · rw [if_pos hok, if_pos hok, hf hok]
  · rw [if_neg hok, if_neg hok]

/-- What one entry makes of the scan, field by field. -/
@[mk_iff]
structure FulltocPointed (s : FulltocScan) (e : FulltocEntry) (s' : FulltocScan) : Prop where
  first_session : s'.first_session = next_first s.first_session e.session
  last_session : s'.last_session = next_last s.last_session e.session
  first_track : s'.first_track =
    if e.Points 0xA0 ∧ (s.first_track = 0 ∨ e.session ≤ next_first s.first_session e.session) then e.pmin
    else s.first_track
  disc_type : s'.disc_type =
    if e.Points 0xA0 ∧ (s.disc_type = 0 ∨ e.session ≤ next_first s.first_session e.session) then e.psec
    else s.disc_type
  last_track : s'.last_track =
    if e.Points 0xA1 ∧ (s.last_track = 0 ∨ next_last s.last_session e.session ≤ e.session) then e.pmin
    else s.last_track
  leadout : s'.leadout =
    if e.IsA2 ∧ (s.leadout = none ∨ next_last s.last_session e.session ≤ e.session) then some e.addr.toNat
    else s.leadout
  tables : s'.tables = table_step s.tables e

/-- The point of an entry is of one kind. -/
theorem FulltocEntry.Points.eq_of {p q : BitVec 8} (h : e.Points p) (hq : e.point = q) : p = q :=
  h.1.symm.trans hq

theorem no_slot (htrk : ¬e.IsTrack) (slot : Nat → Option AccuTrack) : table_slot slot e = slot :=
  if_neg fun h => htrk h.1

theorem no_place (htrk : ¬e.IsTrack) :
    anomaly (decide (e.IsTrack ∧ e.addr < 0)) ACCUDISC_TOC_ANOM_NEGATIVE_LBA = 0 := by
  rw [decide_eq_false fun h => htrk h.1]
  rfl

theorem no_mark (h : ¬((e.point = 0xA0 ∨ e.point = 0xA1) ∧ (e.pmin < 1 ∨ 99 < e.pmin))) :
    anomaly (decide ((e.point = 0xA0 ∨ e.point = 0xA1) ∧ (e.pmin < 1 ∨ 99 < e.pmin)))
      ACCUDISC_TOC_ANOM_BAD_TRACK_NUM = 0 := by
  rw [decide_eq_false h]
  rfl

theorem pointed_track (s : FulltocScan) (htrk : e.IsTrack) :
    FulltocPointed s e (fulltoc_track (fulltoc_session s e) e e.addr) := by
  have h0 : e.point ≠ 0xA0 := fun h => by have := htrk.2; rw [h] at this; exact absurd this (by decide)
  have h1 : e.point ≠ 0xA1 := fun h => by have := htrk.2; rw [h] at this; exact absurd this (by decide)
  have h2 : e.point ≠ 0xA2 := fun h => by have := htrk.2; rw [h] at this; exact absurd this (by decide)
  have hsess := table_sess_id (e := e)
    (fun _ => sess_edit_none (fun h => h0 h.1) (fun h => h1 h.1) fun h => h2 h.1) s.sess
  rw [fulltocPointed_iff, fulltoc_session_spec]
  rw [if_neg (c := e.Points 0xA0 ∧ _) fun h => h0 h.1.1, if_neg (c := e.Points 0xA0 ∧ _) fun h => h0 h.1.1,
    if_neg (c := e.Points 0xA1 ∧ _) fun h => h1 h.1.1, if_neg (c := e.IsA2 ∧ _) fun h => h2 h.1.1]
  have hmark := no_mark (e := e) fun h => h.1.elim h0 h1
  unfold fulltoc_track
  by_cases hneg : e.addr < 0
  · rw [if_pos hneg]
    refine ⟨rfl, rfl, rfl, rfl, rfl, rfl, ?_⟩
    unfold FulltocScan.tables table_step table_slot entry_anomalies
    rw [hsess, hmark, if_neg fun h => by omega, decide_eq_true (p := e.IsTrack ∧ e.addr < 0) ⟨htrk, hneg⟩]
    simp [anomaly, Nat.or_assoc]
  · rw [if_neg hneg]
    cases hslot : s.slot e.point.toNat with
    | some t =>
      simp only []
      refine ⟨trivial, trivial, trivial, trivial, trivial, trivial, ?_⟩
      unfold FulltocScan.tables table_step table_slot entry_anomalies
      rw [hsess, hmark, if_neg fun h => by simp [hslot] at h,
        decide_eq_false (p := e.IsTrack ∧ e.addr < 0) fun h => hneg h.2]
      simp [anomaly]
    | none =>
      simp only []
      refine ⟨trivial, trivial, trivial, trivial, trivial, trivial, ?_⟩
      unfold FulltocScan.tables table_step table_slot entry_anomalies
      rw [hsess, hmark, if_pos ⟨htrk, by omega, hslot⟩,
        decide_eq_false (p := e.IsTrack ∧ e.addr < 0) fun h => hneg h.2]
      simp [anomaly]

/-- A first or a last track number that is none is flagged. -/
theorem pointed_bad (s : FulltocScan) (htrk : ¬e.IsTrack) (hp : e.point = 0xA0 ∨ e.point = 0xA1)
    (hbad : e.pmin < 1 ∨ 99 < e.pmin) :
    FulltocPointed s e { fulltoc_session s e with
      anomalies := (fulltoc_session s e).anomalies ||| ACCUDISC_TOC_ANOM_BAD_TRACK_NUM } := by
  have hno : ∀ p, ¬e.Points p := fun p h => h.2.1 hbad
  have h2 : ¬e.IsA2 := fun h => by
    have := h.1
    rcases hp with hp | hp <;> rw [hp] at this <;> exact absurd this (by decide)
  have hsess := table_sess_id (e := e) (fun _ => sess_edit_none (hno _) (hno _) h2) s.sess
  rw [fulltocPointed_iff, fulltoc_session_spec]
  simp only [hno, h2, false_and, if_false]
  refine ⟨trivial, trivial, trivial, trivial, trivial, trivial, ?_⟩
  unfold FulltocScan.tables table_step entry_anomalies
  rw [hsess, no_slot htrk, no_place htrk, decide_eq_true ⟨hp, hbad⟩]
  simp [anomaly, Nat.or_assoc]

/-- An entry that points nowhere leaves its session. -/
theorem pointed_same (s : FulltocScan) (htrk : ¬e.IsTrack) (h0 : ¬e.Points 0xA0)
    (h1 : ¬e.Points 0xA1) (h2 : ¬e.IsA2)
    (hmark : ¬((e.point = 0xA0 ∨ e.point = 0xA1) ∧ (e.pmin < 1 ∨ 99 < e.pmin))) :
    FulltocPointed s e (fulltoc_session s e) := by
  have hsess := table_sess_id (e := e) (fun _ => sess_edit_none h0 h1 h2) s.sess
  rw [fulltocPointed_iff, fulltoc_session_spec]
  simp only [h0, h1, h2, false_and, if_false]
  refine ⟨trivial, trivial, trivial, trivial, trivial, trivial, ?_⟩
  unfold FulltocScan.tables table_step entry_anomalies
  rw [hsess, no_slot htrk, no_place htrk, no_mark hmark]
  simp

theorem pointed_a0 (s : FulltocScan) (htrk : ¬e.IsTrack) (h0 : e.point = 0xA0) :
    FulltocPointed s e (fulltoc_a0 (fulltoc_session s e) e) := by
  have hno1 : ¬e.Points 0xA1 := fun h => absurd (h.eq_of h0) (by decide)
  have h2 : ¬e.IsA2 := fun h => by have := h.1; rw [h0] at this; exact absurd this (by decide)
  unfold fulltoc_a0
  by_cases hbad : e.pmin < 1 ∨ 99 < e.pmin
  · rw [if_pos hbad]
    exact pointed_bad s htrk (.inl h0) hbad
  · rw [if_neg hbad]
    by_cases hok : session_ok e.session = true
    · have hyes : e.Points 0xA0 := ⟨h0, hbad, hok⟩
      have hsess := table_sess_eq (e := e) hok (f := fun x => { x with first_track := e.pmin }) (fun x => by
        unfold sess_edit
        rw [if_pos hyes, if_neg hno1, if_neg h2]) s.sess
      rw [fulltocPointed_iff, fulltoc_session_spec]
      simp only [if_pos hok, hyes, hno1, h2, true_and, false_and, if_false, FulltocScan.setSess]
      unfold FulltocScan.tables table_step entry_anomalies
      rw [no_slot htrk, no_place htrk, no_mark fun h => hbad h.2]
      simp only [hsess, Nat.or_zero]
    · rw [if_neg hok]
      exact pointed_same s htrk (fun h => hok h.2.2) hno1 h2 fun h => hbad h.2

theorem pointed_a1 (s : FulltocScan) (htrk : ¬e.IsTrack) (h1 : e.point = 0xA1) :
    FulltocPointed s e (fulltoc_a1 (fulltoc_session s e) e) := by
  have hno0 : ¬e.Points 0xA0 := fun h => absurd (h.eq_of h1) (by decide)
  have h2 : ¬e.IsA2 := fun h => by have := h.1; rw [h1] at this; exact absurd this (by decide)
  unfold fulltoc_a1
  by_cases hbad : e.pmin < 1 ∨ 99 < e.pmin
  · rw [if_pos hbad]
    exact pointed_bad s htrk (.inr h1) hbad
  · rw [if_neg hbad]
    by_cases hok : session_ok e.session = true
    · have hyes : e.Points 0xA1 := ⟨h1, hbad, hok⟩
      have hsess := table_sess_eq (e := e) hok (f := fun x => { x with last_track := e.pmin }) (fun x => by
        unfold sess_edit
        rw [if_neg hno0, if_pos hyes, if_neg h2]) s.sess
      rw [fulltocPointed_iff, fulltoc_session_spec]
      simp only [if_pos hok, hyes, hno0, h2, true_and, false_and, if_false, FulltocScan.setSess]
      unfold FulltocScan.tables table_step entry_anomalies
      rw [no_slot htrk, no_place htrk, no_mark fun h => hbad h.2]
      simp only [hsess, Nat.or_zero]
    · rw [if_neg hok]
      exact pointed_same s htrk hno0 (fun h => hok h.2.2) h2 fun h => hbad h.2

theorem pointed_a2 (s : FulltocScan) (htrk : ¬e.IsTrack) (h2 : e.IsA2) :
    FulltocPointed s e (fulltoc_a2 (fulltoc_session s e) e e.addr) := by
  have hno0 : ¬e.Points 0xA0 := fun h => absurd (h.eq_of h2.1) (by decide)
  have hno1 : ¬e.Points 0xA1 := fun h => absurd (h.eq_of h2.1) (by decide)
  have hmark := no_mark (e := e) fun h => by
    have := h2.1
    rcases h.1 with hp | hp <;> rw [hp] at this <;> exact absurd this (by decide)
  rw [fulltocPointed_iff, fulltoc_session_spec]
  unfold fulltoc_a2
  by_cases hok : session_ok e.session = true
  · have hsess :=
      table_sess_eq (e := e) hok (f := fun x => { x with leadout_lba := e.addr.toNat }) (fun x => by
      unfold sess_edit
      rw [if_neg hno0, if_neg hno1, if_pos h2]) s.sess
    simp only [if_pos hok, hno0, hno1, h2, true_and, false_and, if_false]
    unfold FulltocScan.tables table_step entry_anomalies FulltocScan.setSess
    rw [no_slot htrk, no_place htrk, hmark, ← hsess]
    simp only [Option.isNone_iff_eq_none]
    split
    · simp
    · simp
  · have hsess := table_sess_id (e := e) (fun h => absurd h hok) s.sess
    rw [if_neg hok] at hsess
    simp only [if_neg hok, hno0, hno1, h2, true_and, false_and, if_false]
    unfold FulltocScan.tables table_step entry_anomalies
    rw [no_slot htrk, no_place htrk, hmark, ← hsess]
    simp only [Option.isNone_iff_eq_none]
    split
    · simp
    · simp

/-- **One entry**, by what it points to. -/
theorem fulltoc_point_spec (s : FulltocScan) (e : FulltocEntry) :
    FulltocPointed s e (fulltoc_point s e) := by
  unfold fulltoc_point
  simp only []
  by_cases htrk : e.IsTrack
  · rw [if_pos (show 0x01 ≤ e.point ∧ e.point ≤ 0x63 from htrk)]
    exact pointed_track s htrk
  rw [if_neg (show ¬(0x01 ≤ e.point ∧ e.point ≤ 0x63) from htrk)]
  by_cases h0 : e.point = 0xA0
  · rw [if_pos h0]
    exact pointed_a0 s htrk h0
  rw [if_neg h0]
  by_cases h1 : e.point = 0xA1
  · rw [if_pos h1]
    exact pointed_a1 s htrk h1
  rw [if_neg h1]
  by_cases h2 : e.IsA2
  · rw [if_pos (show e.point = 0xA2 ∧ 0 ≤ accudisc_msf_to_lba e.pmin e.psec e.pframe from h2)]
    exact pointed_a2 s htrk h2
  · rw [if_neg (show ¬(e.point = 0xA2 ∧ 0 ≤ accudisc_msf_to_lba e.pmin e.psec e.pframe) from h2)]
    exact pointed_same s htrk (fun h => h0 h.1) (fun h => h1 h.1) h2 fun h => h.1.elim h0 h1

/-! ## The tables in any order -/

/-- What the entries leave. -/
def fulltoc_scan (es : List FulltocEntry) : FulltocScan := es.foldl fulltoc_point {}

theorem scan_def (es : List FulltocEntry) : es.foldl fulltoc_point {} = fulltoc_scan es := rfl

theorem scan_snoc (es : List FulltocEntry) (e : FulltocEntry) :
    fulltoc_scan (es ++ [e]) = fulltoc_point (fulltoc_scan es) e := by
  unfold fulltoc_scan
  rw [List.foldl_append]
  rfl

theorem tables_run (es : List FulltocEntry) : (fulltoc_scan es).tables = es.foldl table_step {} := by
  induction es using List.reverseRecOn with
  | nil => rfl
  | append_singleton es e ih =>
    rw [scan_snoc, (fulltoc_point_spec _ e).tables, ih, List.foldl_append]
    rfl

theorem table_slot_comm {e' : FulltocEntry} (h : e.IsTrack → e.point ≠ e'.point) (slot : Nat →
    Option AccuTrack) :
    table_slot (table_slot slot e) e' = table_slot (table_slot slot e') e := by
  by_cases ht : e.IsTrack
  · have hne : e.point.toNat ≠ e'.point.toNat := fun hp => h ht (BitVec.eq_of_toNat_eq hp)
    unfold table_slot
    by_cases h1 : e.IsTrack ∧ 0 ≤ e.addr ∧ slot e.point.toNat = none
    · by_cases h2 : e'.IsTrack ∧ 0 ≤ e'.addr ∧ slot e'.point.toNat = none
      · rw [if_pos h1, if_pos h2, Function.update_of_ne hne.symm, Function.update_of_ne hne,
          if_pos h2, if_pos h1,
          Function.update_comm hne]
      · rw [if_pos h1, if_neg h2, Function.update_of_ne hne.symm, if_neg h2, if_pos h1]
    · rw [if_neg h1]
      by_cases h2 : e'.IsTrack ∧ 0 ≤ e'.addr ∧ slot e'.point.toNat = none
      · rw [if_pos h2, Function.update_of_ne hne, if_neg h1]
      · rw [if_neg h2, if_neg h1]
  · have hid : ∀ slot, table_slot slot e = slot := fun slot => if_neg fun hh => ht hh.1
    rw [hid, hid]

theorem sess_edit_comm {e' : FulltocEntry} (h : e.point ≠ e'.point) (x : AccuSession) :
    sess_edit e' (sess_edit e x) = sess_edit e (sess_edit e' x) := by
  have h0 : ¬(e.Points 0xA0 ∧ e'.Points 0xA0) := fun hh => h (hh.1.1.trans hh.2.1.symm)
  have h1 : ¬(e.Points 0xA1 ∧ e'.Points 0xA1) := fun hh => h (hh.1.1.trans hh.2.1.symm)
  have h2 : ¬(e.IsA2 ∧ e'.IsA2) := fun hh => h (hh.1.1.trans hh.2.1.symm)
  have hswap : ∀ {α : Type} {p q : Prop} [Decidable p] [Decidable q] {a b c : α}, ¬(p ∧ q) →
      (if q then b else if p then a else c) = if p then a else if q then b else c := by
    intro α p q _ _ a b c hpq
    by_cases hp : p
    · rw [if_pos hp, if_pos hp, if_neg fun hq => hpq ⟨hp, hq⟩]
    · rw [if_neg hp, if_neg hp]
  unfold sess_edit
  simp only [hswap h0, hswap h1, hswap h2]

theorem table_sess_comm {e' : FulltocEntry} (h : ¬(e.session = e'.session ∧ e.point = e'.point))
    (sess : Nat → Option AccuSession) :
    table_sess (table_sess sess e) e' = table_sess (table_sess sess e') e := by
  unfold table_sess
  by_cases h1 : session_ok e.session = true
  · by_cases h2 : session_ok e'.session = true
    · simp only [if_pos h1, if_pos h2]
      by_cases hs : e.session = e'.session
      · rw [← hs, Function.update_self, Function.update_self, Function.update_idem, Function.update_idem]
        simp only [Option.getD_some]
        rw [sess_edit_comm fun hp => h ⟨hs, hp⟩]
      · have hne : e.session.toNat ≠ e'.session.toNat := fun hp => hs (BitVec.eq_of_toNat_eq hp)
        rw [Function.update_of_ne hne.symm, Function.update_of_ne hne, Function.update_comm hne]
    · simp only [if_pos h1, if_neg h2]
  · simp only [if_neg h1]

/-- **The tables** are the same in every order. -/
theorem tables_perm (hsimple : FulltocSimple es) (hp : es.Perm es') :
    (fulltoc_scan es).tables = (fulltoc_scan es').tables := by
  rw [tables_run, tables_run]
  have hpair : ∀ e ∈ es, ∀ e' ∈ es, e ≠ e' →
      ¬(e.session = e'.session ∧ e.point = e'.point) ∧ (e.IsTrack → e.point ≠ e'.point) := by
    intro e he e' he' hne
    have hfront := (List.perm_cons_erase he).pairwise_iff (R := fun e e' : FulltocEntry =>
        ¬(e.session = e'.session ∧ e.point = e'.point) ∧ (e.IsTrack → e.point ≠ e'.point)) (fun {x y} hxy =>
      ⟨fun hh => hxy.1 ⟨hh.1.symm, hh.2.symm⟩, fun ht he => hxy.2 (by
        unfold FulltocEntry.IsTrack at ht ⊢
        rwa [← he]) he.symm⟩) |>.1 hsimple
    exact (List.pairwise_cons.1 hfront).1 e' ((List.mem_erase_of_ne fun he => hne he.symm).2 he')
  refine hp.foldl_eq' (fun e he e' he' t => ?_) _
  by_cases hne : e = e'
  · rw [hne]
  · obtain ⟨h1, h2⟩ := hpair e he e' he' hne
    unfold table_step
    simp only [table_slot_comm h2, table_sess_comm h1, FulltocTables.mk.injEq, true_and]
    rw [Nat.or_assoc, Nat.or_comm (entry_anomalies e), ← Nat.or_assoc]

/-- A slot is filled by a track entry that has an address. -/
theorem slot_isSome (es : List FulltocEntry) (n : Nat) :
    (fulltoc_scan es).slot n ≠ none ↔ ∃ e ∈ es, e.IsTrack ∧ 0 ≤ e.addr ∧ e.point.toNat = n := by
  induction es using List.reverseRecOn with
  | nil => exact ⟨fun h => absurd rfl h, fun h => by obtain ⟨e, he, -⟩ := h; cases he⟩
  | append_singleton es e ih =>
    have hslot : (fulltoc_scan (es ++ [e])).slot = table_slot (fulltoc_scan es).slot e := by
      rw [scan_snoc]
      exact congrArg FulltocTables.slot (fulltoc_point_spec _ e).tables
    rw [hslot]
    have hmem : (∃ d ∈ es ++ [e], d.IsTrack ∧ 0 ≤ d.addr ∧ d.point.toNat = n) ↔
        (∃ d ∈ es, d.IsTrack ∧ 0 ≤ d.addr ∧ d.point.toNat = n) ∨ e.IsTrack ∧ 0 ≤ e.addr ∧
          e.point.toNat = n := by
      constructor
      · intro h
        obtain ⟨d, hd, hdn⟩ := h
        rcases List.mem_append.1 hd with hd | hd
        · exact .inl ⟨d, hd, hdn⟩
        · exact .inr (List.mem_singleton.1 hd ▸ hdn)
      · intro h
        rcases h with ⟨d, hd, hdn⟩ | h
        · exact ⟨d, by simp [hd], hdn⟩
        · exact ⟨e, by simp, h⟩
    rw [hmem, ← ih]
    unfold table_slot
    by_cases hset : e.IsTrack ∧ 0 ≤ e.addr ∧ (fulltoc_scan es).slot e.point.toNat = none
    · rw [if_pos hset]
      by_cases hn : n = e.point.toNat
      · rw [hn, Function.update_self]
        exact ⟨fun _ => .inr ⟨hset.1, hset.2.1, rfl⟩, fun _ => by simp⟩
      · rw [Function.update_of_ne hn]
        exact ⟨.inl, fun h => h.resolve_right fun hh => hn hh.2.2.symm⟩
    · rw [if_neg hset]
      refine ⟨.inl, fun h => h.elim id fun hh => ?_⟩
      intro hnone
      exact hset ⟨hh.1, hh.2.1, hh.2.2 ▸ hnone⟩

/-! ## The picks -/

/-- A byte with zero for none. -/
def byte_value (b : BitVec 8) : Option (BitVec 8) := if b = 0 then none else some b

/-- The sessions, and the sessions from the highest down. -/
def session_key (e : FulltocEntry) : Nat := e.session.toNat
def session_rank (e : FulltocEntry) : Natᵒᵈ := OrderDual.toDual e.session.toNat

theorem byte_value_getD (b : BitVec 8) : (byte_value b).getD 0 = b := by
  unfold byte_value
  by_cases hb : b = 0
  · simp [hb]
  · rw [if_neg hb]
    rfl

theorem getD_zero {held : Option (BitVec 8)} (h0 : held ≠ some 0) : held.getD 0 = 0 ↔ held = none := by
  cases held with
  | none => simp
  | some v =>
    refine ⟨fun h => ?_, fun h => by cases h⟩
    exact absurd (by rw [show v = 0 from h]) h0

theorem byte_step {p c c' : Prop} [Decidable p] [Decidable c] [Decidable c'] {f w : BitVec 8}
    {held : Option (BitVec 8)} (hf : f = held.getD 0) (h0 : held ≠ some 0) (hc : c ↔ c') :
    (if p ∧ (f = 0 ∨ c) then w else f) = (if p ∧ (held = none ∨ c') then byte_value w else held).getD 0 ∧
      (if p ∧ (held = none ∨ c') then byte_value w else held) ≠ some 0 := by
  have hnone : f = 0 ↔ held = none := by
    rw [hf]
    exact getD_zero h0
  by_cases hset : p ∧ (f = 0 ∨ c)
  · rw [if_pos hset, if_pos ⟨hset.1, hset.2.imp hnone.1 hc.1⟩]
    unfold byte_value
    by_cases hw : w = 0
    · simp [hw]
    · rw [if_neg hw]
      exact ⟨rfl, fun h => hw (Option.some.inj h)⟩
  · rw [if_neg hset, if_neg fun hh => hset ⟨hh.1, hh.2.imp hnone.2 hc.2⟩]
    exact ⟨hf, h0⟩

/-- The highest session so far. -/
theorem last_run (cand : FulltocEntry → Prop) [DecidablePred cand] {V : Type}
    (value : FulltocEntry → Option V)
    (es : List FulltocEntry) (e : FulltocEntry) :
    Running.leastOf (es.foldl (Running.step session_rank cand value) {}).least (session_rank e) =
      OrderDual.toDual (next_last (fulltoc_scan es).last_session e.session).toNat := by
  have hstep : ∀ (last session : BitVec 8), Running.leastOf (some (OrderDual.toDual last.toNat))
      (OrderDual.toDual session.toNat) = OrderDual.toDual (next_last last session).toNat := by
    intro last session
    unfold Running.leastOf next_last
    simp only [OrderDual.toDual_lt_toDual, BitVec.lt_def]
    split <;> rfl
  have hinit : ∀ session : BitVec 8, next_last 0 session = session := by
    intro session
    unfold next_last
    split
    · rfl
    · rename_i h
      rw [BitVec.lt_def] at h
      exact BitVec.eq_of_toNat_eq (by simp at h ⊢; omega)
  induction es using List.reverseRecOn generalizing e with
  | nil =>
    show OrderDual.toDual e.session.toNat = OrderDual.toDual (next_last 0 e.session).toNat
    rw [hinit]
  | append_singleton es d ih =>
    rw [Running.foldl_snoc, scan_snoc, (fulltoc_point_spec _ d).last_session]
    show Running.leastOf (some (Running.leastOf (es.foldl (Running.step session_rank cand value) {}).least
      (session_rank d))) (session_rank e) = _
    rw [ih d]
    exact hstep _ _

/-- The lowest session so far, where no session is zero. -/
theorem first_run (cand : FulltocEntry → Prop) [DecidablePred cand] {V : Type}
    (value : FulltocEntry → Option V)
    (es : List FulltocEntry) (e : FulltocEntry) (hes : ∀ d ∈ es, d.session ≠ 0) :
    Running.leastOf (es.foldl (Running.step session_key cand value) {}).least (session_key e) =
      (next_first (fulltoc_scan es).first_session e.session).toNat := by
  have hstep : ∀ (first session : BitVec 8), first ≠ 0 → Running.leastOf (some first.toNat) session.toNat =
      (next_first first session).toNat := by
    intro first session h
    unfold Running.leastOf next_first
    simp only [h, false_or, BitVec.lt_def]
    split <;> rfl
  have hne : ∀ first session : BitVec 8, session ≠ 0 → next_first first session ≠ 0 := by
    intro first session h
    unfold next_first
    split
    · exact h
    · rename_i hno
      exact fun h0 => hno (.inl h0)
  induction es using List.reverseRecOn generalizing e with
  | nil =>
    show e.session.toNat = (next_first 0 e.session).toNat
    unfold next_first
    rw [if_pos (.inl rfl)]
  | append_singleton es d ih =>
    rw [Running.foldl_snoc, scan_snoc, (fulltoc_point_spec _ d).first_session]
    show Running.leastOf (some (Running.leastOf (es.foldl (Running.step session_key cand value) {}).least
      (session_key d))) (session_key e) = _
    rw [ih d fun x hx => hes x (by simp [hx])]
    exact hstep _ _ (hne _ _ (hes d (by simp)))

/-- The four values, as picks. -/
def pick_first (es : List FulltocEntry) : Option (BitVec 8) :=
  Running.pick session_key (·.Points 0xA0) (fun e => byte_value e.pmin) es
def pick_type (es : List FulltocEntry) : Option (BitVec 8) :=
  Running.pick session_key (·.Points 0xA0) (fun e => byte_value e.psec) es
def pick_last (es : List FulltocEntry) : Option (BitVec 8) :=
  Running.pick session_rank (·.Points 0xA1) (fun e => byte_value e.pmin) es
def pick_leadout (es : List FulltocEntry) : Option Nat :=
  Running.pick session_rank FulltocEntry.IsA2 (fun e => some e.addr.toNat) es

theorem last_track_run (es : List FulltocEntry) :
    (fulltoc_scan es).last_track = (pick_last es).getD 0 ∧ pick_last es ≠ some 0 := by
  induction es using List.reverseRecOn with
  | nil => exact ⟨rfl, by simp [pick_last, Running.pick]⟩
  | append_singleton es e ih =>
    unfold pick_last Running.pick at ih ⊢
    rw [Running.foldl_snoc, Running.step_held, last_run, scan_snoc, (fulltoc_point_spec _ e).last_track]
    refine byte_step ih.1 ih.2 ?_
    rw [BitVec.le_def]
    exact Iff.rfl

theorem leadout_run (es : List FulltocEntry) : (fulltoc_scan es).leadout = pick_leadout es := by
  induction es using List.reverseRecOn with
  | nil => rfl
  | append_singleton es e ih =>
    unfold pick_leadout Running.pick at ih ⊢
    rw [Running.foldl_snoc, Running.step_held, last_run, scan_snoc, (fulltoc_point_spec _ e).leadout, ih]
    refine if_congr (and_congr_right fun _ => or_congr_right ?_) rfl rfl
    rw [BitVec.le_def]
    exact Iff.rfl

theorem first_track_run (es : List FulltocEntry) (hes : ∀ e ∈ es, e.session ≠ 0) :
    (fulltoc_scan es).first_track = (pick_first es).getD 0 ∧ pick_first es ≠ some 0 := by
  induction es using List.reverseRecOn with
  | nil => exact ⟨rfl, by simp [pick_first, Running.pick]⟩
  | append_singleton es e ih =>
    have hes' : ∀ d ∈ es, d.session ≠ 0 := fun d hd => hes d (by simp [hd])
    have ih := ih hes'
    unfold pick_first Running.pick at ih ⊢
    rw [Running.foldl_snoc, Running.step_held, first_run _ _ es e hes', scan_snoc,
      (fulltoc_point_spec _ e).first_track]
    refine byte_step ih.1 ih.2 ?_
    rw [BitVec.le_def]
    exact Iff.rfl

theorem disc_type_run (es : List FulltocEntry) (hes : ∀ e ∈ es, e.session ≠ 0) :
    (fulltoc_scan es).disc_type = (pick_type es).getD 0 ∧ pick_type es ≠ some 0 := by
  induction es using List.reverseRecOn with
  | nil => exact ⟨rfl, by simp [pick_type, Running.pick]⟩
  | append_singleton es e ih =>
    have hes' : ∀ d ∈ es, d.session ≠ 0 := fun d hd => hes d (by simp [hd])
    have ih := ih hes'
    unfold pick_type Running.pick at ih ⊢
    rw [Running.foldl_snoc, Running.step_held, first_run _ _ es e hes', scan_snoc,
      (fulltoc_point_spec _ e).disc_type]
    refine byte_step ih.1 ih.2 ?_
    rw [BitVec.le_def]
    exact Iff.rfl

/-- A lead-in of sessions numbered zero has no A0 or A1 that is taken. -/
theorem zero_run (es : List FulltocEntry) (hes : ∀ e ∈ es, e.session = 0) :
    (fulltoc_scan es).first_track = 0 ∧ (fulltoc_scan es).disc_type = 0 := by
  induction es using List.reverseRecOn with
  | nil => exact ⟨rfl, rfl⟩
  | append_singleton es e ih =>
    have hno : ¬e.Points 0xA0 := by
      intro h
      have := h.2.2
      rw [hes e (by simp)] at this
      exact absurd this (by decide)
    have ih := ih fun d hd => hes d (by simp [hd])
    rw [scan_snoc, (fulltoc_point_spec _ e).first_track, (fulltoc_point_spec _ e).disc_type,
      if_neg fun h => hno h.1,
      if_neg fun h => hno h.1]
    exact ih

theorem first_session_run (es : List FulltocEntry) :
    (fulltoc_scan es).first_session = es.foldl (fun f e => next_first f e.session) 0 := by
  induction es using List.reverseRecOn with
  | nil => rfl
  | append_singleton es e ih =>
    rw [scan_snoc, (fulltoc_point_spec _ e).first_session, ih, List.foldl_append]
    rfl

theorem last_session_run (es : List FulltocEntry) :
    (fulltoc_scan es).last_session = es.foldl (fun l e => next_last l e.session) 0 := by
  induction es using List.reverseRecOn with
  | nil => rfl
  | append_singleton es e ih =>
    rw [scan_snoc, (fulltoc_point_spec _ e).last_session, ih, List.foldl_append]
    rfl

theorem next_first_toNat (f a : BitVec 8) :
    (next_first f a).toNat = if f.toNat = 0 ∨ a.toNat < f.toNat then a.toNat else f.toNat := by
  unfold next_first
  have hf : f = 0 ↔ f.toNat = 0 := ⟨fun h => by rw [h]; rfl, fun h => BitVec.eq_of_toNat_eq h⟩
  simp only [hf, BitVec.lt_def]
  split <;> rfl

theorem next_first_comm {f a b : BitVec 8} (h : a = 0 ∧ b = 0 ∨ a ≠ 0 ∧ b ≠ 0) :
    next_first (next_first f a) b = next_first (next_first f b) a := by
  rcases h with ⟨rfl, rfl⟩ | ⟨ha, hb⟩
  · rfl
  · have ha' : a.toNat ≠ 0 := fun h => ha (BitVec.eq_of_toNat_eq h)
    have hb' : b.toNat ≠ 0 := fun h => hb (BitVec.eq_of_toNat_eq h)
    apply BitVec.eq_of_toNat_eq
    simp only [next_first_toNat]
    split_ifs <;> omega

theorem next_last_toNat (l a : BitVec 8) : (next_last l a).toNat = max l.toNat a.toNat := by
  unfold next_last
  simp only [BitVec.lt_def]
  split
  · rename_i h
    rw [max_eq_right h.le]
  · rename_i h
    rw [max_eq_left (Nat.not_lt.1 h)]

theorem next_last_comm (l a b : BitVec 8) : next_last (next_last l a) b = next_last (next_last l b) a := by
  apply BitVec.eq_of_toNat_eq
  simp only [next_last_toNat]
  exact max_right_comm _ _ _

/-! ## Any order -/

/-- Where every order of the entries gives the same: session 0 is not mixed with others, and each of the
four picks settles. -/
structure OrderSettled (es : List FulltocEntry) : Prop where
  sessions : (∀ e ∈ es, e.session = 0) ∨ ∀ e ∈ es, e.session ≠ 0
  first : Running.Settles session_key (·.Points 0xA0) (fun e => byte_value e.pmin) es
  type : Running.Settles session_key (·.Points 0xA0) (fun e => byte_value e.psec) es
  last : Running.Settles session_rank (·.Points 0xA1) (fun e => byte_value e.pmin) es
  leadout : Running.Settles session_rank FulltocEntry.IsA2 (fun e => some e.addr.toNat) es

/-- The lead-in gives a TOC: it has a lead-out and a track. -/
def Placeable (es : List FulltocEntry) : Prop := (∃ e ∈ es, e.IsA2) ∧ ∃ e ∈ es, e.IsTrack ∧ 0 ≤ e.addr

/-- The disc's values are those of the lowest A0, the highest A1 and the highest A2. -/
structure FromBounds (es : List FulltocEntry) (x : AccuToc × TocInfo) : Prop where
  first : ∀ a, Running.Lowest session_key (·.Points 0xA0) es a →
    x.1.first_track = a.pmin ∧ x.2.disc_type = a.psec
  last : ∀ a, Running.Lowest session_rank (·.Points 0xA1) es a → x.1.last_track = a.pmin
  leadout : ∀ a, Running.Lowest session_rank FulltocEntry.IsA2 es a → x.1.leadout_lba = a.addr.toNat

/-- Every order of the entries gives the same answer, and it is that of the bounds. -/
def OrderRight (ft : AccuFulltoc) : Prop :=
  (∀ es, es.Perm ft.entries → adsc_toc_from_fulltoc { ft with entries := es } = adsc_toc_from_fulltoc ft) ∧
    ∀ x, adsc_toc_from_fulltoc ft = .ok x → FromBounds ft.entries x

theorem Points.byte {point : BitVec 8} (h : e.Points point) : byte_value e.pmin = some e.pmin := by
  refine if_neg fun h0 => h.2.1 (.inl ?_)
  rw [h0]
  decide

theorem Points.session_ne {point : BitVec 8} (h : e.Points point) : e.session ≠ 0 := by
  intro h0
  have := h.2.2
  rw [h0] at this
  exact absurd this (by decide)

theorem simple_distinct {K : Type} [LinearOrder K] {key : FulltocEntry → K} {cand : FulltocEntry → Prop}
    (hsimple : FulltocSimple es) (hkey : ∀ a b : FulltocEntry, key a = key b → a.session = b.session)
    {point : BitVec 8} (hcand : ∀ a, cand a → a.point = point) : Running.Distinct key cand es :=
  hsimple.imp fun {a b} hab ha hb he => hab.1 ⟨hkey a b he, (hcand a ha).trans (hcand b hb).symm⟩

theorem session_key_inj (a b : FulltocEntry) (h : session_key a = session_key b) : a.session = b.session :=
  BitVec.eq_of_toNat_eq h

theorem session_rank_inj (a b : FulltocEntry) (h : session_rank a = session_rank b) :
    a.session = b.session :=
  BitVec.eq_of_toNat_eq (OrderDual.toDual_inj.1 h)

theorem first_distinct (h : FulltocSimple es) : Running.Distinct session_key (·.Points 0xA0) es :=
  simple_distinct h session_key_inj fun _ ha => ha.1
theorem last_distinct (h : FulltocSimple es) : Running.Distinct session_rank (·.Points 0xA1) es :=
  simple_distinct h session_rank_inj fun _ ha => ha.1
theorem leadout_distinct (h : FulltocSimple es) : Running.Distinct session_rank FulltocEntry.IsA2 es :=
  simple_distinct h session_rank_inj fun _ ha => ha.1

/-- What a TOC of the lead-in says of the walk. -/
theorem from_scan {ft : AccuFulltoc} {x : AccuToc × TocInfo} (h : adsc_toc_from_fulltoc ft = .ok x) :
    x.2 = ⟨(fulltoc_scan ft.entries).first_session, (fulltoc_scan ft.entries).last_session,
      (fulltoc_scan ft.entries).disc_type⟩ ∧
    (fulltoc_scan ft.entries).leadout = some x.1.leadout_lba ∧
    ((fulltoc_scan ft.entries).first_track ≠ 0 → x.1.first_track = (fulltoc_scan ft.entries).first_track) ∧
    ((fulltoc_scan ft.entries).last_track ≠ 0 → x.1.last_track = (fulltoc_scan ft.entries).last_track) := by
  obtain ⟨out, hp, he⟩ := from_fulltoc_place h
  rw [he]
  unfold fulltoc_place at hp
  simp only [scan_def] at hp
  split at hp
  · rename_i leadout first last hl _ _
    simp only [Except.ok.injEq, Prod.mk.injEq] at hp
    obtain ⟨rfl, hinfo⟩ := hp
    exact ⟨hinfo.symm, hl, fun hne => if_pos hne, fun hne => if_pos hne⟩
  · cases hp

/-- Walks that leave the same give the same. -/
theorem from_fulltoc_congr {ft : AccuFulltoc} (h : fulltoc_scan es = fulltoc_scan ft.entries) :
    adsc_toc_from_fulltoc { ft with entries := es } = adsc_toc_from_fulltoc ft := by
  unfold adsc_toc_from_fulltoc fulltoc_place
  change es.foldl fulltoc_point {} = ft.entries.foldl fulltoc_point {} at h
  simp only [h]

theorem tracks_ne_nil (h : ∃ e ∈ es, e.IsTrack ∧ 0 ≤ e.addr) :
    (List.range' 1 99).filterMap (fulltoc_scan es).slot ≠ [] := by
  obtain ⟨e, he, ht, ha⟩ := h
  have hslot := (slot_isSome es e.point.toNat).2 ⟨e, he, ht, ha, rfl⟩
  obtain ⟨t, ht'⟩ := Option.ne_none_iff_exists'.1 hslot
  have h1 : 1 ≤ e.point.toNat := by simpa [BitVec.le_def] using ht.1
  have h2 : e.point.toNat ≤ 99 := by simpa [BitVec.le_def] using ht.2
  exact List.ne_nil_of_mem (List.mem_filterMap.2 ⟨_, List.mem_range'_1.2 ⟨h1, by omega⟩, ht'⟩)

/-- **A TOC is given** exactly where there is a lead-out and a track. -/
theorem from_fulltoc_ok_iff (ft : AccuFulltoc) :
    (∃ x, adsc_toc_from_fulltoc ft = .ok x) ↔ Placeable ft.entries := by
  constructor
  · intro h
    obtain ⟨x, hx⟩ := h
    obtain ⟨-, hl, -⟩ := from_scan hx
    constructor
    · by_contra hno
      have hnone : pick_leadout ft.entries = none := Running.pick_none fun c hc hcc => hno ⟨c, hc, hcc⟩
      rw [leadout_run, hnone] at hl
      cases hl
    · obtain ⟨out, hp, -⟩ := from_fulltoc_place hx
      unfold fulltoc_place at hp
      simp only [scan_def] at hp
      split at hp
      · rename_i leadout first last _ hf _
        have hmem := List.mem_of_mem_head? hf
        obtain ⟨n, -, hn⟩ := List.mem_filterMap.1 hmem
        obtain ⟨e, he, ht, ha, -⟩ := (slot_isSome ft.entries n).1 (by rw [hn]; simp)
        exact ⟨e, he, ht, ha⟩
      · cases hp
  · intro h
    have hl : (fulltoc_scan ft.entries).leadout ≠ none := by
      rw [leadout_run]
      exact Running.pick_ne_none (fun _ _ _ => by simp) h.1
    have htracks := tracks_ne_nil h.2
    unfold adsc_toc_from_fulltoc fulltoc_place
    simp only [scan_def]
    obtain ⟨l, hl⟩ := Option.ne_none_iff_exists'.1 hl
    cases hh : ((List.range' 1 99).filterMap (fulltoc_scan ft.entries).slot).head? with
    | none => exact absurd (List.head?_eq_none_iff.1 hh) htracks
    | some first =>
      cases hg : ((List.range' 1 99).filterMap (fulltoc_scan ft.entries).slot).getLast? with
      | none => exact absurd (List.getLast?_eq_none_iff.1 hg) htracks
      | some last =>
        rw [hl]
        exact ⟨_, rfl⟩

theorem from_fulltoc_error {ft : AccuFulltoc} (h : ¬Placeable ft.entries) :
    adsc_toc_from_fulltoc ft = .error ACCUDISC_ERR_SHORT := by
  cases hx : adsc_toc_from_fulltoc ft with
  | ok x => exact absurd ((from_fulltoc_ok_iff ft).1 ⟨x, hx⟩) h
  | error e =>
    unfold adsc_toc_from_fulltoc fulltoc_place at hx
    simp only [scan_def] at hx
    split at hx
    · cases hx
    · simpa [Except.map] using hx.symm

theorem Placeable.perm (hp : es'.Perm es) (h : Placeable es) : Placeable es' := by
  obtain ⟨⟨l, hl, hla⟩, t, ht, hta⟩ := h
  exact ⟨⟨l, hp.mem_iff.2 hl, hla⟩, t, hp.mem_iff.2 ht, hta⟩

theorem scan_ext {s s' : FulltocScan} (htables : s.tables = s'.tables) (h1 : s.first_track = s'.first_track)
    (h2 : s.last_track = s'.last_track) (h3 : s.disc_type = s'.disc_type)
      (h4 : s.first_session = s'.first_session)
    (h5 : s.last_session = s'.last_session) (h6 : s.leadout = s'.leadout) : s = s' := by
  cases s
  cases s'
  simp_all [FulltocScan.tables]

/-- The session bounds are the same in every order, where session 0 is not mixed with others. -/
theorem first_session_perm (hes : (∀ e ∈ es, e.session = 0) ∨ ∀ e ∈ es, e.session ≠ 0) (hp : es'.Perm es) :
    (fulltoc_scan es').first_session = (fulltoc_scan es).first_session := by
  rw [first_session_run, first_session_run]
  refine (hp.symm.foldl_eq' (fun a ha b hb f => next_first_comm ?_) _).symm
  exact hes.imp (fun h => ⟨h a ha, h b hb⟩) fun h => ⟨h a ha, h b hb⟩

theorem last_session_perm (hp : es'.Perm es) :
    (fulltoc_scan es').last_session = (fulltoc_scan es).last_session := by
  rw [last_session_run, last_session_run]
  exact (hp.symm.foldl_eq' (fun a _ b _ l => next_last_comm l a.session b.session) _).symm

theorem last_track_perm (hsimple : FulltocSimple es)
    (hset : Running.Settles session_rank (·.Points 0xA1) (fun e => byte_value e.pmin) es)
      (hp : es'.Perm es) :
    (fulltoc_scan es').last_track = (fulltoc_scan es).last_track := by
  rw [(last_track_run es').1, (last_track_run es).1]
  exact congrArg (·.getD 0) ((Running.stable_iff (last_distinct hsimple)).2 hset _ hp)

theorem leadout_perm (hsimple : FulltocSimple es)
    (hset : Running.Settles session_rank FulltocEntry.IsA2 (fun e => some e.addr.toNat) es)
      (hp : es'.Perm es) :
    (fulltoc_scan es').leadout = (fulltoc_scan es).leadout := by
  rw [leadout_run, leadout_run]
  exact (Running.stable_iff (leadout_distinct hsimple)).2 hset _ hp

theorem first_track_perm (hsimple : FulltocSimple es) (hset : OrderSettled es) (hp : es'.Perm es) :
    (fulltoc_scan es').first_track = (fulltoc_scan es).first_track ∧
      (fulltoc_scan es').disc_type = (fulltoc_scan es).disc_type := by
  rcases hset.sessions with hzero | hne
  · obtain ⟨h1, h2⟩ := zero_run es hzero
    obtain ⟨h1', h2'⟩ := zero_run es' fun e he => hzero e (hp.mem_iff.1 he)
    exact ⟨h1'.trans h1.symm, h2'.trans h2.symm⟩
  · have hne' : ∀ e ∈ es', e.session ≠ 0 := fun e he => hne e (hp.mem_iff.1 he)
    rw [(first_track_run es' hne').1, (first_track_run es hne).1, (disc_type_run es' hne').1,
      (disc_type_run es hne).1]
    exact ⟨congrArg (·.getD 0) ((Running.stable_iff (first_distinct hsimple)).2 hset.first _ hp),
      congrArg (·.getD 0) ((Running.stable_iff (first_distinct hsimple)).2 hset.type _ hp)⟩

/-- **The walk leaves the same** in every order, where the picks settle. -/
theorem scan_perm (hsimple : FulltocSimple es) (hset : OrderSettled es) (hp : es'.Perm es) :
    fulltoc_scan es' = fulltoc_scan es :=
  scan_ext (tables_perm hsimple hp.symm).symm (first_track_perm hsimple hset hp).1
    (last_track_perm hsimple hset.last hp) (first_track_perm hsimple hset hp).2
    (first_session_perm hset.sessions hp) (last_session_perm hp) (leadout_perm hsimple hset.leadout hp)

/-- Where the picks settle, they are at the bounds. -/
theorem from_bounds {ft : AccuFulltoc} {x : AccuToc × TocInfo} (hsimple : FulltocSimple ft.entries)
    (hset : OrderSettled ft.entries) (hx : adsc_toc_from_fulltoc ft = .ok x) : FromBounds ft.entries x := by
  obtain ⟨hinfo, hl, hf, hlast⟩ := from_scan hx
  refine ⟨fun a ha => ?_, fun a ha => ?_, fun a ha => ?_⟩
  · have hne : ∀ e ∈ ft.entries, e.session ≠ 0 :=
      hset.sessions.resolve_left fun hzero => Points.session_ne ha.2.1 (hzero a ha.1)
    have hfirst : pick_first ft.entries = some a.pmin :=
      (hset.first.pick_eq (first_distinct hsimple) ha).trans (Points.byte ha.2.1)
    have htype : pick_type ft.entries = byte_value a.psec := hset.type.pick_eq (first_distinct hsimple) ha
    have hscan : (fulltoc_scan ft.entries).first_track = a.pmin := by
      rw [(first_track_run ft.entries hne).1, hfirst]
      rfl
    refine ⟨(hf ?_).trans hscan, ?_⟩
    · intro h0
      exact (first_track_run ft.entries hne).2 (by rw [hfirst, ← hscan, h0])
    · rw [hinfo, (disc_type_run ft.entries hne).1, htype]
      exact byte_value_getD _
  · have hpick : pick_last ft.entries = some a.pmin :=
      (hset.last.pick_eq (last_distinct hsimple) ha).trans (Points.byte ha.2.1)
    have hscan : (fulltoc_scan ft.entries).last_track = a.pmin := by
      rw [(last_track_run ft.entries).1, hpick]
      rfl
    refine (hlast ?_).trans hscan
    intro h0
    exact (last_track_run ft.entries).2 (by rw [hpick, ← hscan, h0])
  · have hpick : pick_leadout ft.entries = some a.addr.toNat :=
      hset.leadout.pick_eq (leadout_distinct hsimple) ha
    rw [leadout_run, hpick] at hl
    exact (Option.some.inj hl).symm

/-! ## Where the order shows -/

theorem next_first_zero (f : BitVec 8) : next_first f 0 = 0 := by
  apply BitVec.eq_of_toNat_eq
  rw [next_first_toNat]
  split
  · rfl
  · rename_i h
    simp at h

theorem next_first_ne_zero {f a : BitVec 8} (ha : a ≠ 0) : next_first f a ≠ 0 := by
  unfold next_first
  split
  · exact ha
  · rename_i h
    exact fun h0 => h (.inl h0)

/-- The last entry of the order decides whether the first session is zero. -/
theorem not_mixed (h : ∀ es', es'.Perm es → (fulltoc_scan es').first_session =
    (fulltoc_scan es).first_session) :
    (∀ e ∈ es, e.session = 0) ∨ ∀ e ∈ es, e.session ≠ 0 := by
  by_contra hmix
  rw [not_or, not_forall, not_forall] at hmix
  obtain ⟨⟨w, hw⟩, z, hz⟩ := hmix
  rw [Classical.not_imp] at hw
  rw [Classical.not_imp, not_not] at hz
  have hlast : ∀ e ∈ es, ∃ f, (fulltoc_scan es).first_session = next_first f e.session := by
    intro e he
    have hp : (es.erase e ++ [e]).Perm es :=
      List.perm_append_comm.trans (List.perm_cons_erase he).symm
    refine ⟨(fulltoc_scan (es.erase e)).first_session, ?_⟩
    rw [← h _ hp, scan_snoc, (fulltoc_point_spec _ e).first_session]
  obtain ⟨f, hf⟩ := hlast w hw.1
  obtain ⟨f', hf'⟩ := hlast z hz.1
  rw [hz.2, next_first_zero] at hf'
  exact next_first_ne_zero hw.2 (hf.symm.trans hf')

theorem byte_held {p q : Option (BitVec 8)} (hp : p ≠ some 0) (hq : q ≠ some 0) (h : p.getD 0 = q.getD 0) :
    p = q := by
  cases p with
  | none =>
    cases q with
    | none => rfl
    | some v => exact absurd (by rw [show v = 0 from h.symm]) hq
  | some u =>
    cases q with
    | none => exact absurd (by rw [show u = 0 from h]) hp
    | some v => exact congrArg some h

/-- An A0 or an A1 is taken in every order or in none. -/
theorem points_perm {K : Type} [LinearOrder K] {key : FulltocEntry → K} {point : BitVec 8}
    (hp : es'.Perm es) :
    Running.pick key (·.Points point) (fun e => byte_value e.pmin) es' = none ↔
      Running.pick key (·.Points point) (fun e => byte_value e.pmin) es = none := by
  have hnone : ∀ es : List FulltocEntry, Running.pick key (·.Points point) (fun e =>
    byte_value e.pmin) es = none ↔
      ∀ e ∈ es, ¬e.Points point := by
    intro es
    refine ⟨fun h e he hpt => ?_, Running.pick_none⟩
    refine Running.pick_ne_none (fun c _ hc => ?_) ⟨e, he, hpt⟩ h
    rw [Points.byte hc]
    exact Option.some_ne_none _
  rw [hnone, hnone]
  exact ⟨fun h e he => h e (hp.mem_iff.2 he), fun h e he => h e (hp.mem_iff.1 he)⟩

/-- Two orders that give one TOC leave the same picks. -/
theorem picks_of_same {ft : AccuFulltoc} {x : AccuToc × TocInfo} (hx : adsc_toc_from_fulltoc ft = .ok x)
    (hx' : adsc_toc_from_fulltoc { ft with entries := es' } = .ok x) (hp : es'.Perm ft.entries) :
    (fulltoc_scan es').first_session = (fulltoc_scan ft.entries).first_session ∧
    pick_leadout es' = pick_leadout ft.entries ∧ pick_last es' = pick_last ft.entries ∧
    ((∀ e ∈ ft.entries, e.session ≠ 0) →
      pick_first es' = pick_first ft.entries ∧ pick_type es' = pick_type ft.entries) := by
  obtain ⟨hinfo, hl, hf, hlast⟩ := from_scan hx
  obtain ⟨hinfo', hl', hf', hlast'⟩ := from_scan hx'
  have hsame := hinfo'.symm.trans hinfo
  rw [TocInfo.mk.injEq] at hsame
  refine ⟨hsame.1, ?_, ?_, fun hne => ⟨?_, ?_⟩⟩
  · rw [← leadout_run, ← leadout_run, hl]
    exact hl'
  · obtain ⟨h1, h2⟩ := last_track_run ft.entries
    obtain ⟨h1', h2'⟩ := last_track_run es'
    have hiff : (fulltoc_scan es').last_track = 0 ↔ (fulltoc_scan ft.entries).last_track = 0 := by
      rw [h1, h1', getD_zero h2, getD_zero h2']
      exact points_perm hp
    refine byte_held h2' h2 (h1'.symm.trans (Eq.trans ?_ h1))
    by_cases h0 : (fulltoc_scan ft.entries).last_track = 0
    · rw [h0, hiff.2 h0]
    · rw [← hlast h0]
      exact (hlast' fun h => h0 (hiff.1 h)).symm
  · have hne' : ∀ e ∈ es', e.session ≠ 0 := fun e he => hne e (hp.mem_iff.1 he)
    obtain ⟨h1, h2⟩ := first_track_run ft.entries hne
    obtain ⟨h1', h2'⟩ := first_track_run es' hne'
    have hiff : (fulltoc_scan es').first_track = 0 ↔ (fulltoc_scan ft.entries).first_track = 0 := by
      rw [h1, h1', getD_zero h2, getD_zero h2']
      exact points_perm hp
    refine byte_held h2' h2 (h1'.symm.trans (Eq.trans ?_ h1))
    by_cases h0 : (fulltoc_scan ft.entries).first_track = 0
    · rw [h0, hiff.2 h0]
    · rw [← hf h0]
      exact (hf' fun h => h0 (hiff.1 h)).symm
  · have hne' : ∀ e ∈ es', e.session ≠ 0 := fun e he => hne e (hp.mem_iff.1 he)
    obtain ⟨h1, h2⟩ := disc_type_run ft.entries hne
    obtain ⟨h1', h2'⟩ := disc_type_run es' hne'
    exact byte_held h2' h2 (h1'.symm.trans (hsame.2.2.trans h1))

/-- **The order of the lead-in's entries**: every order gives the same answer, that of the bounds, exactly
where there is no TOC to give or the picks settle. -/
theorem adsc_toc_from_fulltoc_order_iff (ft : AccuFulltoc) (hsimple : FulltocSimple ft.entries) :
    OrderRight ft ↔ (Placeable ft.entries → OrderSettled ft.entries) := by
  constructor
  · intro hright hplace
    obtain ⟨x, hx⟩ := (from_fulltoc_ok_iff ft).2 hplace
    have hsame := fun es' (hp : es'.Perm ft.entries) =>
      picks_of_same hx ((hright.1 es' hp).trans hx) hp
    have hsessions := not_mixed fun es' hp => (hsame es' hp).1
    refine ⟨hsessions, ?_, ?_, ?_, ?_⟩
    · rcases hsessions with hzero | hne
      · exact fun a ha => absurd (hzero a ha.1) (Points.session_ne ha.2.1)
      · exact (Running.stable_iff (first_distinct hsimple)).1 fun ys hp => ((hsame ys hp).2.2.2 hne).1
    · rcases hsessions with hzero | hne
      · exact fun a ha => absurd (hzero a ha.1) (Points.session_ne ha.2.1)
      · exact (Running.stable_iff (first_distinct hsimple)).1 fun ys hp => ((hsame ys hp).2.2.2 hne).2
    · exact (Running.stable_iff (last_distinct hsimple)).1 fun ys hp => (hsame ys hp).2.2.1
    · exact (Running.stable_iff (leadout_distinct hsimple)).1 fun ys hp => (hsame ys hp).2.1
  · intro h
    by_cases hplace : Placeable ft.entries
    · have hset := h hplace
      exact ⟨fun es' hp => from_fulltoc_congr (scan_perm hsimple hset hp), fun x hx =>
        from_bounds hsimple hset hx⟩
    · refine ⟨fun es' hp => ?_, fun x hx => absurd ((from_fulltoc_ok_iff ft).1 ⟨x, hx⟩) hplace⟩
      rw [from_fulltoc_error hplace]
      exact from_fulltoc_error fun h' => hplace (h'.perm hp.symm)

end

/-- The lead-in of a disc of two sessions: the second one is CD-ROM XA, the first one plain. -/
def two_sessions : List FulltocEntry :=
  let entry (session point pmin psec : BitVec 8) : FulltocEntry :=
    ⟨session, 0x10, point, 0, 0, 0, pmin, psec, 0⟩
  [entry 1 0xA0 1 0x00, entry 1 0xA1 1 0, entry 1 0xA2 20 0, entry 1 1 0 2,
    entry 2 0xA0 2 0x20, entry 2 0xA1 2 0, entry 2 0xA2 60 0, entry 2 2 22 32]

/-- A disc of one session. -/
theorem adsc_toc_from_fulltoc_order_one : OrderRight ⟨1, 1, two_sessions.take 4⟩ := by
  have hkey : ∀ e ∈ two_sessions.take 4, e.session = 1 := by decide
  have hsame : ∀ a ∈ two_sessions.take 4, ∀ e ∈ two_sessions.take 4, a.session.toNat = e.session.toNat :=
    fun a ha e he => by rw [hkey a ha, hkey e he]
  have hsimple : FulltocSimple (two_sessions.take 4) := by
    unfold FulltocSimple FulltocEntry.IsTrack
    decide
  have hbyte : ∀ (a : FulltocEntry) {point : BitVec 8}, a.Points point → byte_value a.pmin ≠ none := by
    intro a point ha
    rw [Points.byte ha]
    exact Option.some_ne_none _
  refine (adsc_toc_from_fulltoc_order_iff ⟨1, 1, two_sessions.take 4⟩ hsimple).2 fun _ =>
    ⟨.inr (by decide), ?_, ?_, ?_, ?_⟩
  · exact fun a ha => ⟨.inl (hbyte a ha.2.1), .inl fun e he => (hsame a ha.1 e he).le⟩
  · exact fun a ha => ⟨.inr (by decide), .inl fun e he => (hsame a ha.1 e he).le⟩
  · exact fun a ha => ⟨.inl (hbyte a ha.2.1), .inl fun e he => (hsame a ha.1 e he).ge⟩
  · exact fun a ha => ⟨.inl (Option.some_ne_none _), .inl fun e he => (hsame a ha.1 e he).ge⟩

/-- The disc type is that of the second session where its A0 follows that of the first, which is zero, and
that of the first where it comes before. -/
theorem disc_type_of_order :
    ¬∀ ft : AccuFulltoc, FulltocSimple ft.entries → OrderRight ft := by
  intro h
  have hright := (h ⟨1, 2, two_sessions⟩ (by unfold FulltocSimple FulltocEntry.IsTrack; decide)).1
    (two_sessions.drop 4 ++ two_sessions.take 4) (by decide)
  have hdiff : (adsc_toc_from_fulltoc ⟨1, 2, two_sessions.drop 4 ++ two_sessions.take 4⟩).toOption.map
    (·.2.disc_type) ≠
      (adsc_toc_from_fulltoc ⟨1, 2, two_sessions⟩).toOption.map (·.2.disc_type) := by decide +kernel
  exact hdiff (congrArg (fun r => r.toOption.map (·.2.disc_type)) hright)

end Accudisc
