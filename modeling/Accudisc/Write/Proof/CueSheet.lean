import Accudisc.Toc.Proof.Extents
import Accudisc.Write.CueSheet

/-!
# The cue sheet tells the layout

Each entry goes to its own 8 bytes and the first that does not fit ends the build. `cue_read_track` is the
step of the round trip: the entries of a track are read back as that track.
-/

namespace Accudisc

variable {cap : Nat} {es : List (List (BitVec 8))} {e : List (BitVec 8)} {s : CueOut}

/-! ## The buffer -/

/-- `s'` is `s` with the entries `es` behind what it held. -/
structure CueOut.Wrote (s s' : CueOut) (es : List (List (BitVec 8))) : Prop where
  n : s'.n = s.n + es.length
  kept : ∀ a, a < s.n * 8 ∨ s'.n * 8 ≤ a → s'.out a = s.out a
  bytes : ∀ k (h : k < es.length), ∀ i < 8, s'.out ((s.n + k) * 8 + i) = es[k].getD i 0

/-- What the build of `es` leaves: they are in the buffer where they fit, and else nothing is
past its end. -/
def CueEmitted (cap : Nat) (s : CueOut) (es : List (List (BitVec 8))) (r : Except Int Unit × CueOut) :
    Prop :=
  ((s.n + es.length) * 8 ≤ cap → r.1 = .ok () ∧ s.Wrote r.2 es) ∧
    (¬(s.n + es.length) * 8 ≤ cap →
      r.1 = .error ACCUDISC_ERR_SHORT ∧ ∀ a, cap ≤ a → r.2.out a = s.out a)

theorem cue_entry_run (hn : (s.n + 1) * 8 < 2 ^ 32) : Exit.out (cue_entry cap e) s =
    if (s.n + 1) * 8 ≤ cap then
      (.ok (), ⟨memcpy s.out (s.n * 8) (fun i => e.getD i 0) 0 8, s.n + 1⟩)
    else (.error ACCUDISC_ERR_SHORT, s) := by
  unfold cue_entry
  rw [Exit.out_bind, Exit.out_read]
  have hu : u32 ((s.n + 1) * 8) = (s.n + 1) * 8 := Nat.mod_eq_of_lt hn
  simp only [hu]
  by_cases h : (s.n + 1) * 8 ≤ cap
  · rw [if_neg (Nat.not_lt.2 h), if_pos h, Exit.out_update]
  · rw [if_pos (Nat.lt_of_not_le h), if_neg h, Exit.out_leave]

/-- **The entries** go into the buffer one after the other. -/
theorem cue_entries_run (cap : Nat) (es : List (List (BitVec 8))) {s : CueOut}
    (hn : (s.n + es.length) * 8 < 2 ^ 32) (h0 : s.n * 8 ≤ cap) :
    CueEmitted cap s es (Exit.out (cue_entries cap es) s) := by
  induction es generalizing s with
  | nil =>
    exact ⟨fun _ => ⟨rfl, rfl, fun _ _ => rfl, fun k hk => absurd hk (Nat.not_lt_zero k)⟩,
      fun h => absurd h0 h⟩
  | cons e es ih =>
    rw [List.length_cons] at hn
    unfold cue_entries
    rw [Exit.out_bind, cue_entry_run (by omega)]
    by_cases hfit : (s.n + 1) * 8 ≤ cap
    · simp only [if_pos hfit]
      generalize hs' : (⟨memcpy s.out (s.n * 8) (fun i => e.getD i 0) 0 8, s.n + 1⟩ : CueOut) = s'
      have hn' : s'.n = s.n + 1 := by rw [← hs']
      have hout : s'.out = memcpy s.out (s.n * 8) (fun i => e.getD i 0) 0 8 := by rw [← hs']
      obtain ⟨hok, hshort⟩ := ih (s := s') (by rw [hn']; omega) (by rw [hn']; omega)
      have hkept : ∀ a, a < s.n * 8 ∨ s'.n * 8 ≤ a → s'.out a = s.out a := by
        intro a ha
        rw [hout]
        exact memcpy_out (by omega)
      refine ⟨fun h => ?_, fun h => ?_⟩
      · rw [List.length_cons] at h
        obtain ⟨hr, hw⟩ := hok (by rw [hn']; omega)
        refine ⟨hr, by rw [hw.n, hn', List.length_cons]; omega, fun a ha => ?_, fun k hk i hi => ?_⟩
        · rw [hw.n] at ha
          rw [hw.kept a (by rw [hw.n]; omega), hkept a (by omega)]
        · cases k with
          | zero =>
            rw [hw.kept _ (by omega), hout, memcpy_in (by omega) (by omega)]
            simp
          | succ k =>
            have hk' : k < es.length := Nat.lt_of_succ_lt_succ hk
            rw [show (s.n + (k + 1)) * 8 + i = (s'.n + k) * 8 + i by rw [hn']; omega, hw.bytes k hk' i hi]
            rfl
      · rw [List.length_cons] at h
        obtain ⟨hr, hkeep⟩ := hshort (by rw [hn']; omega)
        refine ⟨hr, fun a ha => ?_⟩
        rw [hkeep a ha, hkept a (by omega)]
    · simp only [if_neg hfit]
      refine ⟨fun h => absurd h ?_, fun _ => ⟨rfl, fun _ _ => rfl⟩⟩
      rw [List.length_cons]
      omega

theorem cue_entries_append (es es' : List (List (BitVec 8))) :
    cue_entries cap (es ++ es') = cue_entries cap es >>= fun _ => cue_entries cap es' := by
  induction es with
  | nil => exact (pure_bind _ _).symm
  | cons e es ih =>
    rw [List.cons_append]
    simp only [cue_entries, ih, bind_assoc]

theorem cue_tracks_eq (i : Nat) (ts : List WriteTrack) :
    cue_tracks cap i ts = cue_entries cap ((ts.zipIdx i).flatMap fun ti => cue_track ti.2 ti.1) := by
  induction ts generalizing i with
  | nil => rfl
  | cons t ts ih =>
    unfold cue_tracks
    rw [List.zipIdx_cons, List.flatMap_cons, cue_entries_append, ih]

/-- The cue sheet of a layout. -/
def cue_sheet (toc : WriteToc) (di : Option DiscInfo) : List (List (BitVec 8)) :=
  (if toc.mcn = [] then [] else cue_text [0x02] toc.mcn 7) ++ [cue_leadin toc di] ++
    toc.track.zipIdx.flatMap (fun ti => cue_track ti.2 ti.1) ++ [cue_leadout toc]

theorem adsc_cuesheet_build_cap_eq {toc : WriteToc} {di : Option DiscInfo} (h : toc.track ≠ [] ∧
    toc.track.length ≤ 99) :
    adsc_cuesheet_build_cap cap toc di =
      cue_entries cap (cue_sheet toc di) >>= fun _ => Exit.read (·.n) >>= fun n => pure (u32 (n * 8)) := by
  unfold adsc_cuesheet_build_cap cue_sheet
  rw [if_neg (not_or.2 ⟨h.1, Nat.not_lt.2 h.2⟩), cue_tracks_eq, cue_entries_append, cue_entries_append,
    cue_entries_append]
  by_cases hm : toc.mcn = []
  · simp only [if_pos hm, bind_assoc]
    rfl
  · simp only [if_neg hm, bind_assoc]

/-- The entries are read back from where they were written. -/
theorem cue_payload_wrote {s s' : CueOut} (h : s.Wrote s' es) (h0 : s.n = 0)
    (hlen : ∀ e ∈ es, e.length = 8) :
    cue_payload s'.out (8 * es.length) = es := by
  unfold cue_payload
  rw [Nat.mul_div_cancel_left _ (by decide)]
  apply List.ext_getElem
  · simp
  · intro k hk hk'
    rw [List.getElem_map, List.getElem_range]
    have he := hlen _ (List.getElem_mem hk')
    apply List.ext_getElem
    · simp [he]
    · intro i hi hi'
      rw [List.getElem_map, List.getElem_range]
      have := h.bytes k hk' i (he ▸ hi')
      rw [h0, Nat.zero_add, Nat.mul_comm] at this
      rw [this]
      simp [hi']

/-! ## The length of the cue sheet -/

theorem cue_track_length (i : Nat) (t : WriteTrack) : (cue_track i t).length = t.cue_count i := by
  unfold cue_track WriteTrack.cue_count
  simp only [List.length_append, List.length_singleton]
  congr 2
  · split <;> rfl
  · by_cases hi : i = 0
    · simp [hi]
    · by_cases hp : 0 < t.pregap
      · simp [hi, hp]
      · simp [hi, hp]

theorem cue_sheet_length (toc : WriteToc) (di : Option DiscInfo) :
    (cue_sheet toc di).length = toc.cue_count := by
  unfold cue_sheet WriteToc.cue_count
  simp only [List.length_append, List.length_singleton, List.length_flatMap, cue_track_length]
  congr 3
  split <;> rfl

theorem cue_count_le (i : Nat) (t : WriteTrack) : t.cue_count i ≤ 4 := by
  unfold WriteTrack.cue_count
  split <;> split <;> omega

theorem tracks_count_le (ts : List WriteTrack) (i : Nat) :
    ((ts.zipIdx i).map fun ti => ti.1.cue_count ti.2).sum ≤ 4 * ts.length := by
  induction ts generalizing i with
  | nil => exact Nat.le_refl _
  | cons t ts ih =>
    rw [List.zipIdx_cons, List.map_cons, List.sum_cons, List.length_cons]
    have h1 := cue_count_le i t
    have h2 := ih (i + 1)
    show t.cue_count i + _ ≤ _
    omega

/-- The cue sheet of a full disc fits `ADSC_CUE_MAX_ENTRIES`. -/
theorem toc_count_le {toc : WriteToc} (h : toc.track.length ≤ 99) :
    toc.cue_count ≤ ADSC_CUE_MAX_ENTRIES := by
  unfold WriteToc.cue_count ADSC_CUE_MAX_ENTRIES
  have := tracks_count_le toc.track 0
  split <;> omega

theorem cue_text_entry {hd text : List (BitVec 8)} {k : Nat} (he : e ∈ cue_text hd text k) :
    e.length = 8 := by
  unfold cue_text at he
  rcases List.mem_cons.1 he with rfl | he
  · simp
    omega
  · rw [List.mem_singleton.1 he]
    simp
    omega

theorem cue_track_entry {i : Nat} {t : WriteTrack} (he : e ∈ cue_track i t) : e.length = 8 := by
  unfold cue_track at he
  simp only [List.mem_append, List.mem_singleton] at he
  rcases he with (he | he) | he
  · split at he
    · cases he
    · exact cue_text_entry he
  · split at he
    · rw [List.mem_singleton.1 he]
      rfl
    split at he
    · rw [List.mem_singleton.1 he]
      rfl
    · cases he
  · rw [he]
    rfl

theorem cue_sheet_entry {toc : WriteToc} {di : Option DiscInfo} (he : e ∈ cue_sheet toc di) :
    e.length = 8 := by
  unfold cue_sheet at he
  simp only [List.mem_append, List.mem_singleton, List.mem_flatMap] at he
  rcases he with ((he | he) | ⟨ti, -, he⟩) | he
  · split at he
    · cases he
    · exact cue_text_entry he
  · rw [he]
    unfold cue_leadin
    split
    · split <;> rfl
    · rfl
  · exact cue_track_entry he
  · rw [he]
    rfl

/-- **The build**: short exactly when the buffer does not hold the cue sheet, and nothing past its end. -/
theorem cue_build_run {toc : WriteToc} (cap : Nat) (di : Option DiscInfo) (m : Mem)
    (h : toc.track ≠ [] ∧ toc.track.length ≤ 99) :
    (∀ a, cap ≤ a → (cue_build cap toc di m).2.out a = m a) ∧
    (8 * toc.cue_count ≤ cap → (cue_build cap toc di m).1 = .ok (8 * toc.cue_count) ∧
      cue_payload (cue_build cap toc di m).2.out (8 * toc.cue_count) = cue_sheet toc di) ∧
    (cap < 8 * toc.cue_count → (cue_build cap toc di m).1 = .error ACCUDISC_ERR_SHORT) := by
  have hcount := toc_count_le h.2
  have hlen := cue_sheet_length toc di
  unfold ADSC_CUE_MAX_ENTRIES at hcount
  obtain ⟨hok, hshort⟩ := cue_entries_run cap (cue_sheet toc di) (s := ⟨m, 0⟩)
    (by rw [hlen]; show (0 + _) * 8 < _; omega) (by show 0 * 8 ≤ cap; omega)
  rw [hlen] at hok hshort
  have hbuild : cue_build cap toc di m = match Exit.out (cue_entries cap (cue_sheet toc di)) ⟨m, 0⟩ with
      | (.ok _, s') => (.ok (u32 (s'.n * 8)), s')
      | (.error e, s') => (.error e, s') := by
    unfold cue_build
    rw [adsc_cuesheet_build_cap_eq h, Exit.out_bind]
    rcases Exit.out (cue_entries cap (cue_sheet toc di)) ⟨m, 0⟩ with ⟨r, s'⟩
    cases r <;> rfl
  rcases hout : Exit.out (cue_entries cap (cue_sheet toc di)) ⟨m, 0⟩ with ⟨r, s'⟩
  rw [hout] at hok hshort hbuild
  by_cases hfit : (0 + toc.cue_count) * 8 ≤ cap
  · obtain ⟨hr, hw⟩ := hok hfit
    simp only at hr hw
    subst hr
    have hn : s'.n = toc.cue_count := by
      rw [hw.n, hlen]
      exact Nat.zero_add _
    have hpay := cue_payload_wrote hw rfl fun e he => cue_sheet_entry he
    rw [hlen] at hpay
    rw [hbuild]
    refine ⟨fun a ha => hw.kept a (.inr ?_), fun _ => ⟨?_, hpay⟩, fun hlt => absurd hlt (by omega)⟩
    · rw [hn]
      omega
    · show Except.ok (u32 (s'.n * 8)) = _
      rw [hn, show u32 (toc.cue_count * 8) = toc.cue_count *
        8 from Nat.mod_eq_of_lt (by omega), Nat.mul_comm]
  · obtain ⟨hr, hkept⟩ := hshort hfit
    simp only at hr hkept
    subst hr
    rw [hbuild]
    exact ⟨hkept, fun hle => absurd hle (by omega), fun _ => rfl⟩

/-! ## The texts -/

/-- The bytes of an entry behind its head. -/
theorem cue_field {hd : List (BitVec 8)} {k : Nat} (hk : hd.length + k = 8) (x : List (BitVec 8)) :
    ((hd ++ x ++ List.replicate 8 0).take 8).drop hd.length = x.take k ++
      List.replicate (k - x.length) 0 := by
  rw [List.drop_take, List.append_assoc, List.drop_left, List.take_append, List.take_replicate,
    show 8 - hd.length = k by omega, Nat.min_eq_left (by omega)]

/-- The two entries of a text hold it, with NULs behind it. -/
theorem cue_text_read (hd text : List (BitVec 8)) {k : Nat} (hk : hd.length + k = 8)
    (ht : text.length ≤ 2 * k) :
    ∃ j, ((hd ++ text.take k ++ List.replicate 8 0).take 8).drop hd.length ++
      ((hd ++ text.drop k ++ List.replicate 8 0).take 8).drop hd.length = text ++ List.replicate j 0 := by
  rw [cue_field hk, cue_field hk, List.take_take, Nat.min_self,
    List.take_of_length_le (l := text.drop k) (by rw [List.length_drop]; omega)]
  by_cases hlen : text.length ≤ k
  · refine ⟨k - text.length + k, ?_⟩
    rw [List.take_of_length_le hlen, List.drop_of_length_le hlen, List.nil_append,
      List.length_nil, Nat.sub_zero,
      List.append_assoc, List.replicate_append_replicate]
  · refine ⟨k - (text.drop k).length, ?_⟩
    rw [List.length_take, Nat.min_eq_left (by omega), Nat.sub_self, List.replicate_zero, List.append_nil,
      ← List.append_assoc, List.take_append_drop]

theorem c_string_text {text : List (BitVec 8)} (h : 0 ∉ text) (j : Nat) :
    c_string (text ++ List.replicate j 0) = text := by
  unfold c_string
  rw [List.takeWhile_append_of_pos (fun a ha => by
    simp only [decide_eq_true_eq, ne_eq]
    intro h0
    exact h (h0 ▸ ha))]
  cases j with
  | zero => simp
  | succ j => simp [List.replicate_succ]

/-! ## The positions -/

/-- An entry of ADR 1. -/
def cue_point (ctl number index : BitVec 8) (frames : Int) : List (BitVec 8) :=
  [ctl ||| 0x01, number, index, 0, 0] ++ put_msf frames

def WriteTrack.ctl (t : WriteTrack) : BitVec 8 :=
  (if t.copy then 0x20 else 0) ||| (if t.preemphasis then 0x10 else 0)

theorem cue_track_eq (i : Nat) (t : WriteTrack) : cue_track i t =
    (if t.isrc = [] then [] else cue_text [t.ctl ||| 0x03, BitVec.ofNat 8 (i + 1)] t.isrc 6) ++
    (if i = 0 then [cue_point t.ctl (BitVec.ofNat 8 (i + 1)) 0 0]
      else if 0 < t.pregap then
        [cue_point t.ctl (BitVec.ofNat 8 (i + 1)) 0 (int32 (sub32 t.index1_lba t.pregap) + 150)] else []) ++
    [cue_point t.ctl (BitVec.ofNat 8 (i + 1)) 1 (int32 t.index1_lba + 150)] := rfl

theorem ctl_point (t : WriteTrack) : (t.ctl ||| 0x01) &&& 0x0f = 1 ∧ (t.ctl ||| 0x03) &&& 0x0f = 3 ∧
    decide ((t.ctl ||| 0x01) &&& 0x20 ≠ 0) = t.copy ∧
      decide ((t.ctl ||| 0x01) &&& 0x10 ≠ 0) = t.preemphasis := by
  unfold WriteTrack.ctl
  cases t.copy <;> cases t.preemphasis <;> decide

theorem cue_frames_put {f : Nat} (hf : f < 256 * 4500) (ctl number index : BitVec 8) :
    cue_frames (cue_point ctl number index f) = f := by
  have h1 : ¬(f : Int) < 0 := by omega
  have hmsf : put_msf f = [BitVec.ofNat 8 (f / 4500), BitVec.ofNat 8 (f / 75 % 60),
    BitVec.ofNat 8 (f % 75)] := by
    have hclamp : (if (f : Int) < 0 then 0 else (f : Int)) = f := if_neg h1
    unfold put_msf
    rw [hclamp]
    simp only []
    rw [← BitVec.ofInt_natCast, ← BitVec.ofInt_natCast, ← BitVec.ofInt_natCast]
    push_cast
    rfl
  unfold cue_frames cue_point
  rw [hmsf]
  simp only [List.cons_append, List.nil_append, List.getD_cons_succ, List.getD_cons_zero,
    BitVec.toNat_ofNat]
  omega

theorem int32_of_lt {n : Nat} (h : n < 2 ^ 31) : int32 n = n := by
  unfold int32
  rw [BitVec.toInt_ofNat', Int.bmod_eq_of_le (by omega) (by omega)]

theorem TracksInOrder.le {hi lo : Nat} {ts : List WriteTrack} (h : TracksInOrder hi lo ts) : lo ≤ hi := by
  induction ts generalizing lo with
  | nil => exact h
  | cons t ts ih =>
    have h1 := h.1
    have h2 := ih h.2
    omega

theorem TracksInOrder.mono {hi lo lo' : Nat} {ts : List WriteTrack} (h : TracksInOrder hi lo ts)
    (hle : lo' ≤ lo) :
    TracksInOrder hi lo' ts := by
  cases ts with
  | nil => exact Nat.le_trans hle h
  | cons t ts => exact ⟨Nat.le_trans (Nat.add_le_add_right hle _) h.1, h.2⟩

/-! ## Reading the entries back -/

variable {c : CueScan} {t : WriteTrack} {i : Nat}

/-- The entries of a text of the catalogue number. -/
theorem cue_read_mcn {mcn : List (BitVec 8)} (hm : Text 13 mcn) (c : CueScan) :
    ∃ j, (if mcn = [] then [] else cue_text [0x02] mcn 7).foldl cue_read c =
      { c with mcn := c.mcn ++ (mcn ++ List.replicate j 0) } := by
  by_cases h0 : mcn = []
  · refine ⟨0, ?_⟩
    rw [if_pos h0, h0]
    simp
  · obtain ⟨j, hj⟩ := cue_text_read [0x02] mcn (k := 7) rfl (Nat.le_trans hm.1 (by decide))
    refine ⟨j, ?_⟩
    have hread : ∀ (c : CueScan) (x : List (BitVec 8)),
      cue_read c (([0x02] ++ x ++ List.replicate 8 0).take 8) =
        { c with mcn := c.mcn ++ (([0x02] ++ x ++ List.replicate 8 0).take 8).drop 1 } := by
      intro c x
      have hadr : cue_adr (([0x02] ++ x ++ List.replicate 8 0).take 8) = 2 := by
        show (0x02 : BitVec 8) &&& 0x0f = 2
        decide
      unfold cue_read
      rw [hadr, if_pos rfl]
    rw [if_neg h0, ← hj, ← List.append_assoc]
    unfold cue_text
    rw [List.foldl_cons, List.foldl_cons, List.foldl_nil, hread, hread]
    rfl

theorem cue_read_isrc {isrc : List (BitVec 8)} (hi : Text 12 isrc) (number : BitVec 8) (c : CueScan) :
    ∃ j, (if isrc = [] then [] else cue_text [t.ctl ||| 0x03, number] isrc 6).foldl cue_read c =
      { c with isrc := c.isrc ++ (isrc ++ List.replicate j 0) } := by
  by_cases h0 : isrc = []
  · refine ⟨0, ?_⟩
    rw [if_pos h0, h0]
    simp
  · obtain ⟨j, hj⟩ := cue_text_read [t.ctl ||| 0x03, number] isrc (k := 6) rfl
      (Nat.le_trans hi.1 (by decide))
    refine ⟨j, ?_⟩
    have hread : ∀ (c : CueScan) (x : List (BitVec 8)),
        cue_read c (([t.ctl ||| 0x03, number] ++ x ++ List.replicate 8 0).take 8) =
          { c with isrc := c.isrc ++ (([t.ctl ||| 0x03, number] ++ x ++ List.replicate 8 0).take 8).drop 2 } := by
      intro c x
      have hadr : cue_adr (([t.ctl ||| 0x03, number] ++ x ++ List.replicate 8 0).take 8) = 3 :=
        (ctl_point t).2.1
      unfold cue_read
      rw [hadr, if_neg (by decide), if_pos rfl]
    rw [if_neg h0, ← hj, ← List.append_assoc]
    unfold cue_text
    rw [List.foldl_cons, List.foldl_cons, List.foldl_nil, hread, hread]
    rfl

/-- The numbers of the tracks are none of the lead-in and the lead-out. -/
theorem track_number (hi : i < 99) : BitVec.ofNat 8 (i + 1) ≠ 0 ∧ BitVec.ofNat 8 (i + 1) ≠ 0xaa ∧
    (BitVec.ofNat 8 (i + 1) = 1 ↔ i = 0) := by
  have hn : (BitVec.ofNat 8 (i + 1)).toNat = i + 1 := by
    rw [BitVec.toNat_ofNat]
    omega
  refine ⟨fun h => ?_, fun h => ?_, fun h => ?_, fun h => by rw [h]; rfl⟩
  · rw [h] at hn
    simp at hn
  · rw [h] at hn
    simp at hn
    omega
  · rw [h] at hn
    simp at hn
    omega

theorem cue_read_index0 (hi : i < 99) {f : Nat} (hf : f < 256 * 4500) (c : CueScan) :
    cue_read c (cue_point t.ctl (BitVec.ofNat 8 (i + 1)) 0 f) =
      { c with pregap_start := if i = 0 then none else some ((f : Int) - 150) } := by
  obtain ⟨h1, h2, h3⟩ := track_number hi
  have hadr : cue_adr (cue_point t.ctl (BitVec.ofNat 8 (i + 1)) 0 f) = 1 := (ctl_point t).1
  have hnum : cue_number (cue_point t.ctl (BitVec.ofNat 8 (i + 1)) 0 f) = BitVec.ofNat 8 (i + 1) := rfl
  have hidx : (cue_point t.ctl (BitVec.ofNat 8 (i + 1)) 0 f).getD 2 0 = 0 := rfl
  unfold cue_read
  rw [hadr, hnum, hidx, cue_frames_put hf, if_neg (by decide), if_neg (by decide), if_neg h1,
    if_neg h2, if_pos rfl]
  simp only [h3]

theorem cue_read_index1 (hi : i < 99) {f : Nat} (hf : f < 256 * 4500) (c : CueScan) :
    cue_read c (cue_point t.ctl (BitVec.ofNat 8 (i + 1)) 1 f) =
      { c with
        isrc := []
        pregap_start := none
        tracks := c.tracks ++
          [⟨BitVec.ofNat 8 (i + 1), c_string c.isrc, t.copy, t.preemphasis, c.pregap_start,
          (f : Int) - 150⟩] } := by
  obtain ⟨h1, h2, -⟩ := track_number hi
  obtain ⟨hadr, -, hcopy, hpre⟩ := ctl_point t
  have hadr : cue_adr (cue_point t.ctl (BitVec.ofNat 8 (i + 1)) 1 f) = 1 := hadr
  have hnum : cue_number (cue_point t.ctl (BitVec.ofNat 8 (i + 1)) 1 f) = BitVec.ofNat 8 (i + 1) := rfl
  have hidx : (cue_point t.ctl (BitVec.ofNat 8 (i + 1)) 1 f).getD 2 0 = 1 := rfl
  have hctl : (cue_point t.ctl (BitVec.ofNat 8 (i + 1)) 1 f).getD 0 0 = t.ctl ||| 0x01 := rfl
  unfold cue_read
  rw [hadr, hnum, hidx, cue_frames_put hf, hctl, hcopy, hpre, if_neg (by decide),
    if_neg (by decide), if_neg h1,
    if_neg h2, if_neg (by decide)]

/-- **The entries of a track** are read back as that track. -/
theorem cue_read_track (hi : i < 99) (ht : Text 12 t.isrc) (hlba : t.index1_lba + 150 < 256 * 4500)
    (hpre : t.pregap ≤ t.index1_lba) (hc : c.isrc = [] ∧ c.pregap_start = none) :
    (cue_track i t).foldl cue_read c = { c with tracks := c.tracks ++ [t.cue i] } := by
  obtain ⟨j, hj⟩ := cue_read_isrc (t := t) ht (BitVec.ofNat 8 (i + 1)) c
  have hindex1 : int32 t.index1_lba + 150 = ((t.index1_lba + 150 : Nat) : Int) := by
    rw [int32_of_lt (by omega)]
    rfl
  have hstart : int32 (sub32 t.index1_lba t.pregap) +
    150 = ((t.index1_lba - t.pregap + 150 : Nat) : Int) := by
    rw [sub32_of_le hpre (by omega), int32_of_lt (by omega)]
    rfl
  rw [cue_track_eq, List.foldl_append, List.foldl_append, hj, hc.1, List.nil_append, hindex1, hstart]
  have hgap : ∀ c : CueScan, c.pregap_start = none →
      (if i = 0 then [cue_point t.ctl (BitVec.ofNat 8 (i + 1)) 0 0]
        else if 0 < t.pregap then
          [cue_point t.ctl (BitVec.ofNat 8 (i + 1)) 0 ((t.index1_lba - t.pregap + 150 : Nat) : Int)]
            else []).foldl
        cue_read c =
      { c with pregap_start := (t.cue i).pregap_start } := by
    intro c hc
    unfold WriteTrack.cue
    by_cases h0 : i = 0
    · rw [if_pos h0, List.foldl_cons, List.foldl_nil]
      have := cue_read_index0 (t := t) hi (f := 0) (by decide) c
      rw [if_pos h0] at this
      simp only [h0, ne_eq, not_true_eq_false, false_and, if_false] at this ⊢
      exact this
    · rw [if_neg h0]
      by_cases hp : 0 < t.pregap
      · rw [if_pos hp, List.foldl_cons, List.foldl_nil, cue_read_index0 hi (by omega), if_neg h0]
        simp only [if_pos (show i ≠ 0 ∧ 0 < t.pregap from ⟨h0, hp⟩), CueScan.mk.injEq,
          Option.some.injEq, true_and,
          and_true]
        omega
      · rw [if_neg hp, List.foldl_nil]
        simp only [if_neg (show ¬(i ≠ 0 ∧ 0 < t.pregap) from fun h => hp h.2)]
        rw [← hc]
  rw [hgap ⟨c.mcn, t.isrc ++ List.replicate j 0, c.pregap_start, c.tracks, c.leadout_lba⟩ hc.2,
    List.foldl_cons, List.foldl_nil, cue_read_index1 hi (by omega), c_string_text ht.2, ← hc.1, ← hc.2]
  unfold WriteTrack.cue
  simp

/-- The entries of the tracks from the `i`-th on are read back as those tracks. -/
theorem cue_read_tracks {hi lo : Nat} {ts : List WriteTrack} (hhi : hi + 150 < 256 * 4500)
    (hord : TracksInOrder hi lo ts)
    (hn : i + ts.length ≤ 99) (htext : ∀ t ∈ ts, Text 12 t.isrc) (hc : c.isrc = [] ∧
      c.pregap_start = none) :
    ((ts.zipIdx i).flatMap fun ti => cue_track ti.2 ti.1).foldl cue_read c =
      { c with tracks := c.tracks ++ (ts.zipIdx i).map fun ti => ti.1.cue ti.2 } := by
  induction ts generalizing i lo c with
  | nil => simp
  | cons t ts ih =>
    rw [List.length_cons] at hn
    have hle := hord.2.le
    rw [List.zipIdx_cons, List.flatMap_cons, List.foldl_append,
      cue_read_track (by omega) (htext t (by simp)) (by omega) (by have := hord.1; omega) hc]
    refine (ih (i := i + 1) (c := { c with tracks := c.tracks ++ [t.cue i] }) hord.2 (by omega) (fun u hu =>
      htext u (by simp [hu]))
      hc).trans ?_
    simp

theorem cue_read_leadin {toc : WriteToc} (di : Option DiscInfo) (c : CueScan) :
    cue_read c (cue_leadin toc di) = c := by
  have hlead : ∀ e : List (BitVec 8), cue_adr e = 1 → cue_number e = 0 → cue_read c e = c := by
    intro e hadr hnum
    unfold cue_read
    rw [hadr, hnum, if_neg (by decide), if_neg (by decide), if_pos rfl]
  unfold cue_leadin
  split
  · split
    · exact hlead _ (by show (0x01 : BitVec 8) &&& 0x0f = 1; decide) rfl
    · exact hlead _ (by show (0x01 : BitVec 8) &&& 0x0f = 1; decide) rfl
  · exact hlead _ (by show (0x01 : BitVec 8) &&& 0x0f = 1; decide) rfl

/-- **The round trip**: the cue sheet of a layout whose tracks are in order is read back as that layout. -/
theorem cue_decode_sheet {toc : WriteToc} (hv : toc.Valid)
    (hord : TracksInOrder toc.leadout_lba 0 toc.track)
    (di : Option DiscInfo) : cue_decode (cue_sheet toc di) = toc.cue := by
  obtain ⟨j, hj⟩ := cue_read_mcn hv.mcn {}
  have hlba := hv.leadout
  have hout : int32 toc.leadout_lba + 150 = ((toc.leadout_lba + 150 : Nat) : Int) := by
    rw [int32_of_lt (by omega)]
    rfl
  have hlead : ∀ c : CueScan, cue_read c (cue_leadout toc) = { c with leadout_lba := toc.leadout_lba } := by
    intro c
    have hadr : cue_adr (cue_leadout toc) = 1 := by
      show (0x01 : BitVec 8) &&& 0x0f = 1
      decide
    have hnum : cue_number (cue_leadout toc) = 0xaa := rfl
    have hframes : cue_frames (cue_leadout toc) = toc.leadout_lba + 150 := by
      have := cue_frames_put (f := toc.leadout_lba + 150) hlba 0 0 0
      rw [← this, ← hout]
      rfl
    unfold cue_read
    rw [hadr, hnum, hframes, if_neg (by decide), if_neg (by decide), if_neg (by decide), if_pos rfl]
    simp
  unfold cue_decode cue_sheet
  rw [List.foldl_append, List.foldl_append, List.foldl_append, hj, List.foldl_cons, List.foldl_nil,
    List.foldl_cons,
    List.foldl_nil, cue_read_leadin, cue_read_tracks hlba hord (by have := hv.tracks.2; omega) hv.isrc
      ⟨rfl, rfl⟩, hlead]
  simp only [List.nil_append, c_string_text hv.mcn.2]
  rfl

/-! ## The order of the positions -/

theorem positions_append (es es' : List (List (BitVec 8))) :
    cue_positions (es ++ es') = cue_positions es ++ cue_positions es' := List.filterMap_append

theorem positions_point (hi : i < 99) {f : Nat} (hf : f < 256 * 4500) (index : BitVec 8) :
    cue_positions [cue_point t.ctl (BitVec.ofNat 8 (i + 1)) index f] = [f] := by
  have hadr : cue_adr (cue_point t.ctl (BitVec.ofNat 8 (i + 1)) index f) = 1 := (ctl_point t).1
  have hnum : cue_number (cue_point t.ctl (BitVec.ofNat 8 (i + 1)) index f) ≠ 0 := (track_number hi).1
  unfold cue_positions
  rw [List.filterMap_cons, if_pos ⟨hadr, hnum⟩, cue_frames_put hf]
  rfl

/-- An entry of another ADR gives no position. -/
theorem positions_other (h : ∀ e ∈ es, cue_adr e ≠ 1 ∨ cue_number e = 0) : cue_positions es = [] := by
  unfold cue_positions
  rw [List.filterMap_eq_nil_iff]
  intro e he
  exact if_neg fun hh => (h e he).elim (fun h1 => h1 hh.1) fun h0 => hh.2 h0

/-- The positions of a track: its start and its index 1. -/
theorem positions_track (hi : i < 99) (hlba : t.index1_lba + 150 < 256 * 4500)
    (hpre : t.pregap ≤ t.index1_lba) :
    ∃ start, cue_positions (cue_track i t) = start ++ [t.index1_lba + 150] ∧
      (start = [] ∨ start = [if i = 0 then 0 else t.index1_lba - t.pregap + 150]) := by
  have hindex1 : int32 t.index1_lba + 150 = ((t.index1_lba + 150 : Nat) : Int) := by
    rw [int32_of_lt (by omega)]
    rfl
  have hstart : int32 (sub32 t.index1_lba t.pregap) +
    150 = ((t.index1_lba - t.pregap + 150 : Nat) : Int) := by
    rw [sub32_of_le hpre (by omega), int32_of_lt (by omega)]
    rfl
  have hisrc : cue_positions (if t.isrc = [] then [] else
      cue_text [t.ctl ||| 0x03, BitVec.ofNat 8 (i + 1)] t.isrc 6) = [] := by
    apply positions_other
    intro e he
    have hadr : cue_adr e = 3 := by
      split at he
      · cases he
      unfold cue_text at he
      rcases List.mem_cons.1 he with rfl | he
      · exact (ctl_point t).2.1
      · rw [List.mem_singleton.1 he]
        exact (ctl_point t).2.1
    exact .inl (by rw [hadr]; decide)
  rw [cue_track_eq, positions_append, positions_append, hisrc, List.nil_append, hindex1, hstart,
    positions_point hi hlba]
  refine ⟨_, rfl, ?_⟩
  by_cases h0 : i = 0
  · rw [if_pos h0, if_pos h0]
    exact .inr (positions_point hi (f := 0) (by decide) 0)
  · rw [if_neg h0, if_neg h0]
    by_cases hp : 0 < t.pregap
    · rw [if_pos hp]
      exact .inr (positions_point hi (by omega) 0)
    · rw [if_neg hp]
      exact .inl rfl

/-- The positions of the tracks from the `i`-th on lie in order, from the start of the first to
the lead-out. -/
theorem positions_tracks {hi lo : Nat} {ts : List WriteTrack} (hhi : hi + 150 < 256 * 4500)
    (hord : TracksInOrder hi lo ts)
    (hn : i + ts.length ≤ 99) :
    (cue_positions ((ts.zipIdx i).flatMap fun ti => cue_track ti.2 ti.1)).Pairwise (· ≤ ·) ∧
      ∀ p ∈ cue_positions ((ts.zipIdx i).flatMap fun ti => cue_track ti.2 ti.1),
        (if i = 0 then 0 else lo + 150) ≤ p ∧ p ≤ hi + 150 := by
  induction ts generalizing i lo with
  | nil => exact ⟨List.Pairwise.nil, fun p hp => by cases hp⟩
  | cons t ts ih =>
    rw [List.length_cons] at hn
    have hle := hord.2.le
    have hlo := hord.1
    obtain ⟨hpw, hbounds⟩ := ih (i := i + 1) hord.2 (by omega)
    rw [if_neg (Nat.succ_ne_zero i)] at hbounds
    obtain ⟨start, heq, hstart⟩ := positions_track (t := t) (i := i) (by omega) (by omega) (by omega)
    have hmem : ∀ p ∈ start, (if i = 0 then 0 else lo + 150) ≤ p ∧ p ≤ t.index1_lba + 150 := by
      intro p hp
      rcases hstart with rfl | rfl
      · cases hp
      · rw [List.mem_singleton.1 hp]
        by_cases h0 : i = 0
        · rw [if_pos h0, if_pos h0]
          omega
        · rw [if_neg h0, if_neg h0]
          omega
    have hself : (if i = 0 then 0 else lo + 150) ≤ t.index1_lba + 150 := by split <;> omega
    have hsingle : start.Pairwise (· ≤ ·) := by
      rcases hstart with rfl | rfl
      · exact List.Pairwise.nil
      · exact List.pairwise_singleton _ _
    rw [List.zipIdx_cons, List.flatMap_cons, positions_append, heq]
    refine ⟨?_, fun p hp => ?_⟩
    · rw [List.append_assoc, List.pairwise_append, List.pairwise_append]
      refine ⟨hsingle, ⟨List.pairwise_singleton _ _, hpw, fun a ha b hb => ?_⟩, fun a ha b hb => ?_⟩
      · rw [List.mem_singleton.1 ha]
        exact (hbounds b hb).1
      · rcases List.mem_append.1 hb with hb | hb
        · rw [List.mem_singleton.1 hb]
          exact (hmem a ha).2
        · exact (hmem a ha).2.trans (hbounds b hb).1
    · rcases List.mem_append.1 hp with hp | hp
      · rcases List.mem_append.1 hp with hp | hp
        · exact ⟨(hmem p hp).1, (hmem p hp).2.trans (by omega)⟩
        · rw [List.mem_singleton.1 hp]
          exact ⟨hself, by omega⟩
      · have := hbounds p hp
        exact ⟨hself.trans this.1, this.2⟩

theorem positions_sheet {toc : WriteToc} (hv : toc.Valid) (hord : TracksInOrder toc.leadout_lba 0 toc.track)
    (di : Option DiscInfo) : (cue_positions (cue_sheet toc di)).Pairwise (· ≤ ·) := by
  have hlba := hv.leadout
  have hmcn : cue_positions (if toc.mcn = [] then [] else cue_text [0x02] toc.mcn 7) = [] := by
    apply positions_other
    intro e he
    refine .inl ?_
    split at he
    · cases he
    unfold cue_text at he
    have hadr : cue_adr e = 2 := by
      rcases List.mem_cons.1 he with rfl | he
      · show (0x02 : BitVec 8) &&& 0x0f = 2
        decide
      · rw [List.mem_singleton.1 he]
        show (0x02 : BitVec 8) &&& 0x0f = 2
        decide
    rw [hadr]
    decide
  have hleadin : cue_positions [cue_leadin toc di] = [] := by
    apply positions_other
    intro e he
    rw [List.mem_singleton.1 he]
    unfold cue_leadin
    refine .inr ?_
    split
    · split <;> rfl
    · rfl
  have hleadout : cue_positions [cue_leadout toc] = [toc.leadout_lba + 150] := by
    have hout : int32 toc.leadout_lba + 150 = ((toc.leadout_lba + 150 : Nat) : Int) := by
      rw [int32_of_lt (by omega)]
      rfl
    have hframes : cue_frames (cue_leadout toc) = toc.leadout_lba + 150 := by
      have := cue_frames_put (f := toc.leadout_lba + 150) hlba 0 0 0
      rw [← this, ← hout]
      rfl
    have hadr : cue_adr (cue_leadout toc) = 1 := by
      show (0x01 : BitVec 8) &&& 0x0f = 1
      decide
    have hnum : cue_number (cue_leadout toc) ≠ 0 := by
      show (0xaa : BitVec 8) ≠ 0
      decide
    unfold cue_positions
    rw [List.filterMap_cons, if_pos ⟨hadr, hnum⟩, hframes]
    rfl
  obtain ⟨hpw, hbounds⟩ := positions_tracks (i := 0) hlba hord (by have := hv.tracks.2; omega)
  unfold cue_sheet
  rw [positions_append, positions_append, positions_append, hmcn, hleadin, hleadout, List.nil_append,
    List.nil_append,
    List.pairwise_append]
  refine ⟨hpw, List.pairwise_singleton _ _, fun a ha b hb => ?_⟩
  rw [List.mem_singleton.1 hb]
  exact (hbounds a ha).2

/-! ## The round trip -/

/-- What the build of a cue sheet is to do, in the buffer `m` of `cap` bytes. -/
structure CueRight (cap : Nat) (toc : WriteToc) (di : Option DiscInfo) (m : Mem) : Prop where
  count : toc.cue_count ≤ ADSC_CUE_MAX_ENTRIES
  kept : ∀ a, cap ≤ a → (cue_build cap toc di m).2.out a = m a
  short : (cue_build cap toc di m).1 = .error ACCUDISC_ERR_SHORT ↔ cap < 8 * toc.cue_count
  built : 8 * toc.cue_count ≤ cap → (cue_build cap toc di m).1 = .ok (8 * toc.cue_count)
  told : 8 * toc.cue_count ≤ cap →
    cue_decode (cue_payload (cue_build cap toc di m).2.out (8 * toc.cue_count)) = toc.cue
  ordered : 8 * toc.cue_count ≤ cap →
    (cue_positions (cue_payload (cue_build cap toc di m).2.out (8 * toc.cue_count))).Pairwise (· ≤ ·)

/-- **The cue sheet of a layout whose tracks are in order**: it is built or does not fit, and where it is
built the layout is recovered from it. -/
theorem adsc_cuesheet_build_round_trip (toc : WriteToc) (hv : toc.Valid)
    (hord : TracksInOrder toc.leadout_lba 0 toc.track) (cap : Nat) (di : Option DiscInfo) (m : Mem) :
    CueRight cap toc di m := by
  obtain ⟨hkept, hok, hshort⟩ := cue_build_run cap di m hv.tracks
  refine ⟨toc_count_le hv.tracks.2, hkept, ⟨fun h => ?_, hshort⟩, fun h => (hok h).1, fun h =>
    ?_, fun h => ?_⟩
  · by_contra hle
    rw [(hok (Nat.not_lt.1 hle)).1] at h
    cases h
  · rw [(hok h).2]
    exact cue_decode_sheet hv hord di
  · rw [(hok h).2]
    exact positions_sheet hv hord di

/-- A disc of two tracks, with every kind of entry. -/
theorem adsc_cuesheet_build_round_trip_two :
    CueRight 80 ⟨List.replicate 13 0x30, 20000,
      [⟨true, false, true, [], 0, 0, 9850, 0⟩,
        ⟨true, true, false, List.replicate 12 0x41, 10000, 150, 10150, 0⟩], none⟩
      none (fun _ => 0) :=
  adsc_cuesheet_build_round_trip _ ⟨by decide, by decide, by unfold Text; decide, by unfold Text; decide⟩
    (by simp [TracksInOrder]) 80 none fun _ => 0

/-- The second pass of the `.toc` parser gives tracks in order while their lengths do not wrap. -/
theorem toc_layout_in_order {scanned : List ScannedTrack} {tracks : List WriteTrack} {cum leadout : Nat}
    (h : toc_layout cum scanned = .ok (tracks, leadout))
    (htot : cum + (tracks.map (·.sectors)).sum < 2 ^ 32) : TracksInOrder leadout cum tracks := by
  induction scanned generalizing cum tracks with
  | nil =>
    obtain ⟨rfl, rfl⟩ := Prod.mk.inj (Except.ok.inj h)
    exact Nat.le_refl _
  | cons t ts ih =>
    unfold toc_layout at h
    split at h
    · cases h
    split at h
    · cases h
    split at h
    · cases h
    rename_i hpre
    cases hr : toc_layout (u32 (cum + t.track.sectors)) ts with
    | error rc =>
      rw [hr] at h
      cases h
    | ok rest =>
      rw [hr] at h
      obtain ⟨rfl, rfl⟩ := Prod.mk.inj (Except.ok.inj h)
      simp only [List.map_cons, List.sum_cons] at htot
      have hu : u32 (cum + t.track.sectors) = cum + t.track.sectors := Nat.mod_eq_of_lt (by omega)
      have hi : u32 (cum + t.track.pregap) = cum + t.track.pregap := Nat.mod_eq_of_lt (by omega)
      rw [hu] at hr
      refine ⟨Nat.le_of_eq hi.symm, TracksInOrder.mono (ih hr (by omega)) ?_⟩
      show u32 (cum + t.track.pregap) ≤ _
      omega

/-- A layout of two tracks whose lengths wrap. -/
def wrapped_toc : WriteToc :=
  ⟨[], 704, [⟨true, false, false, [], 0, 0, 4294967000, 0⟩,
    ⟨true, false, false, [], 4294967000, 0, 1000, 0⟩], none⟩

/-- The layout of the `.toc` parser wraps and its lead-out is in reach, but its second track is not: the
drive is told an index 1 at the start of the disc. -/
theorem cue_sheet_wraps : ¬∀ toc : WriteToc, toc.Valid →
    (∃ scanned, toc_layout 0 scanned = .ok (toc.track, toc.leadout_lba)) →
    ∀ (cap : Nat) (di : Option DiscInfo) (m : Mem), CueRight cap toc di m := by
  intro h
  have hright := h wrapped_toc ⟨by decide, by decide, by unfold Text; decide, by unfold Text; decide⟩
    ⟨[⟨⟨true, false, false, [], 0, 0, 4294967000, 0⟩, true⟩,
      ⟨⟨true, false, false, [], 0, 0, 1000, 0⟩, true⟩], rfl⟩
    48 none (fun _ => 0)
  have htold := hright.told (by decide)
  exact absurd htold (by decide +kernel)

end Accudisc
