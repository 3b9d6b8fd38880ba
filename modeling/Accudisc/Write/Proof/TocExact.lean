import Accudisc.Write.TocParse
import Mathlib.Algebra.GroupWithZero.Nat
import Mathlib.Data.List.Forall2

/-!
# The `.toc` parser in exact numbers

The scan of the code and the scan in exact numbers take the same lines. `Narrowed` is what the types leave
of a track, and the layout of the code is that of the exact scan where nothing is cut off.
-/

namespace Accudisc

variable {p e : CText} {n : Int}

/-! ## Numbers -/

theorem long_of_lt (h : -2 ^ 63 ≤ n) (h' : n < 2 ^ 63) : machine.long n = n := by
  show (BitVec.ofInt 64 n).toInt = n
  rw [BitVec.toInt_ofInt]
  apply Int.bmod_eq_of_le
  · omega
  · omega

theorem machine_strtol (n : Int) : (machine.strtol n < 0 ↔ n < 0) ∧ (59 < machine.strtol n ↔ 59 < n) ∧
    (74 < machine.strtol n ↔ 74 < n) ∧ (0 ≤ n → n < 2 ^ 63 → machine.strtol n = n) := by
  show (max (-LONG_MAX - 1) (min n LONG_MAX) < 0 ↔ n < 0) ∧
    (59 < max (-LONG_MAX - 1) (min n LONG_MAX) ↔ 59 < n) ∧
    (74 < max (-LONG_MAX - 1) (min n LONG_MAX) ↔ 74 < n) ∧
    (0 ≤ n → n < 2 ^ 63 → max (-LONG_MAX - 1) (min n LONG_MAX) = n)
  unfold LONG_MAX
  omega

theorem machine_strtol_le (n : Int) : machine.strtol n < 2 ^ 63 := by
  show max (-LONG_MAX - 1) (min n LONG_MAX) < 2 ^ 63
  unfold LONG_MAX
  omega

/-- The code reads the number that is written, within the range of `long`. -/
theorem strtol_eq (ar : Arith) (p : CText) : strtol ar p = (strtol written p).map fun r =>
    (ar.strtol r.1, r.2) := by
  unfold strtol
  simp only []
  generalize (if decide ((p.dropWhile is_space).head? = some 0x2d) = true ∨
    (p.dropWhile is_space).head? = some 0x2b
    then (p.dropWhile is_space).drop 1 else p.dropWhile is_space) = d
  by_cases hd : d.takeWhile is_digit = []
  · rw [if_pos hd, if_pos hd]
    rfl
  · rw [if_neg hd, if_neg hd]
    rfl

theorem strtol_colon_eq (ar : Arith) (p : CText) :
    strtol_colon ar p = (strtol_colon written p).map fun r => (ar.strtol r.1, r.2) := by
  unfold strtol_colon
  rw [strtol_eq ar]
  cases strtol written p with
  | none => rfl
  | some r =>
    obtain ⟨n, e⟩ := r
    cases e with
    | nil => rfl
    | cons c e =>
      by_cases hc : c = COLON
      · simp [hc]
      · simp [hc]

/-- The frames of the code and those that are written. -/
structure Reads (v w : Int) : Prop where
  nonneg : 0 ≤ v
  same : v < 2 ^ 63 → w = v
  small : w < 2 ^ 63

theorem long_lt (n : Int) : machine.long n < 2 ^ 63 := by
  have := BitVec.toInt_lt (x := BitVec.ofInt 64 n)
  exact this

theorem parse_msf_exact (p : CText) : (parse_msf written p = none ∧ parse_msf machine p = none) ∨
    ∃ v w e, parse_msf written p = some (v, e) ∧ parse_msf machine p = some (w, e) ∧ Reads v w := by
  unfold parse_msf
  rw [strtol_colon_eq machine]
  cases hmm : strtol_colon written (skipws p) with
  | none => exact .inl ⟨rfl, rfl⟩
  | some r =>
    obtain ⟨mm, p1⟩ := r
    simp only [Option.map_some]
    rw [strtol_colon_eq machine]
    cases hss : strtol_colon written p1 with
    | none => exact .inl ⟨rfl, rfl⟩
    | some r =>
      obtain ⟨ss, p2⟩ := r
      simp only [Option.map_some]
      rw [strtol_eq machine]
      cases hff : strtol written p2 with
      | none => exact .inl ⟨rfl, rfl⟩
      | some r =>
        obtain ⟨ff, e⟩ := r
        simp only [Option.map_some]
        obtain ⟨hm0, -, -, hm⟩ := machine_strtol mm
        obtain ⟨hs0, hs59, -, hs⟩ := machine_strtol ss
        obtain ⟨hf0, -, hf74, hf⟩ := machine_strtol ff
        by_cases hbad : mm < 0 ∨ ss < 0 ∨ 59 < ss ∨ ff < 0 ∨ 74 < ff
        · rw [if_pos hbad, if_pos (by rw [hm0, hs0, hs59, hf0, hf74]; exact hbad)]
          exact .inl ⟨rfl, rfl⟩
        · rw [if_neg hbad, if_neg (by rw [hm0, hs0, hs59, hf0, hf74]; exact hbad)]
          refine .inr ⟨_, _, e, rfl, rfl, ?_, fun hlt => ?_, long_lt _⟩
          · show 0 ≤ (mm * 60 + ss) * 75 + ff
            omega
          · change (mm * 60 + ss) * 75 + ff < 2 ^ 63 at hlt
            show _ = (mm * 60 + ss) * 75 + ff
            rw [hm (by omega) (by omega), hs (by omega) (by omega), hf (by omega) (by omega),
              long_of_lt (n := mm * 60) (by omega) (by omega),
                long_of_lt (n := mm * 60 + ss) (by omega) (by omega),
              long_of_lt (n := (mm * 60 + ss) * 75) (by omega) (by omega), long_of_lt (by omega) (by omega)]

/-- Where the code reads a start the exact scan does, and it is that start while it is below 2^63 bytes. -/
theorem parse_file_start_exact {w : Int} (h : parse_file_start machine p = some (w, e)) (hw : 0 ≤ w) :
    ∃ v, parse_file_start written p = some (v, e) ∧ Reads v w := by
  unfold parse_file_start at h ⊢
  rw [strtol_eq machine] at h
  cases hn : strtol written (skipws p) with
  | none =>
    rw [hn] at h
    cases h
  | some r =>
    obtain ⟨n, q⟩ := r
    rw [hn] at h
    simp only [Option.map_some] at h ⊢
    obtain ⟨hn0, -, -, hnv⟩ := machine_strtol n
    by_cases hneg : n < 0
    · rw [if_pos (hn0.2 hneg)] at h
      cases h
    rw [if_neg (fun h => hneg (hn0.1 h))] at h
    rw [if_neg hneg]
    by_cases hcolon : q.head? ≠ some COLON
    · rw [if_pos hcolon] at h
      rw [if_pos hcolon]
      simp only [Option.some.injEq, Prod.mk.injEq] at h
      obtain ⟨rfl, rfl⟩ := h
      exact ⟨n, rfl, by omega, hnv (by omega), machine_strtol_le n⟩
    · rw [if_neg hcolon] at h
      rw [if_neg hcolon]
      rcases parse_msf_exact p with ⟨-, hnone⟩ | ⟨v, u, e', hv, hu, hread⟩
      · rw [hnone] at h
        cases h
      · rw [hu] at h
        rw [hv]
        simp only at h ⊢
        split at h
        · cases h
        simp only [Option.some.injEq, Prod.mk.injEq] at h
        obtain ⟨rfl, rfl⟩ := h
        have h0 := hread.nonneg
        rw [if_neg (by omega)]
        refine ⟨_, rfl, ?_, fun hlt => ?_, long_lt _⟩
        · show 0 ≤ v * SECTOR
          unfold SECTOR
          omega
        · change v * SECTOR < 2 ^ 63 at hlt
          show machine.long (u * SECTOR) = v * SECTOR
          unfold SECTOR at hlt ⊢
          rw [hread.same (by omega)]
          exact long_of_lt (by omega) (by omega)

theorem file_fields_exact {ls : CText} {a b : Int} (h : file_fields machine ls = some (a, b)) :
    0 ≤ a ∧ 0 ≤ b ∧ ∃ v w, file_fields written ls = some (v, w) ∧ Reads v a ∧ Reads w b := by
  unfold file_fields at h ⊢
  cases hq : parse_qstr (ls.drop (if ls.head? = some 0x41 then 9 else 4)) 1 with
  | none =>
    rw [hq] at h
    cases h
  | some r =>
    obtain ⟨s, q⟩ := r
    rw [hq] at h
    simp only at h ⊢
    cases hs : parse_file_start machine q with
    | none =>
      rw [hs] at h
      cases h
    | some r =>
      obtain ⟨w, q'⟩ := r
      rw [hs] at h
      simp only at h
      split at h
      · cases h
      rename_i hw
      obtain ⟨v, hv, hread⟩ := parse_file_start_exact hs (by omega)
      have hv0 := hread.nonneg
      rw [hv]
      simp only [if_neg (show ¬v < 0 by omega)]
      rcases parse_msf_exact q' with ⟨-, hnone⟩ | ⟨x, u, e', hx, hu, hlen⟩
      · rw [hnone] at h
        cases h
      · rw [hu] at h
        simp only at h
        split at h
        · cases h
        rename_i hu0
        simp only [Option.some.injEq, Prod.mk.injEq] at h
        obtain ⟨rfl, rfl⟩ := h
        have hx0 := hlen.nonneg
        rw [hx]
        simp only [if_neg (show ¬x < 0 by omega)]
        exact ⟨by omega, by omega, v, x, rfl, hread, hlen⟩

/-! ## Tracks -/

/-- `t` is the track `x` as the types leave it. -/
structure Narrowed (t x : ScannedTrack) : Prop where
  audio : t.track.audio = x.track.audio
  have_file : t.have_file = x.have_file
  sectors : t.track.sectors < 2 ^ 32 ∧ (x.track.sectors < 2 ^ 32 → t.track.sectors = x.track.sectors)
  pregap : x.track.pregap < 2 ^ 32 → t.track.pregap = x.track.pregap
  file_offset : t.track.file_offset < 2 ^ 63 ∧
    (x.track.file_offset < 2 ^ 63 → t.track.file_offset = x.track.file_offset)

theorem Reads.uint32 {v w : Int} (h : Reads v w) :
    machine.uint32 w < 2 ^ 32 ∧ (written.uint32 v < 2 ^ 32 → machine.uint32 w = written.uint32 v) := by
  show (w % 2 ^ 32).toNat < 2 ^ 32 ∧ (v.toNat < 2 ^ 32 → (w % 2 ^ 32).toNat = v.toNat)
  have h0 := h.nonneg
  have hs := h.same
  refine ⟨by omega, fun hlt => ?_⟩
  rw [hs (by omega)]
  omega

theorem Reads.uint64 {v w : Int} (h : Reads v w) (hw : 0 ≤ w) :
    machine.uint64 w < 2 ^ 63 ∧ (written.uint64 v < 2 ^ 63 → machine.uint64 w = written.uint64 v) := by
  show (w % 2 ^ 64).toNat < 2 ^ 63 ∧ (v.toNat < 2 ^ 63 → (w % 2 ^ 64).toNat = v.toNat)
  have h0 := h.nonneg
  have hs := h.same
  have hsm := h.small
  refine ⟨by omega, fun hlt => ?_⟩
  rw [hs (by omega)]
  omega

theorem start_pregap_exact (ls : CText) (h : start_pregap written ls < 2 ^ 32) :
    start_pregap machine ls = start_pregap written ls := by
  unfold start_pregap at h ⊢
  rcases parse_msf_exact (ls.drop 5) with ⟨hv, hw⟩ | ⟨v, w, e, hv, hw, hread⟩
  · rw [hv, hw]
  · rw [hv] at h
    rw [hv, hw]
    simp only at h ⊢
    have h0 := hread.nonneg
    by_cases hpos : 0 < v
    · rw [if_pos hpos] at h ⊢
      have hlt : v < 2 ^ 32 := by
        change v.toNat < 2 ^ 32 at h
        omega
      have hw := hread.same (by omega)
      rw [if_pos (by omega)]
      exact hread.uint32.2 h
    · have hw := hread.same (by omega)
      rw [if_neg hpos, if_neg (by omega)]

variable {t x : ScannedTrack}

/-- **A line of a track** leaves it narrowed. -/
theorem track_line_exact (h : Narrowed t x) {ls : CText} {t' : ScannedTrack}
    (ht : track_line machine t ls = .ok t') :
    ∃ x', track_line written x ls = .ok x' ∧ Narrowed t' x' := by
  unfold track_line at ht ⊢
  by_cases h1 : kw ls kw_ISRC = true
  · rw [if_pos h1] at ht ⊢
    refine ⟨_, rfl, ?_⟩
    rw [← Except.ok.inj ht]
    unfold track_isrc
    split
    · exact h
    split
    · exact ⟨h.audio, h.have_file, h.sectors, h.pregap, h.file_offset⟩
    · exact h
  rw [if_neg h1] at ht ⊢
  by_cases h2 : kw ls kw_NO = true
  · rw [if_pos h2] at ht ⊢
    refine ⟨_, rfl, ?_⟩
    rw [← Except.ok.inj ht]
    unfold track_no
    split
    · exact ⟨h.audio, h.have_file, h.sectors, h.pregap, h.file_offset⟩
    split
    · exact ⟨h.audio, h.have_file, h.sectors, h.pregap, h.file_offset⟩
    · exact h
  rw [if_neg h2] at ht ⊢
  by_cases h3 : kw ls kw_PRE_EMPHASIS = true
  · rw [if_pos h3] at ht ⊢
    refine ⟨_, rfl, ?_⟩
    rw [← Except.ok.inj ht]
    exact ⟨h.audio, h.have_file, h.sectors, h.pregap, h.file_offset⟩
  rw [if_neg h3] at ht ⊢
  by_cases h4 : kw ls kw_COPY = true
  · rw [if_pos h4] at ht ⊢
    refine ⟨_, rfl, ?_⟩
    rw [← Except.ok.inj ht]
    exact ⟨h.audio, h.have_file, h.sectors, h.pregap, h.file_offset⟩
  rw [if_neg h4] at ht ⊢
  by_cases h5 : (kw ls kw_FILE || kw ls kw_AUDIOFILE) = true
  · rw [if_pos h5] at ht ⊢
    unfold track_file at ht ⊢
    cases hf : file_fields machine ls with
    | none =>
      rw [hf] at ht
      cases ht
    | some r =>
      obtain ⟨a, b⟩ := r
      obtain ⟨ha, -, v, w, hvw, hva, hwb⟩ := file_fields_exact hf
      rw [hf] at ht
      rw [hvw]
      refine ⟨_, rfl, ?_⟩
      rw [← Except.ok.inj ht]
      exact ⟨h.audio, rfl, hwb.uint32, h.pregap, hva.uint64 ha⟩
  rw [if_neg h5] at ht ⊢
  by_cases h6 : kw ls kw_START = true
  · rw [if_pos h6] at ht ⊢
    refine ⟨_, rfl, ?_⟩
    rw [← Except.ok.inj ht]
    exact ⟨h.audio, h.have_file, h.sectors, start_pregap_exact ls, h.file_offset⟩
  · rw [if_neg h6] at ht ⊢
    exact ⟨x, rfl, Except.ok.inj ht ▸ h⟩

/-! ## The scan -/

/-- The model of the code and the exact one. -/
structure TocText.Narrowed (st sx : TocText) : Prop where
  before : List.Forall₂ Accudisc.Narrowed st.before sx.before
  cur : List.Forall₂ Accudisc.Narrowed st.cur.toList sx.cur.toList

variable {st sx : TocText}

theorem TocText.Narrowed.tracks (h : st.Narrowed sx) : List.Forall₂ Accudisc.Narrowed st.tracks sx.tracks :=
  List.rel_append h.before h.cur

theorem narrowed_new (ls : CText) : Narrowed (new_track ls) (new_track ls) :=
  ⟨rfl, rfl, ⟨Nat.two_pow_pos 32, fun _ => rfl⟩, fun _ => rfl, ⟨Nat.two_pow_pos 63, fun _ => rfl⟩⟩

/-- **A line** of the code is one of the exact scan. -/
theorem cue_line_exact (h : st.Narrowed sx) {s : TocText} (hs : cue_line machine st p = .ok s) :
    ∃ s', cue_line written sx p = .ok s' ∧ s.Narrowed s' := by
  unfold cue_line at hs ⊢
  simp only at hs ⊢
  split at hs
  · cases hs
  rename_i hq
  rw [if_neg hq]
  split at hs
  · rename_i hc
    rw [if_pos hc]
    refine ⟨_, rfl, ?_⟩
    rw [← Except.ok.inj hs]
    have hkeep : ∀ y : TocText, (catalog y (skipws p)).before = y.before ∧
      (catalog y (skipws p)).cur = y.cur := by
      intro y
      unfold catalog
      split
      · exact ⟨rfl, rfl⟩
      · exact ⟨rfl, rfl⟩
    exact ⟨by rw [(hkeep st).1, (hkeep sx).1]; exact h.before,
      by rw [(hkeep st).2, (hkeep sx).2]; exact h.cur⟩
  rename_i hc
  rw [if_neg hc]
  split at hs
  · rename_i ht
    rw [if_pos ht]
    split at hs
    · cases hs
    rename_i hn
    rw [if_neg (by rw [← h.tracks.length_eq]; exact hn)]
    refine ⟨_, rfl, ?_⟩
    rw [← Except.ok.inj hs]
    exact ⟨h.tracks, List.Forall₂.cons (narrowed_new _) .nil⟩
  · rename_i ht
    rw [if_neg ht]
    have hcur := h.cur
    cases hst : st.cur with
    | none =>
      rw [hst] at hs hcur
      cases hsx : sx.cur with
      | none => exact ⟨sx, rfl, Except.ok.inj hs ▸ h⟩
      | some x =>
        rw [hsx] at hcur
        cases hcur
    | some t =>
      rw [hst] at hs hcur
      cases hsx : sx.cur with
      | none =>
        rw [hsx] at hcur
        cases hcur
      | some x =>
        rw [hsx] at hcur
        cases hcur with
        | cons htx _ =>
          simp only at hs ⊢
          cases hl : track_line machine t (skipws p) with
          | error rc =>
            rw [hl] at hs
            cases hs
          | ok t' =>
            obtain ⟨x', hx', hn⟩ := track_line_exact htx hl
            rw [hl] at hs
            rw [hx']
            refine ⟨_, rfl, ?_⟩
            rw [← Except.ok.inj hs]
            exact ⟨h.before, List.Forall₂.cons hn .nil⟩

/-- **The scan** of the code is the exact scan, narrowed. -/
theorem toc_scan_exact {text : CText} {s : TocText} (hs : toc_scan machine text = .ok s) :
    ∃ s', toc_scan written text = .ok s' ∧ s.Narrowed s' := by
  have hrun : ∀ (ps : List CText) (st sx : TocText), st.Narrowed sx →
    ps.foldlM (cue_line machine) st = .ok s →
      ∃ s', ps.foldlM (cue_line written) sx = .ok s' ∧ s.Narrowed s' := by
    intro ps
    induction ps with
    | nil =>
      intro st sx h hs
      exact ⟨sx, rfl, Except.ok.inj hs ▸ h⟩
    | cons p ps ih =>
      intro st sx h hs
      rw [List.foldlM_cons] at hs ⊢
      cases hl : cue_line machine st p with
      | error rc =>
        rw [hl] at hs
        cases hs
      | ok st' =>
        obtain ⟨sx', hsx', hn⟩ := cue_line_exact h hl
        rw [hl] at hs
        rw [hsx']
        exact ih st' sx' hn hs
  exact hrun _ _ _ ⟨.nil, .nil⟩ hs

/-! ## The layout -/

/-- The layout of the tracks `xs` from the sum `c` of those before them on: their lengths and starts as
they are, each index 1 its pregap behind the sum, and the lead-out at the end. -/
def LaidExactly : Nat → List ScannedTrack → List WriteTrack → Nat → Prop
  | c, [], [], leadout => leadout = c
  | c, x :: xs, w :: ws, leadout =>
    (w.sectors = x.track.sectors ∧ w.file_offset = x.track.file_offset ∧
      w.index1_lba = c + x.track.pregap) ∧
      LaidExactly (c + x.track.sectors) xs ws leadout
  | _, _, _, _ => False

/-- The numbers of the text in the layout: every length, start and position is the one that is written. -/
def TocExact (text : CText) (toc : WriteToc) : Prop :=
  ∃ sx, toc_scan written text = .ok sx ∧ LaidExactly 0 sx.tracks toc.track toc.leadout_lba

/-- The numbers of the text are within the types: all the lengths together and each pregap within 32 bits,
and each start within a `long long`. -/
def TocFits (text : CText) : Prop :=
  ∃ sx, toc_scan written text = .ok sx ∧ (sx.tracks.map (·.track.sectors)).sum < 2 ^ 32 ∧
    ∀ x ∈ sx.tracks, x.track.pregap < 2 ^ 32 ∧ x.track.file_offset < 2 ^ 63

variable {ts xs : List ScannedTrack} {ws : List WriteTrack} {c leadout : Nat}

/-- The layout of a first track and of those behind it. -/
theorem toc_layout_cons (h : toc_layout c (t :: ts) = .ok (ws, leadout)) :
    t.track.pregap ≤ t.track.sectors ∧
      ∃ ws', toc_layout (u32 (c + t.track.sectors)) ts = .ok (ws', leadout) ∧
      ws = { t.track with index1_lba := u32 (c + t.track.pregap) } :: ws' := by
  unfold toc_layout at h
  split at h
  · cases h
  split at h
  · cases h
  split at h
  · cases h
  rename_i hpre
  cases hr : toc_layout (u32 (c + t.track.sectors)) ts with
  | error rc =>
    rw [hr] at h
    cases h
  | ok rest =>
    rw [hr] at h
    obtain ⟨rfl, rfl⟩ := Prod.mk.inj (Except.ok.inj h)
    exact ⟨Nat.le_of_not_lt hpre, rest.1, rfl, rfl⟩

/-- **Numbers within the types** are laid out as they are written. -/
theorem toc_layout_exact (hn : List.Forall₂ Narrowed ts xs) (h : toc_layout c ts = .ok (ws, leadout))
    (hsum : c + (xs.map (·.track.sectors)).sum < 2 ^ 32)
    (hfit : ∀ x ∈ xs, x.track.pregap < 2 ^ 32 ∧ x.track.file_offset < 2 ^ 63) :
      LaidExactly c xs ws leadout := by
  induction hn generalizing c ws with
  | nil =>
    obtain ⟨rfl, rfl⟩ := Prod.mk.inj (Except.ok.inj h)
    rfl
  | cons htx _ ih =>
    rename_i t x ts xs _
    obtain ⟨hpre, ws', hrest, rfl⟩ := toc_layout_cons h
    rw [List.map_cons, List.sum_cons] at hsum
    obtain ⟨hp, hf⟩ := hfit x (by simp)
    have hsec := htx.sectors.2 (by omega)
    have hpg := htx.pregap hp
    have hu : u32 (c + t.track.sectors) = c + x.track.sectors := by
      rw [hsec]
      exact Nat.mod_eq_of_lt (by omega)
    have hi : u32 (c + t.track.pregap) = c + x.track.pregap := by
      rw [hpg]
      exact Nat.mod_eq_of_lt (by omega)
    rw [hu] at hrest
    exact ⟨⟨hsec, htx.file_offset.2 hf, hi⟩, ih hrest (by omega) fun y hy => hfit y (by simp [hy])⟩

/-- The lead-out of an exact layout is the sum of the lengths. -/
theorem laid_leadout (h : LaidExactly c xs ws leadout) : leadout = c + (xs.map (·.track.sectors)).sum := by
  induction xs generalizing c ws with
  | nil =>
    cases ws with
    | nil => exact h
    | cons w ws => exact h.elim
  | cons x xs ih =>
    cases ws with
    | nil => exact h.elim
    | cons w ws =>
      rw [List.map_cons, List.sum_cons, ih h.2]
      omega

/-- **An exact layout** is of numbers within the types. -/
theorem laid_fits (hn : List.Forall₂ Narrowed ts xs) (h : toc_layout c ts = .ok (ws, leadout))
    (hc : c < 2 ^ 32) {c' : Nat}
    (hlaid : LaidExactly c' xs ws leadout) :
    leadout < 2 ^ 32 ∧ ∀ x ∈ xs, x.track.pregap < 2 ^ 32 ∧ x.track.file_offset < 2 ^ 63 := by
  induction hn generalizing c c' ws with
  | nil =>
    obtain ⟨rfl, rfl⟩ := Prod.mk.inj (Except.ok.inj h)
    exact ⟨hc, fun x hx => by cases hx⟩
  | cons htx _ ih =>
    rename_i t x ts xs _
    obtain ⟨-, ws', hrest, rfl⟩ := toc_layout_cons h
    obtain ⟨⟨-, hoff, hidx⟩, hlaid⟩ := hlaid
    obtain ⟨hlead, hxs⟩ := ih hrest (Nat.mod_lt _ (Nat.two_pow_pos 32)) hlaid
    refine ⟨hlead, fun y hy => ?_⟩
    rcases List.mem_cons.1 hy with rfl | hy
    · have hlt : u32 (c + t.track.pregap) < 2 ^ 32 := Nat.mod_lt _ (Nat.two_pow_pos 32)
      change u32 (c + t.track.pregap) = c' + y.track.pregap at hidx
      refine ⟨by omega, ?_⟩
      rw [← hoff]
      exact htx.file_offset.1
    · exact hxs y hy

/-- **The arithmetic of the parser**: an accepted text is laid out exactly as it is written, exactly where
its numbers are within the types. -/
theorem adsc_toc_parse_cue_exact_iff {text : CText} {toc : WriteToc}
    (h : adsc_toc_parse_cue text = .ok toc) :
    TocExact text toc ↔ TocFits text := by
  unfold adsc_toc_parse_cue at h
  cases hs : toc_scan machine text with
  | error rc =>
    rw [hs] at h
    cases h
  | ok st =>
    rw [hs] at h
    simp only at h
    split at h
    · cases h
    obtain ⟨sx, hsx, hn⟩ := toc_scan_exact hs
    cases hl : toc_layout 0 st.tracks with
    | error rc =>
      rw [hl] at h
      cases h
    | ok r =>
      rw [hl] at h
      have htoc : toc = ⟨st.mcn, r.2, r.1, none⟩ := (Except.ok.inj h).symm
      constructor
      · intro hx
        obtain ⟨sy, hsy, hlaid⟩ := hx
        rw [hsx] at hsy
        cases hsy
        rw [htoc] at hlaid
        obtain ⟨hlead, hfit⟩ : r.2 < 2 ^ 32 ∧ _ := laid_fits hn.tracks hl (Nat.two_pow_pos 32) hlaid
        have hsum : r.2 = 0 + (sx.tracks.map (·.track.sectors)).sum := laid_leadout hlaid
        exact ⟨sx, hsx, by omega, hfit⟩
      · intro hx
        obtain ⟨sy, hsy, hsum, hfit⟩ := hx
        rw [hsx] at hsy
        cases hsy
        rw [htoc]
        exact ⟨sx, hsx, toc_layout_exact hn.tracks hl (by omega) hfit⟩

/-- A disc of one track, of the length `msf`. -/
def one_file_toc (msf : CText) : CText :=
  kw_TRACK ++ [0x20] ++ kw_AUDIO ++ [NL] ++ kw_FILE ++
    [0x20, QUOTE, 0x78, QUOTE, 0x20, 0x30, 0x20] ++ msf ++ [NL]

theorem adsc_toc_parse_cue_exact_iff_one :
    ∃ toc, adsc_toc_parse_cue (one_file_toc (chars ['0', ':', '2', ':', '0'])) = .ok toc ∧
    (TocExact (one_file_toc (chars ['0', ':', '2', ':', '0'])) toc ↔
      TocFits (one_file_toc (chars ['0', ':', '2', ':', '0']))) := by
  have hok : (adsc_toc_parse_cue (one_file_toc (chars ['0', ':', '2', ':', '0']))).toOption.isSome =
    true := by
    decide +kernel
  cases h : adsc_toc_parse_cue (one_file_toc (chars ['0', ':', '2', ':', '0'])) with
  | error rc =>
    rw [h] at hok
    cases hok
  | ok toc => exact ⟨toc, rfl, adsc_toc_parse_cue_exact_iff h⟩

/-- A track of 954438 minutes, which is 4294971000 sectors, is laid out as one of 3704. -/
theorem toc_length_wraps : ¬∀ text toc, adsc_toc_parse_cue text = .ok toc → TocExact text toc := by
  intro h
  have hlead :
    (adsc_toc_parse_cue
    (one_file_toc (chars ['9', '5', '4', '4', '3', '8', ':', '0', ':', '0']))).toOption.map
      (·.leadout_lba) = some 3704 := by decide +kernel
  have hsum : (toc_scan written
    (one_file_toc (chars ['9', '5', '4', '4', '3', '8', ':', '0', ':', '0']))).toOption.map
      (fun sx => (sx.tracks.map (·.track.sectors)).sum) = some 4294971000 := by decide +kernel
  cases hp : adsc_toc_parse_cue (one_file_toc (chars ['9', '5', '4', '4', '3', '8', ':', '0', ':', '0']))
    with
  | error rc =>
    rw [hp] at hlead
    cases hlead
  | ok toc =>
    obtain ⟨sx, hsx, hlaid⟩ := h _ toc hp
    have hl := laid_leadout hlaid
    rw [hp] at hlead
    rw [hsx] at hsum
    have h1 : toc.leadout_lba = 3704 := Option.some.inj hlead
    have h2 : (sx.tracks.map (·.track.sectors)).sum = 4294971000 := Option.some.inj hsum
    omega

end Accudisc
