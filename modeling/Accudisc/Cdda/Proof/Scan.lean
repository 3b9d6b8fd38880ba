import Accudisc.Cdda.Scan

/-!
# What a scan finds (`scan.c`)

Sector `k` of the scan is sector `k % 16` of chunk `k / 16`. `ScanOutcome` says for every outcome which
sectors were looked at and what they held; a text that is returned is that of the first frame of its mode
with a right CRC.
-/

namespace Accudisc

section
variable {drive : Nat → Int × Mem} {lba : Nat} {adr : BitVec 8} {buf : Mem}

/-- Chunk `c` of the scan. -/
def scan_chunk (drive : Nat → Int × Mem) (lba c : Nat) : Int × Mem := drive (u32 (lba + c * SCAN_CHUNK))

/-- Sector `k` of the scan holds a frame of the mode, with a right CRC. -/
def ScanHit (drive : Nat → Int × Mem) (lba : Nat) (adr : BitVec 8) (k : Nat) (q : AccuQ) : Prop :=
  scan_frame (scan_chunk drive lba (k / SCAN_CHUNK)).2 (k % SCAN_CHUNK) = (q, ACCUDISC_OK) ∧ q.adr = adr

/-- The chunks of a whole scan. -/
def SCAN_CHUNKS : Nat := 13

/-- The outcomes of a scan. -/
inductive ScanOutcome (drive : Nat → Int × Mem) (lba : Nat) (adr : BitVec 8) :
    Int × Option AccuQ → Prop where
  | hit (k : Nat) (q : AccuQ) : k < SCAN_CHUNKS * SCAN_CHUNK →
      (∀ c ≤ k / SCAN_CHUNK, (scan_chunk drive lba c).1 = ACCUDISC_OK) → ScanHit drive lba adr k q →
      (∀ j < k, ∀ p, ¬ScanHit drive lba adr j p) → ScanOutcome drive lba adr (ACCUDISC_OK, some q)
  | failed (c : Nat) : c < SCAN_CHUNKS → (scan_chunk drive lba c).1 ≠ ACCUDISC_OK →
      (∀ c' < c, (scan_chunk drive lba c').1 = ACCUDISC_OK) →
        (∀ j < c * SCAN_CHUNK, ∀ p, ¬ScanHit drive lba adr j p) →
      ScanOutcome drive lba adr ((scan_chunk drive lba c).1, none)
  | absent : (∀ c < SCAN_CHUNKS, (scan_chunk drive lba c).1 = ACCUDISC_OK) →
      (∀ j < SCAN_CHUNKS * SCAN_CHUNK, ∀ p, ¬ScanHit drive lba adr j p) →
      ScanOutcome drive lba adr (ACCUDISC_ERR_NOTFOUND, none)

/-- The first frame of the mode in the sectors from `s` on, or none in them. -/
theorem scan_sectors_spec (left s : Nat) :
    (∃ k q, s ≤ k ∧ k < s + left ∧ scan_sectors adr buf left s = some q ∧
      scan_frame buf k = (q, ACCUDISC_OK) ∧ q.adr = adr ∧
      ∀ j, s ≤ j → j < k → ∀ p, ¬(scan_frame buf j = (p, ACCUDISC_OK) ∧ p.adr = adr)) ∨
    (scan_sectors adr buf left s = none ∧
      ∀ j, s ≤ j → j < s + left → ∀ p, ¬(scan_frame buf j = (p, ACCUDISC_OK) ∧ p.adr = adr)) := by
  induction left generalizing s with
  | zero => exact .inr ⟨rfl, fun j h1 h2 => absurd h2 (by omega)⟩
  | succ left ih =>
    by_cases hf : (scan_frame buf s).2 = ACCUDISC_OK ∧ (scan_frame buf s).1.adr = adr
    · refine .inl ⟨s, (scan_frame buf s).1, Nat.le_refl s, by omega, if_pos hf, Prod.ext rfl hf.1, hf.2, ?_⟩
      intro j h1 h2
      omega
    · have hs : ∀ p, ¬(scan_frame buf s = (p, ACCUDISC_OK) ∧ p.adr = adr) := by
        rintro p ⟨hp, hadr⟩
        exact hf ⟨by rw [hp], by rw [hp]; exact hadr⟩
      have heq : scan_sectors adr buf (left + 1) s = scan_sectors adr buf left (s + 1) := if_neg hf
      rw [heq]
      rcases ih (s + 1) with ⟨k, q, h1, h2, hsome, hk, hadr, hbefore⟩ | ⟨hnone, hbefore⟩
      · refine .inl ⟨k, q, by omega, by omega, hsome, hk, hadr, fun j h3 h4 => ?_⟩
        rcases Nat.lt_or_eq_of_le h3 with h3 | rfl
        · exact hbefore j h3 h4
        · exact hs
      · refine .inr ⟨hnone, fun j h3 h4 => ?_⟩
        rcases Nat.lt_or_eq_of_le h3 with h3 | rfl
        · exact hbefore j h3 (by omega)
        · exact hs

theorem scan_hit_chunk {c s : Nat} {q : AccuQ} (hs : s < SCAN_CHUNK) :
    ScanHit drive lba adr (c * SCAN_CHUNK + s) q ↔
      scan_frame (scan_chunk drive lba c).2 s = (q, ACCUDISC_OK) ∧ q.adr = adr := by
  have hdiv : (c * SCAN_CHUNK + s) / SCAN_CHUNK = c := by
    unfold SCAN_CHUNK at hs ⊢
    omega
  have hmod : (c * SCAN_CHUNK + s) % SCAN_CHUNK = s := by
    unfold SCAN_CHUNK at hs ⊢
    omega
  unfold ScanHit
  rw [hdiv, hmod]

/-- The sectors of the first `c` chunks, and those of chunk `c`. -/
theorem scan_before {c n : Nat} (hb : ∀ j < c * SCAN_CHUNK, ∀ p, ¬ScanHit drive lba adr j p)
    (hn : n ≤ SCAN_CHUNK)
    (hc : ∀ j, 0 ≤ j → j < n →
      ∀ p, ¬(scan_frame (scan_chunk drive lba c).2 j = (p, ACCUDISC_OK) ∧ p.adr = adr)) :
    ∀ j < c * SCAN_CHUNK + n, ∀ p, ¬ScanHit drive lba adr j p := by
  intro j hj p
  by_cases hlt : j < c * SCAN_CHUNK
  · exact hb j hlt p
  · obtain ⟨s, rfl⟩ := Nat.exists_eq_add_of_le (Nat.not_lt.1 hlt)
    rw [scan_hit_chunk (by omega)]
    exact hc s (Nat.zero_le s) (by omega) p

theorem scan_chunks_outcome (turns c : Nat) (hc : c ≤ SCAN_CHUNKS) (hturns : SCAN_CHUNKS < c + turns)
    (hok : ∀ c' < c, (scan_chunk drive lba c').1 = ACCUDISC_OK)
    (hb : ∀ j < c * SCAN_CHUNK, ∀ p, ¬ScanHit drive lba adr j p) :
    ScanOutcome drive lba adr (scan_chunks drive lba adr turns (c * SCAN_CHUNK)) := by
  induction turns generalizing c with
  | zero => omega
  | succ turns ih =>
    rw [scan_chunks]
    by_cases hoff : c * SCAN_CHUNK < SCAN_BUDGET
    · rw [if_pos hoff, show drive (u32 (lba + c * SCAN_CHUNK)) = scan_chunk drive lba c from rfl]
      dsimp only
      have hlt : c < SCAN_CHUNKS := by
        unfold SCAN_CHUNK SCAN_BUDGET at hoff
        unfold SCAN_CHUNKS
        omega
      by_cases hrc : (scan_chunk drive lba c).1 = ACCUDISC_OK
      · have hok' : ∀ c' < c + 1, (scan_chunk drive lba c').1 = ACCUDISC_OK := by
          intro c' hc'
          rcases Nat.lt_succ_iff_lt_or_eq.1 hc' with h | rfl
          · exact hok c' h
          · exact hrc
        rw [if_neg (not_not.2 hrc)]
        rcases @scan_sectors_spec adr (scan_chunk drive lba c).2 SCAN_CHUNK 0 with
          ⟨k, q, -, hk, hsome, hframe, hadr, hbefore⟩ | ⟨hnone, hbefore⟩
        · rw [hsome]
          have hk : k < SCAN_CHUNK := by omega
          have hdiv : (c * SCAN_CHUNK + k) / SCAN_CHUNK = c := by
            unfold SCAN_CHUNK at hk ⊢
            omega
          refine .hit (c * SCAN_CHUNK + k) q ?_ ?_ ((scan_hit_chunk hk).2 ⟨hframe, hadr⟩)
            (scan_before hb (Nat.le_of_lt hk) hbefore)
          · unfold SCAN_CHUNKS SCAN_CHUNK at *
            omega
          · rw [hdiv]
            exact fun c' hc' => hok' c' (by omega)
        · rw [hnone]
          have hnext := ih (c + 1) hlt (by omega) hok' (by
            rw [Nat.succ_mul]
            exact scan_before hb (Nat.le_refl _) fun j h1 h2 => hbefore j h1 (by omega))
          rwa [Nat.succ_mul] at hnext
      · rw [if_pos hrc]
        exact .failed c hlt hrc hok hb
    · rw [if_neg hoff]
      have heq : c = SCAN_CHUNKS := by
        unfold SCAN_CHUNK SCAN_BUDGET at hoff
        unfold SCAN_CHUNKS at hc ⊢
        omega
      subst heq
      exact .absent hok hb

theorem scan_adr_outcome (drive : Nat → Int × Mem) (lba : Nat) (adr : BitVec 8) :
    ScanOutcome drive lba adr (scan_adr drive lba adr true) := by
  have h := @scan_chunks_outcome drive lba adr SCAN_BUDGET 0 (Nat.zero_le _) (by decide)
    (fun c' hc' => absurd hc' (Nat.not_lt_zero c')) fun j hj => absurd hj (by omega)
  rwa [Nat.zero_mul] at h

/-! ## The texts -/

/-- A frame that was decoded has a right CRC, and the text of its mode is whole. -/
theorem accudisc_q_parse_ok {f : Mem} {q : AccuQ} (h : accudisc_q_parse f = (q, ACCUDISC_OK)) :
    q.crc_ok = true ∧ (q.adr = ACCUDISC_Q_MCN → q.mcn.length = 13) ∧
      (q.adr = ACCUDISC_Q_ISRC → q.isrc.length = 12) := by
  unfold accudisc_q_parse at h
  dsimp only at h
  by_cases hcrc : adsc_crc16 f 10 = ~~~((f 10).setWidth 16 <<< 8 ||| (f 11).setWidth 16)
  · simp only [hcrc, decide_true, Bool.not_true, Bool.false_eq_true, if_false] at h
    by_cases hp : f 0 &&& 0x0f = ACCUDISC_Q_POSITION
    · rw [if_pos hp] at h
      cases h
      refine ⟨rfl, fun h => ?_, fun h => ?_⟩
      · exact absurd (hp.symm.trans h) (by decide)
      · exact absurd (hp.symm.trans h) (by decide)
    rw [if_neg hp] at h
    by_cases hm : f 0 &&& 0x0f = ACCUDISC_Q_MCN
    · rw [if_pos hm] at h
      cases h
      refine ⟨rfl, fun _ => by simp, fun h => ?_⟩
      exact absurd (hm.symm.trans h) (by decide)
    rw [if_neg hm] at h
    by_cases hi : f 0 &&& 0x0f = ACCUDISC_Q_ISRC
    · rw [if_pos hi] at h
      cases h
      exact ⟨rfl, fun h => absurd h hm, fun _ => by simp⟩
    · rw [if_neg hi] at h
      cases h
      exact ⟨rfl, fun h => absurd h hm, fun h => absurd h hi⟩
  · simp only [hcrc, decide_false, Bool.not_false, if_true] at h
    exact absurd (show ACCUDISC_ERR_CRC = ACCUDISC_OK from congrArg Prod.snd h) (by decide)

/-- What a scan for a text of `n` characters returned. -/
structure ScanText (drive : Nat → Int × Mem) (lba : Nat) (adr : BitVec 8) (text : AccuQ →
    List (BitVec 8)) (n : Nat)
    (r : Int × Option (List (BitVec 8))) : Prop where
  found : r.1 = ACCUDISC_OK → ∃ k q, k < SCAN_CHUNKS * SCAN_CHUNK ∧ ScanHit drive lba adr k q ∧
    q.crc_ok = true ∧
    (∀ j < k, ∀ p, ¬ScanHit drive lba adr j p) ∧ r.2 = some (text q) ∧ (text q).length = n ∧
      ∃ b ∈ text q, b ≠ 0x30
  absent : r.1 = ACCUDISC_ERR_NOTFOUND →
    (∀ c < SCAN_CHUNKS, (scan_chunk drive lba c).1 ≠ ACCUDISC_ERR_NOTFOUND) →
    ∀ k q, k < SCAN_CHUNKS * SCAN_CHUNK → ScanHit drive lba adr k q →
      (∀ j < k, ∀ p, ¬ScanHit drive lba adr j p) →
      ∀ b ∈ text q, b = 0x30
  failed : r.1 ≠ ACCUDISC_OK → r.2 = none

theorem ScanHit.eq {k : Nat} {p q : AccuQ} (hp : ScanHit drive lba adr k p)
    (hq : ScanHit drive lba adr k q) : p = q :=
  (Prod.mk.inj (hp.1.symm.trans hq.1)).1

theorem scan_text_spec {text : AccuQ → List (BitVec 8)} {n : Nat}
    (hn : ∀ f q, accudisc_q_parse f = (q, ACCUDISC_OK) → q.adr = adr → (text q).length = n)
      (args malloc : Bool) :
    ScanText drive lba adr text n (scan_text drive lba adr text args malloc) := by
  have hnone : ∀ rc, rc ≠ ACCUDISC_OK → rc ≠ ACCUDISC_ERR_NOTFOUND →
    ScanText drive lba adr text n (rc, none) :=
    fun rc h1 h2 => ⟨fun h => absurd h h1, fun h => absurd h h2, fun _ => rfl⟩
  unfold scan_text
  by_cases ha : args = false
  · rw [if_pos ha]
    exact hnone _ (by decide) (by decide)
  rw [if_neg ha]
  by_cases hm : malloc = false
  · rw [hm]
    exact hnone ACCUDISC_ERR_NOMEM (by decide) (by decide)
  obtain rfl : malloc = true := by simpa using hm
  have hout := scan_adr_outcome drive lba adr
  revert hout
  generalize scan_adr drive lba adr true = r
  intro hout
  cases hout with
  | hit k q hk hok hhit hbefore =>
    have hframe := accudisc_q_parse_ok hhit.1
    simp only [ne_eq, not_true_eq_false, if_false]
    by_cases hz : all_zero_digits (text q) = true
    · rw [if_pos hz]
      refine ⟨fun h => absurd h (by decide), fun _ _ k' q' _ hhit' hbefore' b hb => ?_, fun _ => rfl⟩
      have hkk : k' = k := by
        rcases Nat.lt_trichotomy k' k with h | h | h
        · exact absurd hhit' (hbefore k' h q')
        · exact h
        · exact absurd hhit (hbefore' k h q)
      subst hkk
      rw [hhit'.eq hhit] at hb
      exact of_decide_eq_true (List.all_eq_true.1 hz b hb)
    · rw [if_neg hz]
      refine ⟨fun _ => ⟨k, q, hk, hhit, hframe.1, hbefore, rfl, hn _ q hhit.1 hhit.2, ?_⟩,
        fun h => absurd (show ACCUDISC_OK = ACCUDISC_ERR_NOTFOUND from h) (by decide),
          fun h => absurd rfl h⟩
      unfold all_zero_digits at hz
      simp only [List.all_eq_true, decide_eq_true_eq, not_forall] at hz
      obtain ⟨b, hb, hne⟩ := hz
      exact ⟨b, hb, hne⟩
  | failed c hc hrc hok hbefore =>
    exact ⟨fun h => absurd h hrc, fun h hall => absurd h (hall c hc), fun _ => rfl⟩
  | absent hok hbefore =>
    exact ⟨fun h => absurd (show ACCUDISC_ERR_NOTFOUND = ACCUDISC_OK from h) (by decide),
      fun _ _ k q hk hhit _ => absurd hhit (hbefore k hk q), fun _ => rfl⟩

/-- **The MCN and the ISRC of a scan**: a text comes from the first frame of its mode with a right CRC,
and where none is found, the 208 sectors hold none that is not all zeros. -/
theorem accudisc_scan_spec (drive : Nat → Int × Mem) (lba : Nat) (args malloc : Bool) :
    ScanText drive lba ACCUDISC_Q_MCN (·.mcn) 13 (accudisc_scan_mcn drive lba args malloc) ∧
      ScanText drive lba ACCUDISC_Q_ISRC (·.isrc) 12 (accudisc_scan_isrc drive lba args malloc) := by
  constructor
  · exact scan_text_spec (fun f q h hadr => (accudisc_q_parse_ok h).2.1 hadr) args malloc
  · exact scan_text_spec (fun f q h hadr => (accudisc_q_parse_ok h).2.2 hadr) args malloc

end

end Accudisc
