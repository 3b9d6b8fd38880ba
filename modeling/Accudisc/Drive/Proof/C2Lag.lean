import Accudisc.Drive.C2Lag
import Accudisc.Lib.Loop
import Accudisc.Lib.Tally
import Mathlib.Algebra.BigOperators.Ring.Finset
import Mathlib.Algebra.Group.Action.Defs
import Mathlib.Algebra.GroupWithZero.Nat
import Mathlib.Algebra.Order.BigOperators.Group.Finset
import Mathlib.Algebra.Order.BigOperators.Group.List

/-!
# What the C2 lag verdict says

The counters are sums over the pairs (`run_flags`, `run_tp`), so neither the order of the pairs nor that
of the two reads counts (`run_of_refed`). While no counter wraps, the figure of a shift is its hits per
mille (`prec_eq`); a verdict names the only shift with the greatest, and a shift all of whose flags hit
has the greatest there is.
-/

namespace Accudisc

/-! ## The evidence -/

def InSector (t : Int) : Prop := 0 ≤ t ∧ t < ( ACCUDISC_BYTES_AUDIO : Int)

instance (t : Int) : Decidable (InSector t) := by unfold InSector; infer_instance

/-- The flags of a bitmap with a target in the sector, each counted with the weight of its target. -/
def read_score (w : Nat → Nat) (c2 : Buf (BitVec 8) ACCUDISC_BYTES_C2) (idx : Nat) : Nat :=
  ∑ f ∈ Finset.range ACCUDISC_BYTES_AUDIO,
    if c2_fired c2 f ∧ InSector (c2lag_target f idx) then w (c2lag_target f idx).toNat else 0

/-- 1 where the reads of a pair differ. -/
def pair_diff (p : C2Read × C2Read) (i : Nat) : Nat :=
  if Buf.get p.1.audio i ≠ Buf.get p.2.audio i then 1 else 0

/-- The flags of a pair with a target at shift `idx`, weighted. -/
def pair_score (w : Nat → Nat) (p : C2Read × C2Read) (idx : Nat) : Nat :=
  read_score w p.1.c2 idx + read_score w p.2.c2 idx

/-- The flags of all pairs with a target at shift `idx`. -/
def flag_total (ps : List (C2Read × C2Read)) (idx : Nat) : Nat :=
  (ps.map fun p => pair_score (fun _ => 1) p idx).sum

/-- Those whose target differs between the reads. -/
def tp_total (ps : List (C2Read × C2Read)) (idx : Nat) : Nat :=
  (ps.map fun p => pair_score (pair_diff p) p idx).sum

def diff_total (ps : List (C2Read × C2Read)) : Nat :=
  (ps.map fun p => ∑ i ∈ Finset.range ACCUDISC_BYTES_AUDIO, pair_diff p i).sum

/-! ## The counters -/

/-- The part `π` of the accumulator scores at shift `idx` with the weight `w`. -/
def ShiftScores (π : C2LagAcc → BitVec 64) (diff : Nat → BitVec 64) (w : Nat → Nat) (idx : Nat) : Prop :=
  ∀ f, Tallies (· < ADSC_C2LAG_NSHIFT) π (c2lag_add_shift diff f) fun i =>
    if i = idx then
      if InSector (c2lag_target f idx) then ((w (c2lag_target f idx).toNat : Nat) : BitVec 64) else 0
    else 0

section
variable {π : C2LagAcc → BitVec 64} {diff : Nat → BitVec 64} {w : Nat → Nat} {idx : Nat}

theorem add_shift_out {f i : Nat} (acc : C2LagAcc) (h : ¬ InSector (c2lag_target f i)) :
    c2lag_add_shift diff f acc i = acc := by
  unfold c2lag_add_shift
  refine if_pos ?_
  unfold InSector at h
  omega

theorem add_shift_in {f i : Nat} (acc : C2LagAcc) (h : InSector (c2lag_target f i)) :
    c2lag_add_shift diff f acc i =
      { acc with
        flags := Buf.set acc.flags i (Buf.get acc.flags i + 1)
        tp := Buf.set acc.tp i (Buf.get acc.tp i + diff (c2lag_target f i).toNat) } := by
  unfold c2lag_add_shift
  refine if_neg ?_
  obtain ⟨h0, h1⟩ := h
  omega

/-- A counter scores when it does at the targets in the sector. -/
theorem ShiftScores.of_in
    (h : ∀ acc f i, InSector (c2lag_target f i) → π (c2lag_add_shift diff f acc i) =
      if i = idx then π acc + ((w (c2lag_target f i).toNat : Nat) : BitVec 64) else π acc) :
    ShiftScores π diff w idx := by
  intro f acc i _
  by_cases hin : InSector (c2lag_target f i)
  · rw [h acc f i hin]
    by_cases hi : i = idx
    · subst hi
      simp [hin]
    · simp [hi]
  · rw [add_shift_out acc hin]
    by_cases hi : i = idx
    · subst hi
      simp [hin]
    · simp [hi]

theorem flags_scores (diff : Nat → BitVec 64) (hidx : idx < ADSC_C2LAG_NSHIFT) :
    ShiftScores (fun acc => Buf.get acc.flags idx) diff (fun _ => 1) idx := by
  refine .of_in fun acc f i hin => ?_
  simp only [add_shift_in acc hin, Buf.get_set]
  by_cases hi : i = idx
  · subst hi
    simp [hidx]
  · simp [hi, Ne.symm hi]

theorem tp_scores (hw : ∀ t, diff t = ((w t : Nat) : BitVec 64)) (hidx : idx < ADSC_C2LAG_NSHIFT) :
    ShiftScores (fun acc => Buf.get acc.tp idx) diff w idx := by
  refine .of_in fun acc f i hin => ?_
  simp only [add_shift_in acc hin, Buf.get_set]
  by_cases hi : i = idx
  · subst hi
    simp [hidx, hw]
  · simp [hi, Ne.symm hi]

theorem ShiftScores.add_flag (h : ShiftScores π diff w idx) (hidx : idx < ADSC_C2LAG_NSHIFT)
    (c2 : Buf (BitVec 8) ACCUDISC_BYTES_C2) :
    Tallies (· < ACCUDISC_BYTES_AUDIO) π (c2lag_add_flag diff c2) fun f =>
      ((if c2_fired c2 f ∧ InSector (c2lag_target f idx) then w (c2lag_target f idx).toNat else 0 : Nat) :
        BitVec 64) := by
  intro acc f _
  unfold c2lag_add_flag
  by_cases hf : c2_fired c2 f = true
  · rw [if_pos hf, (h f).foldl_range, Finset.sum_ite_eq', if_pos (Finset.mem_range.2 hidx)]
    by_cases hin : InSector (c2lag_target f idx) <;> simp [hf, hin]
  · simp [hf]

theorem ShiftScores.add_read (h : ShiftScores π diff w idx) (hidx : idx < ADSC_C2LAG_NSHIFT)
    (acc : C2LagAcc)
    (c2 : Buf (BitVec 8) ACCUDISC_BYTES_C2) :
    π (c2lag_add_read diff acc c2) = π acc + ((read_score w c2 idx : Nat) : BitVec 64) := by
  unfold c2lag_add_read read_score
  rw [(h.add_flag hidx c2).foldl_range, Nat.cast_sum]

end

theorem c2lag_diff_eq (a b : C2Read) (t : Nat) :
    c2lag_diff a b t = ((pair_diff (a, b) t : Nat) : BitVec 64) := by
  unfold c2lag_diff pair_diff
  by_cases h : Buf.get a.audio t = Buf.get b.audio t <;> simp [h]

/-- What a pair adds to a counter that its differences are no part of. -/
theorem ShiftScores.add_pair {π : C2LagAcc → BitVec 64} {w : Nat → Nat} {idx : Nat} {a b : C2Read}
    (h : ShiftScores π (c2lag_diff a b) w idx) (hidx : idx < ADSC_C2LAG_NSHIFT)
    (hdiff : ∀ acc n, π { acc with diff_bytes := n } = π acc) (acc : C2LagAcc) :
    π (adsc_c2lag_add acc a b) = π acc + ((pair_score w (a, b) idx : Nat) : BitVec 64) := by
  rw [adsc_c2lag_add, List.foldl_cons, List.foldl_cons, List.foldl_nil, pair_score, Nat.cast_add]
  rw [h.add_read hidx, h.add_read hidx, hdiff, add_assoc]

theorem add_shift_diff_bytes (diff : Nat → BitVec 64) (f : Nat) :
    Tallies (fun _ => True) C2LagAcc.diff_bytes (c2lag_add_shift diff f) fun _ => 0 := by
  intro acc i _
  by_cases hin : InSector (c2lag_target f i)
  · rw [add_shift_in acc hin, add_zero]
  · rw [add_shift_out acc hin, add_zero]

theorem add_read_diff_bytes (diff : Nat → BitVec 64) (acc : C2LagAcc)
    (c2 : Buf (BitVec 8) ACCUDISC_BYTES_C2) : (c2lag_add_read diff acc c2).diff_bytes = acc.diff_bytes := by
  have hflag : Tallies (fun _ => True) C2LagAcc.diff_bytes (c2lag_add_flag diff c2) fun _ => 0 := by
    intro acc f _
    unfold c2lag_add_flag
    split
    · rw [(add_shift_diff_bytes diff f).foldl _ (fun _ _ => trivial)]
      simp
    · simp
  unfold c2lag_add_read
  rw [hflag.foldl _ (fun _ _ => trivial)]
  simp

theorem add_diff_bytes (acc : C2LagAcc) (a b : C2Read) :
    (adsc_c2lag_add acc a b).diff_bytes = acc.diff_bytes +
      ((∑ i ∈ Finset.range ACCUDISC_BYTES_AUDIO, pair_diff (a, b) i : Nat) : BitVec 64) := by
  have hdiff := Loop.foldl_range_add (fun i => ((pair_diff (a, b) i : Nat) : BitVec 64))
    (f := fun (n : BitVec 64) i => n + c2lag_diff a b i) (n := ACCUDISC_BYTES_AUDIO)
    (fun i _ n => by rw [c2lag_diff_eq]) acc.diff_bytes
  rw [adsc_c2lag_add, List.foldl_cons, List.foldl_cons, List.foldl_nil, add_read_diff_bytes,
    add_read_diff_bytes, Nat.cast_sum, ← hdiff]

/-! ## The counters of a run -/

/-- A counter to which every pair adds an amount of its own holds their sum. -/
theorem run_tally {f : C2LagAcc → BitVec 64} {g : C2Read × C2Read → Nat} (h0 : f {} = 0)
    (h : ∀ a b acc, f (adsc_c2lag_add acc a b) = f acc + ((g (a, b) : Nat) : BitVec 64))
    (ps : List (C2Read × C2Read)) : f (c2lag_run ps) = (((ps.map g).sum : Nat) : BitVec 64) := by
  have hpair : Tallies (fun _ => True) f (fun acc (p : C2Read × C2Read) => adsc_c2lag_add acc p.1 p.2)
      (fun p => ((g p : Nat) : BitVec 64)) := fun acc ⟨a, b⟩ _ => h a b acc
  have hrun := hpair.foldl ps (fun _ _ => trivial) {}
  rw [c2lag_run, hrun, h0, zero_add, Nat.cast_list_sum, List.map_map]
  rfl

theorem run_flags (ps : List (C2Read × C2Read)) {idx : Nat} (hidx : idx < ADSC_C2LAG_NSHIFT) :
    Buf.get (c2lag_run ps).flags idx = ((flag_total ps idx : Nat) : BitVec 64) := by
  have hpair (a b : C2Read) := (flags_scores (c2lag_diff a b) hidx).add_pair hidx fun _ _ => rfl
  rw [flag_total]
  exact run_tally (f := fun acc => Buf.get acc.flags idx) (g := fun p => pair_score (fun _ => 1) p idx)
    (Buf.get_zeros ..) hpair ps

theorem run_tp (ps : List (C2Read × C2Read)) {idx : Nat} (hidx : idx < ADSC_C2LAG_NSHIFT) :
    Buf.get (c2lag_run ps).tp idx = ((tp_total ps idx : Nat) : BitVec 64) := by
  have hpair (a b : C2Read) := (tp_scores (c2lag_diff_eq a b) hidx).add_pair hidx fun _ _ => rfl
  rw [tp_total]
  exact run_tally (f := fun acc => Buf.get acc.tp idx) (g := fun p => pair_score (pair_diff p) p idx)
    (Buf.get_zeros ..) hpair ps

theorem run_diff_bytes (ps : List (C2Read × C2Read)) :
    (c2lag_run ps).diff_bytes = ((diff_total ps : Nat) : BitVec 64) := by
  rw [diff_total]
  exact run_tally (g := fun p => ∑ i ∈ Finset.range ACCUDISC_BYTES_AUDIO, pair_diff p i) rfl
    (fun a b acc => add_diff_bytes acc a b) ps

/-! ## The order of the pairs and of the reads -/

theorem pair_diff_swap (p : C2Read × C2Read) : pair_diff p.swap = pair_diff p := by
  funext i
  unfold pair_diff
  exact if_congr ⟨Ne.symm, Ne.symm⟩ rfl rfl

theorem pair_score_swap (w : Nat → Nat) (p : C2Read × C2Read) (idx : Nat) :
    pair_score w p.swap idx = pair_score w p idx := Nat.add_comm _ _

/-- The same pairs in another order, some with their two reads exchanged. -/
def Refed (ps qs : List (C2Read × C2Read)) : Prop :=
  ∃ rs, ps.Perm rs ∧ List.Forall₂ (fun p q => q = p ∨ q = p.swap) rs qs

theorem Refed.sum_eq {ps qs : List (C2Read × C2Read)} (h : Refed ps qs) (g : C2Read × C2Read → Nat)
    (hg : ∀ p, g p.swap = g p) : (qs.map g).sum = (ps.map g).sum := by
  obtain ⟨rs, hperm, hall⟩ := h
  rw [(hperm.map g).sum_eq]
  clear hperm
  induction hall with
  | nil => rfl
  | cons hq _ ih =>
    rw [List.map_cons, List.map_cons, List.sum_cons, List.sum_cons, ih]
    rcases hq with rfl | rfl
    · rfl
    · rw [hg]

/-- **The evidence does not depend on the order** of the pairs or of the reads of a pair. -/
theorem run_of_refed {ps qs : List (C2Read × C2Read)} (h : Refed ps qs) :
    c2lag_run qs = c2lag_run ps := by
  have hflags : (c2lag_run qs).flags = (c2lag_run ps).flags := Buf.ext_get fun i hi => by
    have hsum := h.sum_eq (fun p => pair_score (fun _ => 1) p i) fun p => pair_score_swap _ p i
    rw [run_flags qs hi, run_flags ps hi, flag_total, flag_total, hsum]
  have htp : (c2lag_run qs).tp = (c2lag_run ps).tp := Buf.ext_get fun i hi => by
    have hsum := h.sum_eq (fun p => pair_score (pair_diff p) p i) fun p => by
      rw [pair_diff_swap, pair_score_swap]
    rw [run_tp qs hi, run_tp ps hi, tp_total, tp_total, hsum]
  have hdiff : (c2lag_run qs).diff_bytes = (c2lag_run ps).diff_bytes := by
    have hsum := h.sum_eq (fun p => ∑ i ∈ Finset.range ACCUDISC_BYTES_AUDIO, pair_diff p i) fun p => by
      rw [pair_diff_swap]
    rw [run_diff_bytes, run_diff_bytes, diff_total, diff_total, hsum]
  rcases hq : c2lag_run qs with ⟨tp, flags, diff_bytes⟩
  rcases hp : c2lag_run ps with ⟨tp', flags', diff_bytes'⟩
  rw [hq, hp] at hflags htp hdiff
  simp only at hflags htp hdiff
  rw [hflags, htp, hdiff]

/-! ## The figures -/

/-- The thousandfold of every counter fits 64 bits. -/
def Fits (ps : List (C2Read × C2Read)) : Prop :=
  ∀ idx < ADSC_C2LAG_NSHIFT, 1000 * flag_total ps idx < 2 ^ 64

/-- The hits of a shift per mille of its flags. -/
def per_mille (ps : List (C2Read × C2Read)) (idx : Nat) : Nat :=
  1000 * tp_total ps idx / flag_total ps idx

theorem read_score_mono {w w' : Nat → Nat} (h : ∀ t, w t ≤ w' t) (c2 : Buf (BitVec 8) ACCUDISC_BYTES_C2)
    (idx : Nat) : read_score w c2 idx ≤ read_score w' c2 idx := by
  refine Finset.sum_le_sum fun f _ => ?_
  split
  · exact h _
  · exact Nat.le_refl _

theorem pair_diff_le (p : C2Read × C2Read) (i : Nat) : pair_diff p i ≤ 1 := by
  unfold pair_diff
  split <;> omega

theorem tp_total_le (ps : List (C2Read × C2Read)) (idx : Nat) : tp_total ps idx ≤ flag_total ps idx :=
  List.sum_le_sum fun p _ =>
    Nat.add_le_add (read_score_mono (pair_diff_le p) _ _) (read_score_mono (pair_diff_le p) _ _)

theorem per_mille_le (ps : List (C2Read × C2Read)) (idx : Nat) : per_mille ps idx ≤ 1000 := by
  have h := tp_total_le ps idx
  exact Nat.div_le_of_le_mul (by rw [Nat.mul_comm]; exact Nat.mul_le_mul_right 1000 h)

theorem toNat_cast64 {n : Nat} (h : n < 2 ^ 64) : ((n : Nat) : BitVec 64).toNat = n := by
  rw [BitVec.natCast_eq_ofNat, BitVec.toNat_ofNat, Nat.mod_eq_of_lt h]

/-- While no counter wraps, `prec[i]` is the hits per mille. -/
theorem prec_eq {ps : List (C2Read × C2Read)} (h : Fits ps) {idx : Nat} (hidx : idx < ADSC_C2LAG_NSHIFT) :
    (c2lag_prec (c2lag_run ps) idx).toNat = per_mille ps idx := by
  have hfit := h idx hidx
  have hle := tp_total_le ps idx
  have hflags : (Buf.get (c2lag_run ps).flags idx).toNat = flag_total ps idx := by
    rw [run_flags ps hidx, toNat_cast64 (by omega)]
  have htp : (Buf.get (c2lag_run ps).tp idx).toNat = tp_total ps idx := by
    rw [run_tp ps hidx, toNat_cast64 (by omega)]
  have hprod : (Buf.get (c2lag_run ps).tp idx * 1000).toNat = 1000 * tp_total ps idx := by
    rw [BitVec.toNat_mul, htp, Nat.mul_comm]
    exact Nat.mod_eq_of_lt (by change 1000 * tp_total ps idx < 2 ^ 64; omega)
  have hmille := per_mille_le ps idx
  unfold c2lag_prec
  split
  · rw [BitVec.toNat_setWidth, BitVec.toNat_udiv, hprod, hflags]
    exact Nat.mod_eq_of_lt (by unfold per_mille at hmille; omega)
  · rename_i hz
    have hz' : flag_total ps idx = 0 := by
      rw [← hflags, not_not.1 hz]; rfl
    rw [per_mille, hz', Nat.div_zero]
    rfl

theorem read_score_le (c2 : Buf (BitVec 8) ACCUDISC_BYTES_C2) (idx : Nat) :
    read_score (fun _ => 1) c2 idx ≤ ACCUDISC_BYTES_AUDIO := by
  have h := Finset.sum_le_card_nsmul (Finset.range ACCUDISC_BYTES_AUDIO)
    (fun f => if c2_fired c2 f ∧ InSector (c2lag_target f idx) then 1 else 0) 1
    (fun f _ => by split <;> omega)
  rwa [Finset.card_range, smul_eq_mul, Nat.mul_one] at h

/-- Some four million million pairs fit; the probe feeds 1152 at most. -/
theorem fits_of_length {ps : List (C2Read × C2Read)}
    (h : 1000 * (2 * ACCUDISC_BYTES_AUDIO) * ps.length < 2 ^ 64) : Fits ps := by
  intro idx _
  have hle : flag_total ps idx ≤ ps.length * (2 * ACCUDISC_BYTES_AUDIO) := by
    have hsum := List.sum_le_card_nsmul (ps.map fun p => pair_score (fun _ => 1) p idx)
      (2 * ACCUDISC_BYTES_AUDIO) fun n hn => by
        obtain ⟨p, -, rfl⟩ := List.mem_map.1 hn
        have h1 := read_score_le p.1.c2 idx
        have h2 := read_score_le p.2.c2 idx
        unfold pair_score
        omega
    rwa [List.length_map, smul_eq_mul] at hsum
  calc 1000 * flag_total ps idx ≤ 1000 * (ps.length * (2 * ACCUDISC_BYTES_AUDIO)) :=
        Nat.mul_le_mul_left 1000 hle
    _ = 1000 * (2 * ACCUDISC_BYTES_AUDIO) * ps.length := by
        rw [Nat.mul_comm ps.length, ← Nat.mul_assoc]
    _ < 2 ^ 64 := h

/-! ## The verdict -/

theorem best_spec (acc : C2LagAcc) :
    c2lag_best acc < ADSC_C2LAG_NSHIFT ∧
      ∀ i < ADSC_C2LAG_NSHIFT, (c2lag_prec acc i).toNat ≤ (c2lag_prec acc (c2lag_best acc)).toNat := by
  unfold c2lag_best
  refine Loop.foldl_range_inv
    (fun n best => best < ADSC_C2LAG_NSHIFT ∧
      ∀ i < n, (c2lag_prec acc i).toNat ≤ (c2lag_prec acc best).toNat)
    ⟨by decide, fun i hi => absurd hi (Nat.not_lt_zero i)⟩ ?_
  intro n hn best ⟨hlt, hmax⟩
  by_cases hgt : c2lag_prec acc n > c2lag_prec acc best
  · rw [if_pos hgt]
    have hgt' : (c2lag_prec acc best).toNat < (c2lag_prec acc n).toNat := hgt
    refine ⟨hn, fun i hi => ?_⟩
    rcases Nat.lt_succ_iff_lt_or_eq.1 hi with hi | rfl
    · exact (hmax i hi).trans hgt'.le
    · exact Nat.le_refl _
  · rw [if_neg hgt]
    have hge : (c2lag_prec acc n).toNat ≤ (c2lag_prec acc best).toNat := Nat.not_lt.1 hgt
    refine ⟨hlt, fun i hi => ?_⟩
    rcases Nat.lt_succ_iff_lt_or_eq.1 hi with hi | rfl
    · exact hmax i hi
    · exact hge

/-- The runner-up bounds every other figure and is one of them, or 0. -/
theorem runner_spec (acc : C2LagAcc) (best : Nat) :
    (∀ i < ADSC_C2LAG_NSHIFT, i ≠ best → (c2lag_prec acc i).toNat ≤ (c2lag_runner acc best).toNat) ∧
      (c2lag_runner acc best = 0 ∨
        ∃ i < ADSC_C2LAG_NSHIFT, i ≠ best ∧ c2lag_runner acc best = c2lag_prec acc i) := by
  unfold c2lag_runner
  refine Loop.foldl_range_inv
    (fun n runner => (∀ i < n, i ≠ best → (c2lag_prec acc i).toNat ≤ runner.toNat) ∧
      (runner = 0 ∨ ∃ i < ADSC_C2LAG_NSHIFT, i ≠ best ∧ runner = c2lag_prec acc i))
    ⟨fun i hi => absurd hi (Nat.not_lt_zero i), .inl rfl⟩ ?_
  intro n hn runner ⟨hmax, hmem⟩
  by_cases hgt : n ≠ best ∧ c2lag_prec acc n > runner
  · rw [if_pos hgt]
    have hgt' : runner.toNat < (c2lag_prec acc n).toNat := hgt.2
    refine ⟨fun i hi hne => ?_, .inr ⟨n, hn, hgt.1, rfl⟩⟩
    rcases Nat.lt_succ_iff_lt_or_eq.1 hi with hi | rfl
    · exact (hmax i hi hne).trans hgt'.le
    · exact Nat.le_refl _
  · rw [if_neg hgt]
    refine ⟨fun i hi hne => ?_, hmem⟩
    rcases Nat.lt_succ_iff_lt_or_eq.1 hi with hi | rfl
    · exact hmax i hi hne
    · exact Nat.not_lt.1 fun h => hgt ⟨hne, h⟩

/-- The verdict names the shift `best` of the counters. -/
theorem result_lag (acc : C2LagAcc) (out : C2LagOut) :
    (adsc_c2lag_result acc out).2.lag_pairs = (c2lag_best acc : Int) - ADSC_C2LAG_MAX_SHIFT := by
  simp only [adsc_c2lag_result]
  split <;> rfl

theorem result_code (acc : C2LagAcc) (out : C2LagOut) :
    (adsc_c2lag_result acc out).1 = ACCUDISC_ERR_NOTFOUND ∨
      (adsc_c2lag_result acc out).1 = ACCUDISC_OK := by
  simp only [adsc_c2lag_result]
  split
  · exact .inl rfl
  · exact .inr rfl

/-- A verdict has the figure over the floor and the contrast. -/
theorem result_ok {acc : C2LagAcc} {out : C2LagOut} (h : (adsc_c2lag_result acc out).1 = ACCUDISC_OK) :
    ¬ c2lag_prec acc (c2lag_best acc) < ADSC_C2LAG_MIN_PEAK_MILLI ∧
      ¬ c2lag_prec acc (c2lag_best acc) <
        ADSC_C2LAG_MIN_CONTRAST * c2lag_runner acc (c2lag_best acc) := by
  simp only [adsc_c2lag_result] at h
  split at h
  · exact absurd (show ACCUDISC_ERR_NOTFOUND = ACCUDISC_OK from h) (by decide)
  · rename_i hc
    exact ⟨fun h1 => hc (.inr (.inr (.inr (.inl h1)))), fun h1 => hc (.inr (.inr (.inr (.inr h1))))⟩

/-- **A verdict dominates**: every other shift's figure is at most a third of the named one's. -/
theorem verdict_dominates {ps : List (C2Read × C2Read)} (hfit : Fits ps) {out : C2LagOut}
    (h : (adsc_c2lag_result (c2lag_run ps) out).1 = ACCUDISC_OK) :
    100 ≤ per_mille ps (c2lag_best (c2lag_run ps)) ∧
      ∀ i < ADSC_C2LAG_NSHIFT, i ≠ c2lag_best (c2lag_run ps) →
        3 * per_mille ps i ≤ per_mille ps (c2lag_best (c2lag_run ps)) := by
  obtain ⟨hbest, -⟩ := best_spec (c2lag_run ps)
  obtain ⟨hmax, hmem⟩ := runner_spec (c2lag_run ps) (c2lag_best (c2lag_run ps))
  obtain ⟨hpeak, hcontrast⟩ := result_ok h
  have hpeak' : 100 ≤ (c2lag_prec (c2lag_run ps) (c2lag_best (c2lag_run ps))).toNat := Nat.not_lt.1 hpeak
  rw [prec_eq hfit hbest] at hpeak'
  refine ⟨hpeak', fun i hi hne => ?_⟩
  -- the runner-up is a figure, so its triple does not wrap
  have hrunner : (c2lag_runner (c2lag_run ps) (c2lag_best (c2lag_run ps))).toNat ≤ 1000 := by
    rcases hmem with h0 | ⟨j, hj, -, hj'⟩
    · rw [h0]; decide
    · rw [hj', prec_eq hfit hj]
      exact per_mille_le ps j
  have htriple : (ADSC_C2LAG_MIN_CONTRAST * c2lag_runner (c2lag_run ps) (c2lag_best (c2lag_run ps))).toNat =
      3 * (c2lag_runner (c2lag_run ps) (c2lag_best (c2lag_run ps))).toNat := by
    rw [BitVec.toNat_mul]
    exact Nat.mod_eq_of_lt (by change 3 * _ < 2 ^ 32; omega)
  have hle := hmax i hi hne
  have hge : (ADSC_C2LAG_MIN_CONTRAST * c2lag_runner (c2lag_run ps) (c2lag_best (c2lag_run ps))).toNat ≤
      (c2lag_prec (c2lag_run ps) (c2lag_best (c2lag_run ps))).toNat := Nat.not_lt.1 hcontrast
  rw [htriple, prec_eq hfit hbest] at hge
  rw [prec_eq hfit hi] at hle
  omega

/-! ## The right shift -/

/-- Flag `f` is fired in one of the two reads. -/
def Fires (p : C2Read × C2Read) (f : Nat) : Prop :=
  f < ACCUDISC_BYTES_AUDIO ∧ (c2_fired p.1.c2 f = true ∨ c2_fired p.2.c2 f = true)

/-- Every fired flag with a target at lag `L` marks a byte that differs. -/
def MarksDiffs (L : Int) (p : C2Read × C2Read) : Prop :=
  ∀ f, Fires p f → InSector ((f : Int) - 4 * L) →
    Buf.get p.1.audio ((f : Int) - 4 * L).toNat ≠ Buf.get p.2.audio ((f : Int) - 4 * L).toNat

/-- Some fired flag has a target at lag `L`. -/
def HasTarget (L : Int) (p : C2Read × C2Read) : Prop :=
  ∃ f, Fires p f ∧ InSector ((f : Int) - 4 * L)

/-- The index of a lag. -/
def shift_of (L : Int) : Nat := (L + ADSC_C2LAG_MAX_SHIFT).toNat

section
variable {L : Int} (hlo : -8 ≤ L) (hhi : L ≤ 8)
include hlo

theorem target_shift_of (f : Nat) : c2lag_target f (shift_of L) = (f : Int) - 4 * L := by
  unfold c2lag_target shift_of ADSC_C2LAG_MAX_SHIFT
  omega

theorem pair_score_marks {p : C2Read × C2Read} (h : MarksDiffs L p) :
    pair_score (pair_diff p) p (shift_of L) = pair_score (fun _ => 1) p (shift_of L) := by
  have hread : ∀ c2, (∀ f < ACCUDISC_BYTES_AUDIO, c2_fired c2 f = true → Fires p f) →
      read_score (pair_diff p) c2 (shift_of L) = read_score (fun _ => 1) c2 (shift_of L) := by
    intro c2 hc2
    refine Finset.sum_congr rfl fun f hf => ?_
    split
    · rename_i hin
      rw [target_shift_of hlo] at hin ⊢
      exact if_pos (h f (hc2 f (Finset.mem_range.1 hf) hin.1) hin.2)
    · rfl
  unfold pair_score
  rw [hread _ fun f hf hfire => ⟨hf, .inl hfire⟩, hread _ fun f hf hfire => ⟨hf, .inr hfire⟩]

theorem pair_score_pos {p : C2Read × C2Read} (h : HasTarget L p) :
    0 < pair_score (fun _ => 1) p (shift_of L) := by
  obtain ⟨f, ⟨hf, hfire⟩, hin⟩ := h
  have hread : ∀ c2, c2_fired c2 f = true → 0 < read_score (fun _ => 1) c2 (shift_of L) := by
    intro c2 hc2
    refine Finset.sum_pos' (fun _ _ => Nat.zero_le _) ⟨f, Finset.mem_range.2 hf, ?_⟩
    rw [if_pos ⟨hc2, by rw [target_shift_of hlo]; exact hin⟩]
    exact Nat.one_pos
  unfold pair_score
  rcases hfire with hfire | hfire
  · have := hread _ hfire
    omega
  · have := hread _ hfire
    omega

theorem per_mille_marks {ps : List (C2Read × C2Read)} (h : ∀ p ∈ ps, MarksDiffs L p)
    (hex : ∃ p ∈ ps, HasTarget L p) : per_mille ps (shift_of L) = 1000 := by
  have heq : tp_total ps (shift_of L) = flag_total ps (shift_of L) := by
    unfold tp_total flag_total
    rw [List.map_congr_left fun p hp => pair_score_marks hlo (h p hp)]
  have hpos : 0 < flag_total ps (shift_of L) := by
    obtain ⟨p, hp, ht⟩ := hex
    exact (pair_score_pos hlo ht).trans_le (List.le_sum_of_mem (List.mem_map_of_mem hp))
  rw [per_mille, heq, Nat.mul_div_cancel _ hpos]

end

/-! ## A counter that wraps -/

/-- A read whose audio has the bytes `audio` and whose bitmap flags the first byte, or none. -/
def flag_first (audio : Nat → BitVec 8) (fired : Bool) : C2Read where
  audio := Buf.fill _ audio
  c2 := Buf.fill _ fun i => if fired ∧ i = 0 then 0x80 else 0

/-- One flag, on byte 0; the reads differ at bytes 0 and, with `fourth`, 4. -/
def flagged_pair (fourth : Bool) : C2Read × C2Read :=
  (flag_first (fun i => if i = 0 ∨ (fourth ∧ i = 4) then 1 else 0) true, flag_first (fun _ => 0) false)

theorem flag_first_fired (audio : Nat → BitVec 8) (fired : Bool) {f : Nat} (hf : f < ACCUDISC_BYTES_AUDIO) :
    c2_fired (flag_first audio fired).c2 f = (fired && decide (f = 0)) := by
  have hf' : f < 2352 := hf
  have hdiv : f >>> 3 = f / 8 := Nat.shiftRight_eq_div_pow f 3
  have hlt : f / 8 < ACCUDISC_BYTES_C2 := by unfold ACCUDISC_BYTES_C2; omega
  have hbyte : Buf.get (flag_first audio fired).c2 (f / 8) = if fired ∧ f / 8 = 0 then 0x80 else 0 := by
    unfold flag_first
    rw [Buf.get_fill, if_pos hlt]
  have h8 : ∀ b : Bool, ∀ g < 8,
      decide (((if b = true then (0x80 : BitVec 8) else 0) >>> (7 - (g &&& 7))) &&& 1 ≠ 0) =
        (b && decide (g = 0)) := by
    decide
  unfold c2_fired
  rw [hdiv, hbyte]
  by_cases h0 : f < 8
  · have := h8 fired f h0
    simpa [Nat.div_eq_of_lt h0] using this
  · have h1 : ¬ f / 8 = 0 := by omega
    have h2 : ¬ f = 0 := by omega
    simp [h1, h2]

theorem read_score_flag_first (w : Nat → Nat) (audio : Nat → BitVec 8) (fired : Bool) (idx : Nat) :
    read_score w (flag_first audio fired).c2 idx =
      if fired ∧ InSector (c2lag_target 0 idx) then w (c2lag_target 0 idx).toNat else 0 := by
  have hterm : ∀ f ∈ Finset.range ACCUDISC_BYTES_AUDIO,
      (if c2_fired (flag_first audio fired).c2 f ∧ InSector (c2lag_target f idx) then
          w (c2lag_target f idx).toNat else 0) =
        if f = 0 then
          (if fired ∧ InSector (c2lag_target 0 idx) then w (c2lag_target 0 idx).toNat else 0) else 0 := by
    intro f hf
    rw [flag_first_fired _ _ (Finset.mem_range.1 hf)]
    by_cases h0 : f = 0
    · subst h0; simp
    · simp [h0]
  rw [read_score, Finset.sum_congr rfl hterm, Finset.sum_ite_eq',
    if_pos (Finset.mem_range.2 (by decide))]

theorem pair_score_flagged (w : Nat → Nat) (fourth : Bool) (idx : Nat) :
    pair_score w (flagged_pair fourth) idx =
      if InSector (c2lag_target 0 idx) then w (c2lag_target 0 idx).toNat else 0 := by
  unfold pair_score flagged_pair
  rw [read_score_flag_first, read_score_flag_first]
  simp

theorem pair_diff_flagged (fourth : Bool) {i : Nat} (hi : i < ACCUDISC_BYTES_AUDIO) :
    pair_diff (flagged_pair fourth) i = if i = 0 ∨ (fourth ∧ i = 4) then 1 else 0 := by
  unfold pair_diff flagged_pair flag_first
  rw [Buf.get_fill, Buf.get_fill, if_pos hi, if_pos hi]
  by_cases h : i = 0 ∨ (fourth ∧ i = 4) <;> simp [h]

/-- One pair without the second difference, then `n` with it. -/
def wrapping_pairs (n : Nat) : List (C2Read × C2Read) :=
  flagged_pair false :: List.replicate n (flagged_pair true)

theorem wrapping_sum (g : C2Read × C2Read → Nat) (n : Nat) :
    ((wrapping_pairs n).map g).sum = g (flagged_pair false) + n * g (flagged_pair true) := by
  rw [wrapping_pairs, List.map_cons, List.sum_cons, List.map_replicate, List.sum_replicate, smul_eq_mul]

theorem target_zero (idx : Nat) : c2lag_target 0 idx = 32 - 4 * (idx : Int) := by
  unfold c2lag_target ADSC_C2LAG_MAX_SHIFT
  omega

theorem wrapping_flags (n idx : Nat) : flag_total (wrapping_pairs n) idx = if idx ≤ 8 then
    n + 1 else 0 := by
  have hin : InSector (c2lag_target 0 idx) ↔ idx ≤ 8 := by
    rw [target_zero]
    unfold InSector ACCUDISC_BYTES_AUDIO
    omega
  rw [flag_total, wrapping_sum, pair_score_flagged, pair_score_flagged]
  simp only [hin]
  split <;> omega

theorem wrapping_tp (n idx : Nat) :
    tp_total (wrapping_pairs n) idx = if idx = 8 then n + 1 else if idx = 7 then n else 0 := by
  have hscore : ∀ fourth, pair_score (pair_diff (flagged_pair fourth)) (flagged_pair fourth) idx =
      if idx = 8 ∨ (fourth ∧ idx = 7) then 1 else 0 := by
    intro fourth
    rw [pair_score_flagged, target_zero]
    by_cases h : idx ≤ 8
    · have hlt : (32 - 4 * (idx : Int)).toNat < ACCUDISC_BYTES_AUDIO := by
        unfold ACCUDISC_BYTES_AUDIO
        omega
      have hin : InSector (32 - 4 * (idx : Int)) := by
        unfold InSector ACCUDISC_BYTES_AUDIO
        omega
      have h0 : (32 - 4 * (idx : Int)).toNat = 0 ↔ idx = 8 := by omega
      have h4 : (32 - 4 * (idx : Int)).toNat = 4 ↔ idx = 7 := by omega
      rw [if_pos hin, pair_diff_flagged fourth hlt]
      simp only [h0, h4]
    · have hin : ¬ InSector (32 - 4 * (idx : Int)) := by
        unfold InSector
        omega
      rw [if_neg hin, if_neg (by omega)]
  rw [tp_total, wrapping_sum, hscore, hscore]
  by_cases h8 : idx = 8
  · simp [h8]
    omega
  · by_cases h7 : idx = 7 <;> simp [h8, h7]

theorem wrapping_diff (n : Nat) : diff_total (wrapping_pairs n) = 2 * n + 1 := by
  have hsum : ∀ fourth : Bool, ∑ i ∈ Finset.range ACCUDISC_BYTES_AUDIO, pair_diff (flagged_pair fourth) i =
      1 + fourth.toNat := by
    intro fourth
    have hterm : ∀ i ∈ Finset.range ACCUDISC_BYTES_AUDIO, pair_diff (flagged_pair fourth) i =
        (if i = 0 then 1 else 0) + if i = 4 then fourth.toNat else 0 := by
      intro i hi
      rw [pair_diff_flagged fourth (Finset.mem_range.1 hi)]
      by_cases h0 : i = 0
      · simp [h0]
      · by_cases h4 : i = 4 <;> cases fourth <;> simp [h0, h4]
    rw [Finset.sum_congr rfl hterm, Finset.sum_add_distrib, Finset.sum_ite_eq', Finset.sum_ite_eq',
      if_pos (Finset.mem_range.2 (by decide)), if_pos (Finset.mem_range.2 (by decide))]
  rw [diff_total, wrapping_sum, hsum, hsum]
  change 1 + 0 + n * (1 + 1) = _
  omega

/-- So many pairs that the thousandfold of their number just wraps. -/
def WRAPPING : Nat := 18446744073709551

/-- The figures after the wrap: the shift all of whose flags hit has 0. -/
theorem wrapping_prec {i : Nat} (hi : i < ADSC_C2LAG_NSHIFT) :
    c2lag_prec (c2lag_run (wrapping_pairs WRAPPING)) i = if i = 7 then 999 else 0 := by
  unfold c2lag_prec
  rw [run_flags _ hi, run_tp _ hi, wrapping_flags, wrapping_tp, BitVec.natCast_eq_ofNat,
    BitVec.natCast_eq_ofNat]
  have hi' : i < 17 := hi
  clear hi
  revert i
  decide

theorem wrapping_best : c2lag_best (c2lag_run (wrapping_pairs WRAPPING)) = 7 := by
  obtain ⟨hlt, hmax⟩ := best_spec (c2lag_run (wrapping_pairs WRAPPING))
  have h7 := hmax 7 (by decide)
  rw [wrapping_prec (by decide), wrapping_prec hlt, if_pos rfl] at h7
  by_contra hne
  rw [if_neg hne] at h7
  exact absurd h7 (by decide)

theorem wrapping_runner : c2lag_runner (c2lag_run (wrapping_pairs WRAPPING)) 7 = 0 := by
  rcases (runner_spec (c2lag_run (wrapping_pairs WRAPPING)) 7).2 with h0 | ⟨i, hi, hne, h⟩
  · exact h0
  · rw [h, wrapping_prec hi, if_neg hne]

/-- The verdict of a run past the wrap: a shift of one pair, over an honest lag of 0. -/
theorem wrapping_verdict (out : C2LagOut) :
    (adsc_c2lag_result (c2lag_run (wrapping_pairs WRAPPING)) out).1 = ACCUDISC_OK ∧
      (adsc_c2lag_result (c2lag_run (wrapping_pairs WRAPPING)) out).2.lag_pairs = -1 := by
  have hlag := result_lag (c2lag_run (wrapping_pairs WRAPPING)) out
  rw [wrapping_best] at hlag
  refine ⟨?_, hlag⟩
  simp only [adsc_c2lag_result]
  rw [wrapping_best, wrapping_runner, wrapping_prec (by decide), run_flags _ (by decide),
    run_tp _ (by decide), run_diff_bytes, wrapping_flags, wrapping_tp, wrapping_diff]
  rw [if_neg (by decide)]

theorem flagged_marks (fourth : Bool) :
    MarksDiffs 0 (flagged_pair fourth) ∧ HasTarget 0 (flagged_pair fourth) := by
  refine ⟨fun f ⟨hf, hfire⟩ _ => ?_, 0, ⟨by decide, .inl ?_⟩, by decide⟩
  · have h0 : f = 0 := by
      rcases hfire with h | h
      · rw [flagged_pair, flag_first_fired _ _ hf] at h
        simpa using h
      · rw [flagged_pair, flag_first_fired _ _ hf] at h
        simp at h
    subst h0
    have hdiff := pair_diff_flagged fourth (show 0 < ACCUDISC_BYTES_AUDIO by decide)
    rw [if_pos (.inl rfl), pair_diff] at hdiff
    by_contra heq
    have heq0 : Buf.get (flagged_pair fourth).1.audio 0 = Buf.get (flagged_pair fourth).2.audio 0 := heq
    rw [if_neg (not_not.2 heq0)] at hdiff
    exact absurd hdiff (by decide)
  · rw [flagged_pair, flag_first_fired _ _ (by decide)]
    rfl

theorem wrapping_marks : ∀ p ∈ wrapping_pairs WRAPPING, MarksDiffs 0 p ∧ HasTarget 0 p := by
  intro p hp
  rcases List.mem_cons.1 hp with rfl | hp
  · exact flagged_marks false
  · rw [List.eq_of_mem_replicate hp]
    exact flagged_marks true

/-- Past the wrap the verdict can name a wrong lag. -/
theorem c2lag_verdict_wraps :
    ∃ (ps : List (C2Read × C2Read)) (out : C2LagOut),
      (∀ p ∈ ps, MarksDiffs 0 p) ∧ (∃ p ∈ ps, HasTarget 0 p) ∧
      (adsc_c2lag_result (c2lag_run ps) out).1 = ACCUDISC_OK ∧
      (adsc_c2lag_result (c2lag_run ps) out).2.lag_pairs ≠ 0 := by
  obtain ⟨hok, hlag⟩ := wrapping_verdict {}
  refine ⟨wrapping_pairs WRAPPING, {}, fun p hp => (wrapping_marks p hp).1,
    ⟨flagged_pair false, List.mem_cons_self, (wrapping_marks _ List.mem_cons_self).2⟩, hok, ?_⟩
  rw [hlag]
  decide

/-- A verdict over evidence that no counter wraps on is the lag that marks every difference. -/
theorem verdict_named {ps : List (C2Read × C2Read)} {out : C2LagOut} (hfit : Fits ps)
    (hok : (adsc_c2lag_result (c2lag_run ps) out).1 = ACCUDISC_OK) {L : Int} (hlo : -8 ≤ L) (hhi : L ≤ 8)
    (hmark : ∀ p ∈ ps, MarksDiffs L p) (hex : ∃ p ∈ ps, HasTarget L p) :
    (adsc_c2lag_result (c2lag_run ps) out).2.lag_pairs = L := by
  obtain ⟨-, hdom⟩ := verdict_dominates hfit hok
  have hshift : shift_of L < ADSC_C2LAG_NSHIFT := by
    unfold shift_of ADSC_C2LAG_NSHIFT ADSC_C2LAG_MAX_SHIFT
    omega
  have hbest : shift_of L = c2lag_best (c2lag_run ps) := by
    by_contra hne
    have hthird := hdom (shift_of L) hshift hne
    have hle := per_mille_le ps (c2lag_best (c2lag_run ps))
    -- a better shift would have three times 1000
    rw [per_mille_marks hlo hmark hex] at hthird
    omega
  rw [result_lag, ← hbest]
  unfold shift_of ADSC_C2LAG_MAX_SHIFT
  omega

/-- **The verdict is sound while no counter wraps**, and the evidence never depends on the order. -/
theorem c2lag_verdict_sound (ps : List (C2Read × C2Read)) (out : C2LagOut) :
    (Fits ps →
      (∀ L : Int, -8 ≤ L → L ≤ 8 → (∀ p ∈ ps, MarksDiffs L p) → (∃ p ∈ ps, HasTarget L p) →
        (adsc_c2lag_result (c2lag_run ps) out).1 = ACCUDISC_ERR_NOTFOUND ∨
        ((adsc_c2lag_result (c2lag_run ps) out).1 = ACCUDISC_OK ∧
          (adsc_c2lag_result (c2lag_run ps) out).2.lag_pairs = L)) ∧
      ((adsc_c2lag_result (c2lag_run ps) out).1 = ACCUDISC_OK →
        ∃ best < ADSC_C2LAG_NSHIFT,
          (adsc_c2lag_result (c2lag_run ps) out).2.lag_pairs = (best : Int) - ADSC_C2LAG_MAX_SHIFT ∧
          ∀ i < ADSC_C2LAG_NSHIFT, i ≠ best →
            per_mille ps i < per_mille ps best ∧ 3 * per_mille ps i ≤ per_mille ps best)) ∧
    ∀ qs, Refed ps qs → c2lag_run qs = c2lag_run ps := by
  refine ⟨fun hfit => ⟨fun L hlo hhi hmark hex => ?_, fun hok => ?_⟩, fun qs => run_of_refed⟩
  · rcases result_code (c2lag_run ps) out with hno | hok
    · exact .inl hno
    · exact .inr ⟨hok, verdict_named hfit hok hlo hhi hmark hex⟩
  · obtain ⟨hpeak, hdom⟩ := verdict_dominates hfit hok
    refine ⟨_, (best_spec _).1, result_lag _ _, fun i hi hne => ?_⟩
    have h3 := hdom i hi hne
    exact ⟨by omega, h3⟩

theorem c2lag_verdict_sound_one :
    (adsc_c2lag_result (c2lag_run [flagged_pair true]) {}).1 = ACCUDISC_ERR_NOTFOUND ∨
      ((adsc_c2lag_result (c2lag_run [flagged_pair true]) {}).1 = ACCUDISC_OK ∧
        (adsc_c2lag_result (c2lag_run [flagged_pair true]) {}).2.lag_pairs = 0) := by
  have hfit : Fits [flagged_pair true] := fits_of_length (by decide)
  refine ((c2lag_verdict_sound [flagged_pair true] {}).1 hfit).1 0 (by decide) (by decide) ?_ ?_
  · intro p hp
    rw [List.mem_singleton.1 hp]
    exact (flagged_marks true).1
  · exact ⟨_, List.mem_singleton_self _, (flagged_marks true).2⟩

end Accudisc
