import Accudisc.Repair.Proof.CtdbColumn

/-!
# Pass 2 gathers every column's corrections

`Pass2Inv` is what the column loop keeps: the counters count the columns so far and the held corrections
are the columns' corrections in order. No column leaves the loop, as the corrections fit the
array (`pass2_inv`).
-/

namespace Accudisc

section
variable (m : Mem) (req : CtdbReq) (acc : Nat → Gf16) (c : Nat)

/-- The column disagrees with the published parity. -/
def Dirty : Prop := ∃ r < req.npar.toNat, column_error m req acc c r ≠ 0

instance : Decidable (Dirty m req acc c) :=
  decidable_of_iff (∃ r ∈ List.range req.npar.toNat, column_error m req acc c r ≠ 0)
    (by simp [Dirty])

/-- The first decode, with the column's erasures. -/
def column_first : ColumnDecode :=
  column_decode req (column_error m req acc c) (erasure_scan m req c)

/-- The decode that counts. -/
def column_final : ColumnDecode :=
  if (column_first m req acc c).n ≤ 0 ∧ (erasure_scan m req c).length ≠ 0 then
    column_decode req (column_error m req acc c) []
  else column_first m req acc c

/-- Decoded with as many erasures as parity symbols. -/
def Determined : Prop := Dirty m req acc c ∧ 0 < (column_first m req acc c).n ∧
  (erasure_scan m req c).length = req.npar.toNat

instance : Decidable (Determined m req acc c) := inferInstanceAs (Decidable (_ ∧ _ ∧ _))

/-- The column's corrections. -/
def columnCorrections : List (Nat × Gf16) :=
  if Dirty m req acc c then (column_final m req acc c).corrections else []

/-- As they are held. -/
def columnFixes : List (Nat × BitVec 16) :=
  (columnCorrections m req acc c).map fun e => (req.word c e.1,
    load16 m (req.pcm + 2 * req.word c e.1) ^^^ e.2.bits)

end

section
variable {m : Mem} {req : CtdbReq} {acc : Nat → Gf16}

theorem not_dirty_iff {c : Nat} : ¬Dirty m req acc c ↔
    (List.range req.npar.toNat).all (fun r => column_error m req acc c r = 0) = true := by
  simp [Dirty]

/-- **Either decode's corrections** correct the column. -/
theorem column_final_spec {c : Nat} (h : 0 < (column_final m req acc c).n) :
    ColumnFix req (column_error m req acc c) (column_final m req acc c).corrections := by
  unfold column_final at h ⊢
  split
  · rw [if_pos ‹_›] at h
    exact column_decode_spec _ _ h
  · rw [if_neg ‹_›] at h
    exact column_decode_spec _ _ h

theorem length_corrections (d : ColumnDecode) : d.corrections.length = d.n.toNat := by
  simp [ColumnDecode.corrections]

/-- A column has no corrections, or they correct it. -/
theorem columnCorrections_spec (m : Mem) (req : CtdbReq) (acc : Nat → Gf16) (c : Nat) :
    columnCorrections m req acc c = [] ∨ Dirty m req acc c ∧
      ColumnFix req (column_error m req acc c) (columnCorrections m req acc c) := by
  unfold columnCorrections
  split
  · rename_i hd
    by_cases h : 0 < (column_final m req acc c).n
    · exact .inr ⟨hd, column_final_spec h⟩
    · exact .inl (List.eq_nil_of_length_eq_zero (by rw [length_corrections]; omega))
  · exact .inl rfl

theorem length_columnCorrections_le (m : Mem) (req : CtdbReq) (acc : Nat → Gf16) (c : Nat) :
    (columnCorrections m req acc c).length ≤ req.npar.toNat := by
  rcases columnCorrections_spec m req acc c with h | ⟨-, h⟩
  · rw [h]
    exact Nat.zero_le _
  · exact h.length_le

theorem asc_columnCorrections (c : Nat) :
    (columnCorrections m req acc c).Pairwise fun a b => a.1 < b.1 := by
  rcases columnCorrections_spec m req acc c with h | ⟨-, h⟩
  · rw [h]
    exact List.Pairwise.nil
  · exact h.asc

theorem lt_columnCorrections {c : Nat} {e : Nat × Gf16} (he : e ∈ columnCorrections m req acc c) :
    e.1 < req.sc := by
  rcases columnCorrections_spec m req acc c with h | ⟨-, h⟩
  · rw [h] at he
    cases he
  · exact h.lt e he

theorem dirty_of_mem_columnCorrections {c : Nat} {e : Nat × Gf16}
    (he : e ∈ columnCorrections m req acc c) : Dirty m req acc c := by
  rcases columnCorrections_spec m req acc c with h | ⟨hd, -⟩
  · rw [h] at he
    cases he
  · exact hd

/-- The loop that holds a column's corrections. -/
theorem ctdb_fix_loop (c : Nat) (d : ColumnDecode) (st : Pass2) {k : Nat}
    (hcap : st.fixes.length + k ≤ req.fix_cap) :
    (List.range k).foldlM (ctdb_fix m req c d) st = .ok { st with
      fixes := st.fixes ++ (List.range k).map fun i => (req.word c (d.positions i),
        load16 m (req.pcm + 2 * req.word c (d.positions i)) ^^^ (d.values i).bits) } := by
  have hloop := Loop.foldlM_range_ok (fun i (st' : Pass2) => st' = { st with
      fixes := st.fixes ++ (List.range i).map fun i => (req.word c (d.positions i),
        load16 m (req.pcm + 2 * req.word c (d.positions i)) ^^^ (d.values i).bits) })
    (f := ctdb_fix m req c d) (n := k) (s := st) (by simp) ?_
  · obtain ⟨st', hst', hP⟩ := hloop
    exact hst'.trans (congrArg _ hP)
  · rintro i hi _ rfl
    refine ⟨_, if_neg ?_, ?_⟩
    · simp only [List.length_append, List.length_map, List.length_range]
      omega
    · simp [List.range_succ]

/-- What the loop has gathered from the first `n` columns. -/
structure Pass2Inv (m : Mem) (req : CtdbReq) (acc : Nat → Gf16) (n : Nat) (st : Pass2) : Prop where
  fixes : st.fixes = (List.range n).flatMap (columnFixes m req acc)
  dirty : st.dirty = (List.range n).countP fun c => Dirty m req acc c
  refused : st.refused = (List.range n).countP fun c =>
    Dirty m req acc c ∧ (column_final m req acc c).n ≤ 0
  total : st.dirty = st.repaired + st.refused
  unverified : st.unverified = (List.range n).countP fun c => Determined m req acc c

theorem length_fixes_le (m : Mem) (req : CtdbReq) (acc : Nat → Gf16) (n : Nat) :
    ((List.range n).flatMap (columnFixes m req acc)).length ≤ n * req.npar.toNat := by
  induction n with
  | zero => simp
  | succ n ih =>
    have := length_columnCorrections_le m req acc n
    rw [List.range_succ, List.flatMap_append, List.length_append, List.flatMap_cons,
      List.flatMap_nil, List.append_nil, columnFixes, List.length_map, Nat.succ_mul]
    omega

theorem countP_succ (p : Nat → Prop) [DecidablePred p] (n : Nat) :
    (List.range (n + 1)).countP (fun c => p c) =
      (List.range n).countP (fun c => p c) + if p n then 1 else 0 := by
  rw [List.range_succ, List.countP_append, List.countP_singleton]
  exact congrArg _ (if_congr (by simp) rfl rfl)

/-- A dirty column: its counters, then its corrections. -/
theorem ctdb_column_dirty {c : Nat} (hd : Dirty m req acc c) (st : Pass2) :
    ctdb_column m req acc st c =
      let st' : Pass2 := { st with
        dirty := st.dirty + 1
        erasure_cols := st.erasure_cols + if (erasure_scan m req c).length ≠ 0 then 1 else 0
        unverified := st.unverified + if Determined m req acc c then 1 else 0 }
      if (column_final m req acc c).n ≤ 0 then .ok { st' with refused := st.refused + 1 }
      else (List.range (column_final m req acc c).n.toNat).foldlM
        (ctdb_fix m req c (column_final m req acc c)) { st' with repaired := st.repaired + 1 } := by
  have hall : ¬(List.range req.npar.toNat).all (fun r => column_error m req acc c r = 0) = true :=
    fun h => not_dirty_iff.2 h hd
  have hdet : (if (column_first m req acc c).n > 0 ∧
      (erasure_scan m req c).length = req.npar.toNat then 1 else 0) =
      if Determined m req acc c then 1 else 0 :=
    if_congr ⟨fun h => ⟨hd, h.1, h.2⟩, fun h => h.2⟩ rfl rfl
  rw [← hdet, ctdb_column, if_neg hall]
  rfl

/-- **One column** keeps the invariant and stays in the loop. -/
theorem Pass2Inv.column {n : Nat} (hn : n < req.S) {st : Pass2} (h : Pass2Inv m req acc n st) :
    ∃ st', ctdb_column m req acc st n = .ok st' ∧ Pass2Inv m req acc (n + 1) st' := by
  have hflat : (List.range (n + 1)).flatMap (columnFixes m req acc) =
      st.fixes ++ columnFixes m req acc n := by
    rw [List.range_succ, List.flatMap_append, ← h.fixes]
    simp
  have htotal := h.total
  by_cases hd : Dirty m req acc n
  · rw [ctdb_column_dirty hd st]
    by_cases hr : (column_final m req acc n).n ≤ 0
    · refine ⟨_, if_pos hr, ?_, ?_, ?_, ?_, ?_⟩
      · have hnil : (column_final m req acc n).corrections = [] :=
          List.eq_nil_of_length_eq_zero (by rw [length_corrections]; omega)
        rw [hflat, columnFixes, columnCorrections, if_pos hd, hnil, List.map_nil, List.append_nil]
      · dsimp only
        rw [countP_succ, ← h.dirty, if_pos hd]
      · have hbad : Dirty m req acc n ∧ (column_final m req acc n).n ≤ 0 := ⟨hd, hr⟩
        dsimp only
        rw [countP_succ, ← h.refused, if_pos hbad]
      · dsimp only
        omega
      · dsimp only
        rw [countP_succ, ← h.unverified]
    · -- the corrections of `n + 1` columns fit the array
      have hcap : st.fixes.length + (column_final m req acc n).n.toNat ≤ req.fix_cap := by
        have h1 := length_fixes_le m req acc (n + 1)
        have h2 := Nat.mul_le_mul_right req.npar.toNat (show n + 1 ≤ req.S from hn)
        rw [hflat, List.length_append, columnFixes, List.length_map, columnCorrections, if_pos hd,
          length_corrections] at h1
        exact h1.trans h2
      have hloop := ctdb_fix_loop (m := m) n (column_final m req acc n) (
        { st with
          dirty := st.dirty + 1
          erasure_cols := st.erasure_cols + if (erasure_scan m req n).length ≠ 0 then 1 else 0
          unverified := st.unverified + if Determined m req acc n then 1 else 0
          repaired := st.repaired + 1 }) hcap
      refine ⟨_, (if_neg hr).trans hloop, ?_, ?_, ?_, ?_, ?_⟩
      · rw [hflat, columnFixes, columnCorrections, if_pos hd, ColumnDecode.corrections, List.map_map]
        rfl
      · dsimp only
        rw [countP_succ, ← h.dirty, if_pos hd]
      · have hgood : ¬(Dirty m req acc n ∧ (column_final m req acc n).n ≤ 0) := fun h' => hr h'.2
        dsimp only
        rw [countP_succ, ← h.refused, if_neg hgood, Nat.add_zero]
      · dsimp only
        omega
      · dsimp only
        rw [countP_succ, ← h.unverified]
  · have hall := not_dirty_iff.1 hd
    refine ⟨st, if_pos hall, ?_, ?_, ?_, htotal, ?_⟩
    · rw [hflat, columnFixes, columnCorrections, if_neg hd, List.map_nil, List.append_nil]
    · rw [countP_succ, ← h.dirty, if_neg hd, Nat.add_zero]
    · rw [countP_succ, ← h.refused, if_neg fun h' => hd h'.1, Nat.add_zero]
    · rw [countP_succ, ← h.unverified, if_neg fun h' : Determined m req acc n => hd h'.1,
        Nat.add_zero]

/-- The first `n` columns. -/
theorem pass2_inv_le {n : Nat} (hn : n ≤ req.S) : ∃ st,
    (List.range n).foldlM (ctdb_column m req acc) ⟨[], 0, 0, 0, 0, 0⟩ = .ok st ∧ Pass2Inv m req acc n st :=
  Loop.foldlM_range_ok (Pass2Inv m req acc) ⟨rfl, rfl, rfl, rfl, rfl⟩
    fun _ hi _ h => h.column (Nat.lt_of_lt_of_le hi hn)

variable (m req acc) in
theorem pass2_inv : ∃ st,
    (List.range req.S).foldlM (ctdb_column m req acc) ⟨[], 0, 0, 0, 0, 0⟩ = .ok st ∧
      Pass2Inv m req acc req.S st := pass2_inv_le (Nat.le_refl _)

end

end Accudisc
