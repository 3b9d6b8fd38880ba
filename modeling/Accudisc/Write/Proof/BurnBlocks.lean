import Accudisc.Meta.Proof.CdTextEncode
import Accudisc.Write.Proof.WriteParams

/-!
# What is written, block by block

`Wrote P l₀ a b l`: since the log `l₀` the drive took blocks from LBA `a` up to `b` without a gap, each as
`P` wants it, and a WRITE(10) went out again only as it was and only for a full buffer.
-/

namespace Accudisc

open Exit History

/-- A chunk that the drive took. -/
structure Written where
  lba : Int
  n : Nat
  block_bytes : Nat
  data : Mem

def BurnCmd.Writes : BurnCmd → Prop
  | .write10 .. => True
  | _ => False

instance : DecidablePred BurnCmd.Writes := fun c =>
  match c with
  | .write10 .. => isTrue trivial
  | .get_configuration _ | .mode_sense _ _ | .mode_select _ _ | .set_cd_speed _ _ | .read_disc_info
  | .send_opc | .send_cue_sheet _ _ | .read_buffer_capacity | .sync_cache => isFalse id

/-- The chunk of a WRITE(10) that the drive took. -/
def Sent.written (x : Sent) : Option Written :=
  match x.cmd with
  | .write10 lba n block_bytes data =>
    if x.answer.rc = ACCUDISC_OK then some ⟨lba, n, block_bytes, data⟩ else none
  | _ => none

/-- What the drive took, first chunk first. -/
def accepted (l : List Sent) : List Written := l.reverse.filterMap Sent.written

def last_write (l : List Sent) : Option Sent := l.find? fun x => decide x.cmd.Writes

/-- The blocks from LBA `a` up to `b`, chunk after chunk, each as `P` wants it. -/
def Tiles (P : Int → Nat → Mem → Prop) : Int → List Written → Int → Prop
  | a, [], b => a = b
  | a, w :: ws, b => w.lba = a ∧ 0 < w.n ∧
      (∀ i < w.n, P (a + i) w.block_bytes (ptr w.data (i * w.block_bytes))) ∧ Tiles P (a + w.n) ws b

/-- A WRITE(10) starts where the blocks before it end, and after one that failed it is the same one, and
the buffer was full. -/
def Tried (P : Int → Nat → Mem → Prop) (a : Int) (x : Sent) (older : List Sent) : Prop :=
  ∀ lba n block_bytes data, x.cmd = .write10 lba n block_bytes data →
    Tiles P a (accepted older) lba ∧ (∀ i < n, P (lba + i) block_bytes (ptr data (i * block_bytes))) ∧
    ∀ y, last_write older = some y → y.answer.rc ≠ ACCUDISC_OK → y.answer.buffer_full = true ∧ x.cmd = y.cmd

structure WroteSince (P : Int → Nat → Mem → Prop) (a b : Int) (l : List Sent) : Prop where
  tiles : Tiles P a (accepted l) b
  tried : Always (Tried P a) l

/-- The last WRITE(10), when there is one, was taken. -/
def LastTaken (l : List Sent) : Prop := ∀ y, last_write l = some y → y.answer.rc = ACCUDISC_OK

def Wrote (P : Int → Nat → Mem → Prop) (l₀ : List Sent) (a b : Int) (l : List Sent) : Prop :=
  ∃ newer, l = newer ++ l₀ ∧ WroteSince P a b newer

/-- And nothing is left to be sent again. -/
def WroteAll (P : Int → Nat → Mem → Prop) (l₀ : List Sent) (a b : Int) (l : List Sent) : Prop :=
  ∃ newer, l = newer ++ l₀ ∧ WroteSince P a b newer ∧ LastTaken newer

section
variable {P : Int → Nat → Mem → Prop} {l₀ l : List Sent} {a b c lba : Int} {x : Sent} {ws vs : List Written}
  {n block_bytes : Nat} {data : Mem}

theorem Tiles.append (h : Tiles P a ws b) (h' : Tiles P b vs c) : Tiles P a (ws ++ vs) c := by
  induction ws generalizing a with
  | nil =>
    cases h
    exact h'
  | cons w ws ih => exact ⟨h.1, h.2.1, h.2.2.1, ih h.2.2.2⟩

theorem Tiles.le (h : Tiles P a ws b) : a ≤ b := by
  induction ws generalizing a with
  | nil => exact le_of_eq h
  | cons w ws ih =>
    have := ih h.2.2.2
    omega

theorem accepted_cons : accepted (x :: l) = accepted l ++ x.written.toList := by
  unfold accepted
  rw [List.reverse_cons, List.filterMap_append]
  cases hx : x.written <;> simp [hx]

theorem last_write_cons : last_write (x :: l) = if x.cmd.Writes then some x else last_write l := by
  unfold last_write
  by_cases h : x.cmd.Writes <;> simp [h]

theorem written_of_not (h : ¬x.cmd.Writes) : x.written = none := by
  unfold Sent.written
  split
  · rename_i hc
    rw [hc] at h
    exact absurd trivial h
  · rfl

theorem WroteAll.wrote (h : WroteAll P l₀ a b l) : Wrote P l₀ a b l := by
  obtain ⟨newer, rfl, hw, -⟩ := h
  exact ⟨newer, rfl, hw⟩

theorem WroteAll.init : WroteAll P l₀ a a l₀ :=
  ⟨[], rfl, ⟨rfl, always_nil⟩, fun y hy => by cases hy⟩

theorem WroteSince.other (h : WroteSince P a b l) (hx : ¬x.cmd.Writes) : WroteSince P a b (x :: l) := by
  refine ⟨by rw [accepted_cons, written_of_not hx]; simpa using h.tiles, always_cons.2 ⟨?_, h.tried⟩⟩
  intro lba n block_bytes data hc
  rw [hc] at hx
  exact absurd trivial hx

/-- A command that is not a WRITE(10) changes nothing. -/
theorem Wrote.other (h : Wrote P l₀ a b l) (hx : ¬x.cmd.Writes) : Wrote P l₀ a b (x :: l) := by
  obtain ⟨newer, rfl, hw⟩ := h
  exact ⟨x :: newer, rfl, hw.other hx⟩

theorem WroteAll.other (h : WroteAll P l₀ a b l) (hx : ¬x.cmd.Writes) : WroteAll P l₀ a b (x :: l) := by
  obtain ⟨newer, rfl, hw, hs⟩ := h
  refine ⟨x :: newer, rfl, hw.other hx, fun y hy => hs y ?_⟩
  rwa [last_write_cons, if_neg hx] at hy

/-- The WRITE(10) of a chunk is tried: it may go out now, and after each failure that a full buffer is. -/
structure Trying (P : Int → Nat → Mem → Prop) (a lba : Int) (n block_bytes : Nat) (data : Mem)
    (l : List Sent) : Prop where
  since : WroteSince P a lba l
  last : ∀ y, last_write l = some y → y.answer.rc ≠ ACCUDISC_OK →
    y.answer.buffer_full = true ∧ .write10 lba n block_bytes data = y.cmd

theorem Trying.tried (h : Trying P a lba n block_bytes data l)
    (hP : ∀ i < n, P (lba + i) block_bytes (ptr data (i * block_bytes)))
      (hx : x.cmd = .write10 lba n block_bytes data) :
    Always (Tried P a) (x :: l) := by
  refine always_cons.2 ⟨fun lba' n' bb' data' hc => ?_, h.since.tried⟩
  have heq := hx.symm.trans hc
  cases heq
  exact ⟨h.since.tiles, hP, by rw [hx]; exact h.last⟩

theorem Trying.taken (h : Trying P a lba n block_bytes data l) (hn : 0 < n)
    (hP : ∀ i < n, P (lba + i) block_bytes (ptr data (i * block_bytes)))
      (hx : x.cmd = .write10 lba n block_bytes data)
    (hok : x.answer.rc = ACCUDISC_OK) : WroteSince P a (lba + n) (x :: l) ∧ LastTaken (x :: l) := by
  have hw : x.written = some ⟨lba, n, block_bytes, data⟩ := by
    unfold Sent.written
    rw [hx]
    exact if_pos hok
  refine ⟨⟨?_, h.tried hP hx⟩, fun y hy => ?_⟩
  · rw [accepted_cons, hw]
    exact h.since.tiles.append ⟨rfl, hn, hP, rfl⟩
  · rw [last_write_cons, if_pos (hx ▸ trivial : x.cmd.Writes)] at hy
    cases hy
    exact hok

theorem Trying.refused (h : Trying P a lba n block_bytes data l)
    (hP : ∀ i < n, P (lba + i) block_bytes (ptr data (i * block_bytes)))
      (hx : x.cmd = .write10 lba n block_bytes data)
    (hno : x.answer.rc ≠ ACCUDISC_OK) : WroteSince P a lba (x :: l) := by
  have hw : x.written = none := by
    unfold Sent.written
    rw [hx]
    exact if_neg hno
  refine ⟨?_, h.tried hP hx⟩
  rw [accepted_cons, hw]
  simpa using h.since.tiles

theorem buffer_full_rc {d : DriveAnswer} (h : d.buffer_full = true) : d.rc ≠ ACCUDISC_OK := by
  unfold DriveAnswer.buffer_full at h
  rw [decide_eq_true_eq] at h
  rw [h.1]
  decide

/-- **One chunk**: when it returns, the drive took it. -/
theorem write_chunk_tri {answers : Nat → DriveAnswer} (hn : 0 < n) (hmax : n ≤ 0xffff)
    (hb : block_bytes ≠ 0)
    (hP : ∀ i < n, P (lba + i) block_bytes (ptr data (i * block_bytes))) (waits : Nat) :
    Tri (fun s => ∃ newer, s.log = newer ++ l₀ ∧ Trying P a lba n block_bytes data newer)
      (write_chunk answers lba n block_bytes data waits)
      (fun _ s => WroteAll P l₀ a (lba + n) s.log) (fun _ s => Wrote P l₀ a lba s.log) := by
  have hcmd : adsc_mmc_write10 answers lba n block_bytes data =
      exec answers (.write10 lba n block_bytes data) := by
    unfold adsc_mmc_write10
    rw [if_neg (by omega)]
  have hrc (d : DriveAnswer) :
    Tri (fun s => ∃ newer, s.log = ⟨.write10 lba n block_bytes data, d⟩ :: newer ++ l₀ ∧
      Trying P a lba n block_bytes data newer) (check_rc d.rc)
      (fun _ s => WroteAll P l₀ a (lba + n) s.log) (fun _ s => Wrote P l₀ a lba s.log) := by
    unfold check_rc
    refine .ite (fun hok => .pure ?_) fun hno => .leave ?_
    · rintro s ⟨newer, hs, ht⟩
      exact ⟨_, hs, ht.taken hn hP rfl hok⟩
    · rintro s ⟨newer, hs, ht⟩
      exact ⟨_, hs, ht.refused hP rfl hno⟩
  have hexec : Tri (fun s => ∃ newer, s.log = newer ++ l₀ ∧ Trying P a lba n block_bytes data newer)
      (adsc_mmc_write10 answers lba n block_bytes data)
      (fun d s => ∃ newer, s.log = ⟨.write10 lba n block_bytes data, d⟩ :: newer ++ l₀ ∧
        Trying P a lba n block_bytes data newer) (fun _ s => Wrote P l₀ a lba s.log) := by
    rw [hcmd]
    rintro s ⟨newer, hs, ht⟩
    exact ⟨newer, congrArg _ hs, ht⟩
  induction waits with
  | zero => exact .bind hexec hrc
  | succ waits ih =>
    refine .bind hexec fun d => .ite (fun hfull => ?_) fun _ => hrc d
    refine ih.weaken ?_ (fun _ _ => id) fun _ _ => id
    rintro s ⟨newer, hs, ht⟩
    refine ⟨_, hs, ht.refused hP rfl (buffer_full_rc hfull), fun y hy _ => ?_⟩
    rw [last_write_cons, if_pos (c := BurnCmd.Writes (.write10 lba n block_bytes data)) trivial] at hy
    cases hy
    exact ⟨hfull, rfl⟩

/-- The same, from where nothing is left to be sent again. -/
theorem write_chunk_next {answers : Nat → DriveAnswer} (hn : 0 < n) (hmax : n ≤ 0xffff)
    (hb : block_bytes ≠ 0)
    (hP : ∀ i < n, P (lba + i) block_bytes (ptr data (i * block_bytes))) :
    Tri (fun s => WroteAll P l₀ a lba s.log) (write_chunk answers lba n block_bytes data STALL_WAITS)
      (fun _ s => WroteAll P l₀ a (lba + n) s.log) (fun _ s => Wrote P l₀ a lba s.log) := by
  refine (write_chunk_tri hn hmax hb hP STALL_WAITS).weaken ?_ (fun _ _ => id) fun _ _ => id
  rintro s ⟨newer, hs, hw, hset⟩
  exact ⟨newer, hs, hw, fun y hy hno => absurd (hset y hy) hno⟩

/-! ## The gap -/

/-- **The gap**: zero sectors, one after the other. -/
theorem write_gap_tri {answers : Nat → DriveAnswer} (turns : Nat) (lba : Int) (left : Nat)
    (hturns : left ≤ turns) (hP : ∀ i : Nat, i < left → P (lba + i) SECTOR (fun _ => 0)) :
    Tri (fun s => WroteAll P l₀ a lba s.log) (write_gap answers turns lba left)
      (fun _ s => WroteAll P l₀ a (lba + left) s.log) (fun _ s => ∃ b, b ≤ lba + left ∧
        Wrote P l₀ a b s.log) := by
  induction turns generalizing lba left with
  | zero =>
    obtain rfl : left = 0 := by omega
    exact .pure fun s hs => by simpa using hs
  | succ turns ih =>
    unfold write_gap
    refine .ite (fun h0 => .pure fun s hs => ?_) fun h0 => ?_
    · subst h0
      simpa using hs
    have hchunk : 0 < (if left < CHUNK then left else CHUNK) ∧
      (if left < CHUNK then left else CHUNK) ≤ left ∧
        (if left < CHUNK then left else CHUNK) ≤ 0xffff := by
      unfold CHUNK
      split <;> omega
    obtain ⟨hpos, hle, hmax⟩ := hchunk
    generalize (if left < CHUNK then left else CHUNK) = n at hpos hle hmax
    refine .bind (Q := fun _ s => WroteAll P l₀ a (lba + n) s.log) ?_ fun _ => ?_
    · refine (write_chunk_next hpos hmax (by decide) fun i hi => ?_).weaken (fun _ => id) (fun _ _ => id) ?_
      · exact hP i (by omega)
      · intro _ s hs
        exact ⟨lba, by omega, hs⟩
    · have := ih (lba + n) (left - n) (by omega) fun i hi => by
        have := hP (n + i) (by omega)
        rwa [Nat.cast_add, ← Int.add_assoc] at this
      rwa [show lba + (n : Int) + ((left - n : Nat) : Int) = lba + left by omega] at this

/-! ## The lead-in -/

/-- A transfer takes the next blocks of the ring. -/
theorem leadin_copy_run (blocks xfer : Mem) {nblocks scp : Nat} (hscp : scp < nblocks) (n : Nat) :
    ((List.range n).foldl (leadin_copy blocks nblocks) (xfer, scp)).2 = (scp + n) % nblocks ∧
    ∀ i < n, ∀ k < ADSC_RW_BLOCK_BYTES,
      ((List.range n).foldl (leadin_copy blocks nblocks) (xfer, scp)).1 (i * ADSC_RW_BLOCK_BYTES + k) =
        blocks ((scp + i) % nblocks * ADSC_RW_BLOCK_BYTES + k) := by
  refine Loop.foldl_range_inv (s := (xfer, scp)) (f := leadin_copy blocks nblocks)
    (fun n st => st.2 = (scp + n) % nblocks ∧ ∀ i < n, ∀ k < ADSC_RW_BLOCK_BYTES,
      st.1 (i * ADSC_RW_BLOCK_BYTES + k) = blocks ((scp + i) % nblocks * ADSC_RW_BLOCK_BYTES + k))
    ⟨(Nat.mod_eq_of_lt hscp).symm, fun i hi => absurd hi (Nat.not_lt_zero i)⟩ ?_
  rintro n - st ⟨hst, hall⟩
  have hlt : (scp + n) % nblocks < nblocks := Nat.mod_lt _ (by omega)
  refine ⟨?_, fun i hi k hk => ?_⟩
  · show (if nblocks ≤ st.2 + 1 then 0 else st.2 + 1) = _
    rw [hst, ← Nat.add_assoc, ← Nat.mod_add_mod (scp + n)]
    by_cases hend : nblocks ≤ (scp + n) % nblocks + 1
    · rw [if_pos hend, show (scp + n) % nblocks + 1 = nblocks by omega, Nat.mod_self]
    · rw [if_neg hend, Nat.mod_eq_of_lt (show (scp + n) % nblocks + 1 < nblocks by omega)]
  · show memcpy st.1 _ blocks _ _ _ = _
    by_cases hin : i = n
    · subst hin
      rw [memcpy_in (Nat.le_add_right _ _) (by omega), Nat.add_sub_cancel_left, hst]
    · rw [memcpy_out (block_disjoint hin hk le_rfl)]
      exact hall i (by omega) k hk

theorem RingBlock.congr {packs blk blk' : Mem} {npacks k : Nat} (h : RingBlock packs npacks k blk)
    (heq : ∀ i < ADSC_RW_BLOCK_BYTES, blk' i = blk i) : RingBlock packs npacks k blk' where
  clear := fun i hi => by rw [heq i hi]; exact h.clear i hi
  pack := fun j hj i hi => by
    rw [regroup_congr heq (by unfold ADSC_CDTEXT_PACK_BYTES at *; omega)]
    exact h.pack j hj i hi

/-- What the lead-in holds at an LBA. -/
def LeadinBlock (packs : Mem) (npacks : Nat) (start lba : Int) (block_bytes : Nat) (blk : Mem) : Prop :=
  block_bytes = ADSC_RW_BLOCK_BYTES ∧ RingBlock packs npacks (lba - start).toNat blk

variable (l₀ a) in
/-- The loop of the lead-in, from its block `k` on. -/
theorem write_leadin_tri (answers : Nat → DriveAnswer) {packs blocks : Mem}
    {npacks nblocks : Nat} (start : Int)
    (hpos : 0 < nblocks)
    (hring : ∀ k, RingBlock packs npacks k (ptr blocks (k % nblocks * ADSC_RW_BLOCK_BYTES))) (turns : Nat)
    (xfer : Mem) (k left : Nat) (hturns : left ≤ turns)
    (hP : ∀ i : Nat, i < left →
      ∀ blk, LeadinBlock packs npacks start (start + k + i) ADSC_RW_BLOCK_BYTES blk →
      P (start + k + i) ADSC_RW_BLOCK_BYTES blk) :
    Tri (fun s => WroteAll P l₀ a (start + k) s.log)
      (write_leadin answers blocks nblocks turns xfer (k % nblocks) (start + k) left)
      (fun _ s => WroteAll P l₀ a (start + k + left) s.log)
      (fun _ s => ∃ b, b ≤ start + k + left ∧ Wrote P l₀ a b s.log) := by
  induction turns generalizing xfer k left with
  | zero =>
    obtain rfl : left = 0 := by omega
    exact .pure fun s hs => by simpa using hs
  | succ turns ih =>
    unfold write_leadin
    refine .ite (fun h0 => .pure fun s hs => ?_) fun h0 => ?_
    · subst h0
      simpa using hs
    have hchunk : 0 < (if left < CDT_CHUNK then left else CDT_CHUNK) ∧
        (if left < CDT_CHUNK then left else CDT_CHUNK) ≤ left ∧
        (if left < CDT_CHUNK then left else CDT_CHUNK) ≤ 0xffff := by
      unfold CDT_CHUNK
      split <;> omega
    obtain ⟨hn, hle, hmax⟩ := hchunk
    dsimp only
    generalize (if left < CDT_CHUNK then left else CDT_CHUNK) = n at hn hle hmax ⊢
    obtain ⟨hscp, hcopy⟩ := leadin_copy_run blocks xfer (Nat.mod_lt k hpos) n
    generalize (List.range n).foldl (leadin_copy blocks nblocks) (xfer, k % nblocks) = st at hscp hcopy ⊢
    refine .bind (Q := fun _ s => WroteAll P l₀ a (start + k + n) s.log) ?_ fun _ => ?_
    · refine (write_chunk_next hn hmax (by decide) fun i hi => hP i (by omega) _ ⟨rfl, ?_⟩).weaken
        (fun _ => id) (fun _ _ => id) fun _ s hs => ⟨_, by omega, hs⟩
      have hk : (start + (k : Int) + (i : Int) - start).toNat = k + i := by omega
      rw [hk]
      refine (hring (k + i)).congr fun j hj => ?_
      have := hcopy i hi j hj
      rwa [Nat.mod_add_mod] at this
    · have hnext : (start + (k : Int) + (n : Int)) = start + ((k + n : Nat) : Int) := by omega
      have := ih st.1 (k + n) (left - n) (by omega) fun i hi blk hblk => by
        have hcast : start + ((k + n : Nat) : Int) + (i : Int) = start + (k : Int) +
          ((n + i : Nat) : Int) := by
          omega
        rw [hcast] at hblk ⊢
        exact hP (n + i) (by omega) blk hblk
      rw [← hnext] at this
      rw [hscp, Nat.mod_add_mod]
      rwa [show start + (k : Int) + (n : Int) + ((left - n : Nat) : Int) = start + k +
        left by omega] at this

variable (l₀ a) in
/-- **The CD-Text lead-in**: the blocks of the ring, up to the gap. -/
theorem write_cdtext_leadin_tri (env : BurnEnv) (cdtext : Mem) {len : Nat} {di : DiscInfo}
    (hfit : adsc_cdtext_rw_block_count ((len - 4) / ADSC_CDTEXT_PACK_BYTES) * ADSC_RW_BLOCK_BYTES ≤ 2 ^ 32)
    (hP : ∀ lba blk, -(LEADIN_GAP : Int) - di.leadin_len ≤ lba → lba < -(LEADIN_GAP : Int) →
      LeadinBlock (ptr cdtext 4) ((len - 4) / ADSC_CDTEXT_PACK_BYTES)
        (-(LEADIN_GAP : Int) - di.leadin_len) lba
        ADSC_RW_BLOCK_BYTES blk → P lba ADSC_RW_BLOCK_BYTES blk) :
    Tri (fun s => WroteAll P l₀ a (-(LEADIN_GAP : Int) - di.leadin_len) s.log)
      (write_cdtext_leadin env cdtext len di)
      (fun _ s => WroteAll P l₀ a (-(LEADIN_GAP : Int)) s.log)
      (fun _ s => ∃ b, b ≤ -(LEADIN_GAP : Int) ∧ Wrote P l₀ a b s.log) := by
  unfold write_cdtext_leadin
  have hstay : ∀ (_ : Option Int) (s : Burn), WroteAll P l₀ a (-(LEADIN_GAP : Int) - di.leadin_len) s.log →
      ∃ b, b ≤ -(LEADIN_GAP : Int) ∧ Wrote P l₀ a b s.log :=
    fun _ s hs => ⟨_, by omega, hs.wrote⟩
  refine .ite (fun _ => .leave fun s hs => hstay none s hs) fun hno => ?_
  refine .ite (fun _ => .leave fun s hs => hstay none s hs) fun _ => ?_
  rw [not_or] at hno
  obtain ⟨blocks, hok, hring⟩ := encode_rw_ring (ptr cdtext 4) (fun _ => 0) hno.1 hfit
  rw [hok]
  show Tri _ (write_leadin _ _ _ _ _ _ _ _) _ _
  have := write_leadin_tri l₀ a env.answers (-(LEADIN_GAP : Int) - di.leadin_len) (P := P)
    (block_count_pos hno.1) hring di.leadin_len (fun _ => 0) 0
    di.leadin_len le_rfl fun i hi blk hblk => hP _ blk (by omega) (by omega) hblk
  rw [Nat.zero_mod, Nat.cast_zero, Int.add_zero] at this
  rwa [show -(LEADIN_GAP : Int) - (di.leadin_len : Int) + (di.leadin_len : Int) =
    -(LEADIN_GAP : Int) by omega]
    at this

/-- What a part of the burn that writes from `start` to `stop` leaves on the wire. -/
theorem wrote_wire {m : BurnM Unit} {stop : Int} {s : Burn}
    (h : Tri (fun t => WroteAll P s.log start start t.log) m (fun _ t => WroteAll P s.log start stop t.log)
      (fun _ t => ∃ b, b ≤ stop ∧ Wrote P s.log start b t.log)) :
    ∃ newer b, (out m s).2.log = newer ++ s.log ∧ Tiles P start (accepted newer) b ∧
      Always (Tried P start) newer ∧
      b ≤ stop ∧ ((out m s).1 = .ok () → b = stop) := by
  rcases hr : out m s with ⟨_ | _, s'⟩
  · obtain ⟨b, hb, newer, hlog, hw⟩ := h.of_error WroteAll.init hr
    exact ⟨newer, b, hlog, hw.tiles, hw.tried, hb, fun hok => by cases hok⟩
  · obtain ⟨newer, hlog, hw, -⟩ := h.of_ok WroteAll.init hr
    exact ⟨newer, _, hlog, hw.tiles, hw.tried, le_rfl, fun _ => rfl⟩

/-- **The lead-in ring on the wire**: the blocks that the drive took run without a gap from the start of the
lead-in, to the gap of the disc when all went well; every block that was sent is the one of the ring at its
place, a WRITE(10) again only as it was and for a full buffer. -/
theorem write_cdtext_leadin_ring (env : BurnEnv) (cdtext : Mem) (len : Nat) (di : DiscInfo) (s : Burn)
    (hfit : adsc_cdtext_rw_block_count ((len - 4) / ADSC_CDTEXT_PACK_BYTES) *
      ADSC_RW_BLOCK_BYTES ≤ 2 ^ 32) :
    let start := -(LEADIN_GAP : Int) - di.leadin_len
    let block := LeadinBlock (ptr cdtext 4) ((len - 4) / ADSC_CDTEXT_PACK_BYTES) start
    let r := out (write_cdtext_leadin env cdtext len di) s
    ∃ newer b, r.2.log = newer ++ s.log ∧ Tiles block start (accepted newer) b ∧
      Always (Tried block start) newer ∧
      b ≤ -(LEADIN_GAP : Int) ∧ (r.1 = .ok () → b = -(LEADIN_GAP : Int)) := by
  intro start block r
  exact wrote_wire (write_cdtext_leadin_tri s.log start env cdtext hfit fun _ _ _ _ hblk => hblk)

/-- A drive that takes all it is sent. -/
def willing_env : BurnEnv where
  answers := fun _ => ⟨ACCUDISC_OK, fun _ => 0, 0, fun _ => 0⟩
  cdtext_alloc := true
  alloc := true
  fifo_start := ACCUDISC_OK
  fifo_prefill := ACCUDISC_OK
  fifo_stop := ACCUDISC_OK
  pops := fun _ => ⟨0, fun _ => 0, false⟩
  file := ⟨fun _ => 0, fun _ _ => true⟩
  trace := false

-- the run below evaluates the loop
attribute [local semireducible] exec_loop

/-- One pack, on a lead-in of a chunk and five sectors. -/
theorem write_cdtext_leadin_ring_one :
    let r := out (write_cdtext_leadin willing_env (fun _ => 0) 22 ⟨0, 0, 0, 0, 645⟩) {}
    r.1 = .ok () ∧ ∃ newer, r.2.log = newer ++ [] ∧
      Tiles (LeadinBlock (ptr (fun _ => 0) 4) 1 (-795)) (-795) (accepted newer) (-150) := by
  obtain ⟨newer, b, hlog, htiles, -, -, hend⟩ :=
    write_cdtext_leadin_ring willing_env (fun _ => 0) 22 ⟨0, 0, 0, 0, 645⟩ {} (by decide)
  have hok : (out (write_cdtext_leadin willing_env (fun _ => 0) 22 ⟨0, 0, 0, 0, 645⟩) {}).1 = .ok () := rfl
  rw [hend hok] at htiles
  exact ⟨hok, newer, hlog, htiles⟩

end

end Accudisc
