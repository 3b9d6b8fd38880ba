import Accudisc.Read.Cdda
import Accudisc.Read.Proof.Sector

/-!
# What the log of a read shows

The evidence that a delivered record rests on, as predicates of the log that stay true as it grows:
where a record comes from (`Copy`), that a second transfer agreed with it (`Confirmed`), and how a
replacement was accepted (`Agreed`, `Anchored`). `Quiet` is the frame of every step that publishes
nothing.
-/

namespace Accudisc

/-! ## Transfers -/

/-- Record `x` is the transfer's copy of sector `lba`. -/
def Transfer.Holds (t : Transfer) (lba : Nat) (x : Mem) : Prop :=
  ∃ k < t.nsec, u32 (t.lba + k) = lba ∧ x = record t.sector_len t.data k

/-- A transfer of whole records that the transport reported good. -/
structure Transfer.Good (t : Transfer) (L : Nat) : Prop where
  rc : t.rc = ACCUDISC_OK
  len : t.sector_len = L

/-- Record `x` is the copy of sector `lba` in one good transfer, of a stage in `P`. -/
def Copy (L : Nat) (log : List ReadEvent) (P : Stage → Prop) (lba : Nat) (x : Mem) : Prop :=
  ∃ t, .transfer t ∈ log ∧ t.Good L ∧ P t.stage ∧ t.Holds lba x

/-- Transfers of the disc's records, as opposed to the cache-defeat reads. -/
def Stage.Reads (s : Stage) : Prop := s ≠ .flush

/-- Transfers of whole chunks. -/
def Stage.Chunk (s : Stage) : Prop := s = .stream ∨ ∃ p, s = .witness p

/-- Some neighbour of `lba` in the transfer is, byte for byte of audio, a chunk transfer's copy of that
neighbour, which fixes an alignment. -/
def Corroborated (L : Nat) (log : List ReadEvent) (t : Transfer) (lba : Nat) : Prop :=
  ∃ k < t.nsec, u32 (t.lba + k) ≠ lba ∧
    ∃ y, Copy L log Stage.Chunk (u32 (t.lba + k)) y ∧ adsc_audio_diff (record L t.data k) y = 0 ∧
      alignment_signal y = true

/-- Two corroborated context reads of the pass hold the same audio of the sector, and `x` is the first
one's copy. -/
def Anchored (L : Nat) (log : List ReadEvent) (p : Pass) (lba : Nat) (x : Mem) : Prop :=
  ∃ t t', [ReadEvent.transfer t, .transfer t'].Sublist log ∧
    (t.Good L ∧ t.stage = .anchor p ∧ Corroborated L log t lba ∧ t.Holds lba x) ∧
    t'.Good L ∧ t'.stage = .anchor p ∧ Corroborated L log t' lba ∧
      ∃ y, t'.Holds lba y ∧ adsc_audio_diff x y = 0

/-- A later good transfer of the pass holds the same audio of the sector as `x`. -/
def Confirmed (L : Nat) (log : List ReadEvent) (p : Pass) (lba : Nat) (x : Mem) : Prop :=
  ∃ pre post, log = pre ++ post ∧ Copy L pre Stage.Reads lba x ∧
    ∃ y, Copy L post (· = .witness p) lba y ∧ adsc_audio_diff x y = 0

/-- The good rereads of a settlement, in order. -/
def rereads (L : Nat) (p : Pass) : List ReadEvent → List Mem :=
  List.filterMap fun
    | .transfer t =>
      if t.stage = .consensus p ∧ t.rc = ACCUDISC_OK then some (record L t.data 0) else none
    | _ => none

/-- The copies `ys` are met one after the other, none of them a shift of an earlier one that it differs
from. -/
def Unshifted : List Mem → List Mem → Prop
  | _, [] => True
  | seen, y :: ys =>
    (∀ z ∈ seen, adsc_audio_diff y z ≠ 0 → adsc_shift_find y z = none) ∧ Unshifted (seen ++ [y]) ys

/-- A settlement that ended on two copies with the same audio: it began after `pre` with the copies
`sec` and `alt`, of transfers in `pre`; the reads of `seg` are its rereads, the last of them `x`, which
has the audio of a copy seen before; and no copy seen is a shift of another. -/
structure AgreedIn (L : Nat) (p : Pass) (lba : Nat) (pre seg : List ReadEvent) (sec : Mem)
    (alt : Option Mem) (x : Mem) : Prop where
  sec_copy : Copy L pre Stage.Reads lba sec
  alt_copy : ∀ y ∈ alt, Copy L pre Stage.Reads lba y
  reads : ∀ e ∈ seg, ∃ t, e = .transfer t ∧
    (t.stage = .flush ∨ t.stage = .consensus p ∧ t.lba = lba ∧ t.nsec = 1 ∧ t.sector_len = L)
  agree : ∃ ys, rereads L p seg = ys ++ [x] ∧
    ∃ y ∈ sec :: (alt.toList ++ ys), adsc_audio_diff x y = 0
  first : ∀ y ∈ alt, adsc_audio_diff sec y ≠ 0 → adsc_shift_find sec y = none
  unshifted : Unshifted (sec :: alt.toList) (rereads L p seg)

/-- `x` was accepted by agreement. -/
def Agreed (L : Nat) (log : List ReadEvent) (p : Pass) (lba : Nat) (x : Mem) : Prop :=
  ∃ pre seg post sec alt, log = pre ++ .dispute p lba sec alt :: (seg ++ post) ∧
    AgreedIn L p lba pre seg sec alt x

/-! ## Answers -/

/-- A command with the drive's answer, as opposed to what the engine makes of it. -/
def ReadEvent.answered : ReadEvent → Bool
  | transfer _ => true
  | _ => false

/-- The commands of a call with the drive's answers, in order. -/
def wire (log : List ReadEvent) : List ReadEvent := log.filter ReadEvent.answered

/-- A good reread of the settlement repeats the audio of an earlier copy of the sector, and `x` is its
copy. -/
def Repeated (L : Nat) (log : List ReadEvent) (p : Pass) (lba : Nat) (x : Mem) : Prop :=
  ∃ pre post, log = pre ++ post ∧ (∃ y, Copy L pre Stage.Reads lba y ∧ adsc_audio_diff x y = 0) ∧
    Copy L post (· = .consensus p) lba x

/-- `x` is the copy of a corroborated context read of the C2 rescue. -/
def C2Lined (L : Nat) (log : List ReadEvent) (lba : Nat) (x : Mem) : Prop :=
  ∃ t, .transfer t ∈ log ∧ t.Good L ∧ t.stage = .c2 ∧ Corroborated L log t lba ∧ t.Holds lba x

/-- And it has fewer C2 bits than another copy of the sector. -/
def Cleaner (c : Cfg) (log : List ReadEvent) (lba : Nat) (x : Mem) : Prop :=
  C2Lined c.sector_len log lba x ∧
    ∃ y, Copy c.sector_len log Stage.Reads lba y ∧ record_bits c x 0 < record_bits c y 0

/-! ## What is published -/

/-- A published sector. -/
structure Pub where
  lba : Nat
  status : BitVec 8
  data : Mem

/-- The published sectors, in order. -/
def pubs : List ReadEvent → List Pub :=
  List.filterMap fun
    | .publish lba status sec => some ⟨lba, status, sec⟩
    | _ => none

/-- The stores to `status_map`, in order. -/
def stores : List ReadEvent → List (Nat × BitVec 8) :=
  List.filterMap fun
    | .status idx v => some (idx, v)
    | _ => none

/-- The sectors handed to the sink, in order: each chunk's records, as the chunk describes them. -/
def delivered : List ReadEvent → List (Nat × Mem) :=
  List.flatMap fun
    | .sink ch data => (List.range ch.nsec.toNat).map fun s =>
        (u32 (ch.lba.toNat + s), record ch.sector_len.toNat data s)
    | _ => []

/-! ## A growing log -/

section
variable {L : Nat} {log log' : List ReadEvent} {p : Pass} {lba : Nat} {x : Mem} {t : Transfer}
  {P Q : Stage → Prop}

theorem Copy.mono (h : Copy L log P lba x) (hl : log <+: log') : Copy L log' P lba x := by
  obtain ⟨t, ht, hg⟩ := h
  exact ⟨t, hl.subset ht, hg⟩

theorem Copy.weaken (h : Copy L log P lba x) (hP : ∀ s, P s → Q s) : Copy L log Q lba x := by
  obtain ⟨t, ht, hg, hs, hh⟩ := h
  exact ⟨t, ht, hg, hP _ hs, hh⟩

theorem Corroborated.mono (h : Corroborated L log t lba) (hl : log <+: log') :
    Corroborated L log' t lba := by
  obtain ⟨k, hk, hne, y, hy, hd⟩ := h
  exact ⟨k, hk, hne, y, hy.mono hl, hd⟩

theorem Anchored.mono (h : Anchored L log p lba x) (hl : log <+: log') :
    Anchored L log' p lba x := by
  obtain ⟨t, t', hs, ⟨hg, hst, hc, hh⟩, hg', hst', hc', hy⟩ := h
  exact ⟨t, t', hs.trans hl.sublist, ⟨hg, hst, hc.mono hl, hh⟩, hg', hst', hc'.mono hl, hy⟩

theorem Confirmed.mono (h : Confirmed L log p lba x) (hl : log <+: log') :
    Confirmed L log' p lba x := by
  obtain ⟨pre, post, rfl, hx, y, hy, hd⟩ := h
  obtain ⟨new, rfl⟩ := hl
  exact ⟨pre, post ++ new, by rw [List.append_assoc], hx, y, hy.mono ⟨new, rfl⟩, hd⟩

theorem Agreed.mono (h : Agreed L log p lba x) (hl : log <+: log') : Agreed L log' p lba x := by
  obtain ⟨pre, seg, post, sec, alt, rfl, ha⟩ := h
  obtain ⟨new, rfl⟩ := hl
  exact ⟨pre, seg, post ++ new, sec, alt, by simp, ha⟩

end

/-! ## Evidence in the answers -/

section
variable {c : Cfg} {L : Nat} {log log' : List ReadEvent} {p : Pass} {lba : Nat} {x : Mem} {t : Transfer}
  {P : Stage → Prop}

theorem wire_mono (hl : log <+: log') : wire log <+: wire log' := hl.filter _

theorem mem_wire : .transfer t ∈ wire log ↔ .transfer t ∈ log :=
  List.mem_filter.trans (and_iff_left rfl)

theorem Copy.wire (h : Copy L log P lba x) : Copy L (wire log) P lba x := by
  obtain ⟨t, ht, hg⟩ := h
  exact ⟨t, mem_wire.2 ht, hg⟩

theorem Corroborated.wire (h : Corroborated L log t lba) : Corroborated L (wire log) t lba := by
  obtain ⟨k, hk, hne, y, hy, hd⟩ := h
  exact ⟨k, hk, hne, y, hy.wire, hd⟩

theorem Anchored.wire (h : Anchored L log p lba x) : Anchored L (wire log) p lba x := by
  obtain ⟨t, t', hs, ⟨hg, hst, hc, hh⟩, hg', hst', hc', hy⟩ := h
  exact ⟨t, t', hs.filter ReadEvent.answered, ⟨hg, hst, hc.wire, hh⟩, hg', hst', hc'.wire, hy⟩

theorem Cleaner.wire (h : Cleaner c log lba x) : Cleaner c (wire log) lba x := by
  obtain ⟨⟨t, ht, hg, hst, hc, hh⟩, y, hy, hb⟩ := h
  exact ⟨⟨t, mem_wire.2 ht, hg, hst, hc.wire, hh⟩, y, hy.wire, hb⟩

theorem Repeated.wire (h : Repeated L log p lba x) : Repeated L (wire log) p lba x := by
  obtain ⟨pre, post, rfl, ⟨y, hy, hd⟩, hx⟩ := h
  exact ⟨Accudisc.wire pre, Accudisc.wire post, List.filter_append .., ⟨y, hy.wire, hd⟩, hx.wire⟩

theorem Repeated.mono (h : Repeated L log p lba x) (hl : log <+: log') : Repeated L log' p lba x := by
  obtain ⟨pre, post, rfl, hy, hx⟩ := h
  obtain ⟨new, rfl⟩ := hl
  exact ⟨pre, post ++ new, List.append_assoc .., hy, hx.mono ⟨new, rfl⟩⟩

theorem C2Lined.mono (h : C2Lined L log lba x) (hl : log <+: log') : C2Lined L log' lba x := by
  obtain ⟨t, ht, hg, hst, hc, hh⟩ := h
  exact ⟨t, hl.subset ht, hg, hst, hc.mono hl, hh⟩

theorem Cleaner.mono (h : Cleaner c log lba x) (hl : log <+: log') : Cleaner c log' lba x := by
  obtain ⟨hx, y, hy, hb⟩ := h
  exact ⟨hx.mono hl, y, hy.mono hl, hb⟩

end

/-! ## Frames -/

/-- An event of the engine's own work, as opposed to what it publishes. -/
def ReadEvent.own : ReadEvent → Bool
  | transfer _ | dispute .. | accept .. => true
  | status .. | subq .. | publish .. | sink .. => false

/-- The counters that publishing keeps, and the hard errors. -/
def Stats.account (st : Stats) : Stats :=
  { st with
    sense_medium := 0, sense_hardware := 0, sense_other := 0, rereads := 0, slips := 0
    subq_misposition := 0 }

/-- The step from `r` to `r'` publishes nothing. -/
structure Quiet (r r' : Rd) : Prop where
  log : ∃ new, r'.log = r.log ++ new ∧ ∀ e ∈ new, e.own = true
  status_map : r'.status_map = r.status_map
  subq_map : r'.subq_map = r.subq_map
  sinks : r'.sinks = r.sinks

theorem Quiet.refl (r : Rd) : Quiet r r := ⟨⟨[], by simp, nofun⟩, rfl, rfl, rfl⟩

theorem Quiet.trans {r r' r'' : Rd} (h : Quiet r r') (h' : Quiet r' r'') : Quiet r r'' := by
  obtain ⟨new, hl, ho⟩ := h.log
  obtain ⟨new', hl', ho'⟩ := h'.log
  refine ⟨⟨new ++ new', by rw [hl', hl, List.append_assoc], fun e he => ?_⟩,
    h'.status_map.trans h.status_map, h'.subq_map.trans h.subq_map, h'.sinks.trans h.sinks⟩
  rcases List.mem_append.1 he with he | he
  · exact ho e he
  · exact ho' e he

theorem Quiet.grows {r r' : Rd} (h : Quiet r r') : r.log <+: r'.log := by
  obtain ⟨new, hl, -⟩ := h.log
  exact ⟨new, hl.symm⟩

/-- A step that changes no more of the counters than the engine's own. -/
structure Silent (r r' : Rd) : Prop extends Quiet r r' where
  account : r'.st.account = r.st.account

theorem Silent.refl (r : Rd) : Silent r r := ⟨.refl r, rfl⟩

theorem Silent.trans {r r' r'' : Rd} (h : Silent r r') (h' : Silent r' r'') : Silent r r'' :=
  ⟨h.toQuiet.trans h'.toQuiet, h'.account.trans h.account⟩

end Accudisc
