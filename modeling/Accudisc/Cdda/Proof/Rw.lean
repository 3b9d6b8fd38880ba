import Accudisc.Cdda.Rw
import Accudisc.Lib.Loop

/-!
# The de-interleave is a delay line

`RingAt ch n`: the ring after the channel packs `ch 0` to `ch (n - 1)`. Where the channel carries packs
interleaved, what it holds is the pack seven before the last (`assemble_pack_at`), so the feeds give the
packs in order (`accudisc_rw_feed_deinterleaves`).
-/

namespace Accudisc

/-- What is fed at one go. -/
structure RwFeed where
  raw : Mem
  max : Nat

/-- The feeds, one after the other, and all the packs they emit. -/
def rw_run (rw : Rw) : List RwFeed → Except Int (Rw × List RwPack)
  | [] => .ok (rw, [])
  | f :: feeds => do
    let a ← accudisc_rw_feed rw f.raw true f.max
    let b ← rw_run a.1 feeds
    pure (b.1, a.2 ++ b.2)

/-- The ring after a sector. -/
def push_sector (ring : RwRing) (raw : Mem) : RwRing :=
  (List.range ACCUDISC_RW_PACKS_PER_SEC).foldl (fun ring pk =>
    push_channel_pack ring (sector_symbols raw pk)) ring

/-- Channel pack `n` of the sectors. -/
def channel_pack (raws : List Mem) (n : Nat) : Symbols :=
  sector_symbols (raws.getD (n / ACCUDISC_RW_PACKS_PER_SEC) fun _ => 0) (n % ACCUDISC_RW_PACKS_PER_SEC)

/-- The first `n` channel packs carry the packs of `P`: channel position `i` is delayed by `i % 8`. -/
def Interleaved (P ch : Nat → Symbols) (n : Nat) : Prop :=
  ∀ m < n, ∀ i < ACCUDISC_RW_PACK_SYMBOLS, i % 8 ≤ m → (ch m).get i = (P (m - i % 8)).get (rw_perm i)

/-- What feed `k` emits. -/
def sector_packs (P : Nat → Symbols) (k : Nat) : List RwPack :=
  ((List.range ACCUDISC_RW_PACKS_PER_SEC).filter fun pk => 7 ≤ 4 * k + pk).map fun pk =>
    correct_pack (P (4 * k + pk - 7))

/-- The ring after `n` channel packs. -/
structure RingAt (ch : Nat → Symbols) (n : Nat) (ring : RwRing) : Prop where
  head : ring.head = n % 8
  seen : ring.seen = min n 8
  hist : ∀ m < n, n ≤ m + 8 → ring.hist ((m + 1) % 8) = ch m

section
variable {P ch : Nat → Symbols} {n k : Nat} {ring : RwRing}

theorem RingAt.init : RingAt ch 0 {} :=
  ⟨rfl, rfl, fun _ hm => absurd hm (Nat.not_lt_zero _)⟩

/-- A push is the next channel pack. -/
theorem RingAt.push (h : RingAt ch n ring) : RingAt ch (n + 1) (push_channel_pack ring (ch n)) where
  head := by
    show (ring.head + 1) % 8 = (n + 1) % 8
    rw [h.head]
    omega
  seen := by
    show (if ring.seen < 8 then ring.seen + 1 else ring.seen) = min (n + 1) 8
    rw [h.seen]
    split <;> omega
  hist := fun m hm hspan => by
    have hhead := h.head
    show Function.update ring.hist ((ring.head + 1) % 8) (ch n) ((m + 1) % 8) = ch m
    by_cases hlast : m = n
    · subst hlast
      rw [show (m + 1) % 8 = (ring.head + 1) % 8 by omega, Function.update_self]
    · rw [Function.update_of_ne (by omega)]
      exact h.hist m (by omega) (by omega)

/-! ## The permutation -/

theorem rw_perm_lt : ∀ i < ACCUDISC_RW_PACK_SYMBOLS, rw_perm i < ACCUDISC_RW_PACK_SYMBOLS := by decide

/-- The three transpositions undo themselves. -/
theorem rw_perm_perm : ∀ i < ACCUDISC_RW_PACK_SYMBOLS, rw_perm (rw_perm i) = i := by decide

/-- Every position is written once. -/
theorem permuted_get (f : Nat → BitVec 8) {j : Nat} (hj : j < ACCUDISC_RW_PACK_SYMBOLS) :
    ((List.range ACCUDISC_RW_PACK_SYMBOLS).foldl (fun (out : Symbols) i => out.set (rw_perm i) (f i))
      (Buf.zeros (BitVec 8) ACCUDISC_RW_PACK_SYMBOLS)).get j = f (rw_perm j) := by
  refine Loop.foldl_range_inv (fun n (out : Symbols) => rw_perm j < n → out.get j = f (rw_perm j))
    (fun h => absurd h (Nat.not_lt_zero _)) ?_ (rw_perm_lt j hj)
  intro i hi out hout hlt
  rw [Buf.get_set]
  by_cases heq : j = rw_perm i
  · rw [if_pos ⟨heq, hj⟩, heq, rw_perm_perm i hi]
  · rw [if_neg fun h => heq h.1]
    refine hout (lt_of_le_of_ne (Nat.le_of_lt_succ hlt) fun h => heq ?_)
    rw [← h, rw_perm_perm j hj]

/-- **The delay line**: the ring holds the pack seven before the last, whole. -/
theorem assemble_pack_at (h : RingAt ch n ring) (hP : Interleaved P ch n) (hn : 8 ≤ n) :
    assemble_pack ring = P (n - 8) := by
  refine Buf.ext_get fun j hj => ?_
  unfold assemble_pack
  rw [permuted_get (fun i => (ring.hist ((ring.head + 8 - (7 - i % 8)) % 8)).get i) hj]
  have hi := rw_perm_lt j hj
  have hhead := h.head
  -- the slot of age `7 - i % 8` is that of the channel pack as many packs back
  have hslot := h.hist (n - 8 + rw_perm j % 8) (by omega) (by omega)
  rw [show (ring.head + 8 - (7 - rw_perm j % 8)) % 8 = (n - 8 + rw_perm j % 8 + 1) % 8 by omega, hslot,
    hP _ (by omega) _ hi (by omega), rw_perm_perm j hj, Nat.add_sub_cancel]

/-! ## The feeds -/

/-- A feed pushes, whatever it emits. -/
theorem feed_pack_ring (raw : Mem) (max : Nat) (s : Rw × List RwPack) (pk : Nat) :
    (feed_pack raw max s pk).1.toRwRing = push_channel_pack s.1.toRwRing (sector_symbols raw pk) := by
  unfold feed_pack
  dsimp only
  split
  · rfl
  · split <;> rfl

theorem feed_ring (raw : Mem) (max : Nat) (s : Rw × List RwPack) (pks : List Nat) :
    (pks.foldl (feed_pack raw max) s).1.toRwRing =
      pks.foldl (fun ring pk => push_channel_pack ring (sector_symbols raw pk)) s.1.toRwRing := by
  induction pks generalizing s with
  | nil => rfl
  | cons pk pks ih => rw [List.foldl_cons, ih, feed_pack_ring, List.foldl_cons]

/-- What the packs up to `pk` of feed `k` emit. -/
def packs_upto (P : Nat → Symbols) (k pk : Nat) : List RwPack :=
  ((List.range pk).filter fun pk => 7 ≤ 4 * k + pk).map fun pk => correct_pack (P (4 * k + pk - 7))

/-- **One channel pack** of a feed. -/
theorem feed_pack_step {raw : Mem} {max pk : Nat} {s : Rw × List RwPack}
    (hmax : max = 0 ∨ ACCUDISC_RW_PACKS_PER_SEC ≤ max) (hpk : pk < ACCUDISC_RW_PACKS_PER_SEC)
    (hraw : sector_symbols raw pk = ch (4 * k + pk)) (hring : RingAt ch (4 * k + pk) s.1.toRwRing)
    (hP : Interleaved P ch (4 * k + pk + 1)) (hpacks : s.2 = if max = 0 then [] else packs_upto P k pk) :
    (feed_pack raw max s pk).2 = if max = 0 then [] else packs_upto P k (pk + 1) := by
  have hpushed := hring.push
  rw [← hraw] at hpushed
  unfold packs_upto at hpacks ⊢
  rw [List.range_succ, List.filter_append, List.map_append]
  unfold feed_pack
  dsimp only
  by_cases hprime : 7 ≤ 4 * k + pk
  · rw [if_neg (by rw [hpushed.seen]; omega)]
    rcases Nat.eq_zero_or_pos max with rfl | hpos
    · rw [if_neg (Nat.not_lt_zero _), hpacks]
      rfl
    · have hlen : s.2.length < max := by
        rw [hpacks, if_neg (by omega), List.length_map]
        refine lt_of_lt_of_le (lt_of_le_of_lt (List.length_filter_le ..) (by rwa [List.length_range])) ?_
        exact hmax.resolve_left (by omega)
      have hheld := assemble_pack_at hpushed hP (by omega)
      rw [if_pos hlen, if_neg (by omega), hpacks, if_neg (by omega),
        List.filter_cons_of_pos (by simpa using hprime)]
      refine congrArg _ (congrArg (fun v => [correct_pack v]) (hheld.trans ?_))
      rw [show 4 * k + pk + 1 - 8 = 4 * k + pk - 7 by omega]
  · rw [if_pos (by rw [hpushed.seen]; omega), List.filter_cons_of_neg (by simpa using hprime), hpacks]
    simp

/-- **One feed**. -/
theorem feed_spec {raw : Mem} {max : Nat} {rw : Rw} (hmax : max = 0 ∨ ACCUDISC_RW_PACKS_PER_SEC ≤ max)
    (hraw : ∀ pk < ACCUDISC_RW_PACKS_PER_SEC, sector_symbols raw pk = ch (4 * k + pk))
    (h : RingAt ch (4 * k) rw.toRwRing) (hP : Interleaved P ch (4 * k + ACCUDISC_RW_PACKS_PER_SEC)) :
    ∃ rw', accudisc_rw_feed rw raw true max = .ok (rw', if max = 0 then [] else sector_packs P k) ∧
      rw'.toRwRing = push_sector rw.toRwRing raw ∧
        RingAt ch (4 * k + ACCUDISC_RW_PACKS_PER_SEC) rw'.toRwRing := by
  have hok : accudisc_rw_feed rw raw true max =
      .ok ((List.range ACCUDISC_RW_PACKS_PER_SEC).foldl (feed_pack raw max) (rw, [])) := by
    unfold accudisc_rw_feed
    rw [if_neg fun h => Bool.noConfusion h.1, if_neg fun h => hmax.elim h.1 (Nat.not_le.2 h.2)]
  have hloop := Loop.foldl_range_inv (n := ACCUDISC_RW_PACKS_PER_SEC) (s := (rw, []))
    (f := feed_pack raw max)
    (fun n (s : Rw × List RwPack) => RingAt ch (4 * k + n) s.1.toRwRing ∧
      s.2 = if max = 0 then [] else packs_upto P k n) ⟨h, (ite_self _).symm⟩ ?_
  · have hring := feed_ring raw max (rw, []) (List.range ACCUDISC_RW_PACKS_PER_SEC)
    generalize (List.range ACCUDISC_RW_PACKS_PER_SEC).foldl (feed_pack raw max) (rw, []) =
      s at hok hloop hring
    obtain ⟨rw', packs⟩ := s
    obtain ⟨hat, hpacks⟩ := hloop
    exact ⟨rw', hok.trans (congrArg (fun packs => Except.ok (rw', packs)) hpacks), hring, hat⟩
  · rintro pk hpk s ⟨hring, hpacks⟩
    refine ⟨?_, feed_pack_step hmax hpk (hraw pk hpk) hring (fun m hm => hP m (by omega)) hpacks⟩
    rw [feed_pack_ring, hraw pk hpk]
    exact hring.push

/-- The packs of a feed go on with those before it. -/
theorem sector_packs_next (P : Nat → Symbols) (k : Nat) :
    (List.range (4 * k - 7)).map (fun n => correct_pack (P n)) ++ sector_packs P k =
      (List.range (4 * (k + 1) - 7)).map fun n => correct_pack (P n) := by
  unfold sector_packs
  generalize correct_pack = g
  match k with
  | 0 => rfl
  | 1 => rfl
  | k + 2 =>
    have hall : (List.range ACCUDISC_RW_PACKS_PER_SEC).filter (fun pk => 7 ≤ 4 * (k + 2) + pk) =
        List.range 4 := List.filter_eq_self.2 fun pk _ => decide_eq_true (by omega)
    rw [hall, show 4 * (k + 2) - 7 = 4 * k + 1 by omega, show 4 * (k + 2 + 1) - 7 = 4 * k + 1 + 4 by omega,
      List.range_add (n := 4 * k + 1), List.map_append, List.map_map]
    refine congrArg _ (List.map_congr_left fun i _ => ?_)
    rw [show 4 * (k + 2) + i - 7 = 4 * k + 1 + i by omega]
    rfl

/-- **The feeds from feed `k` on**. -/
theorem rw_run_spec {feeds : List RwFeed} (rw : Rw)
    (hmax : ∀ f ∈ feeds, f.max = 0 ∨ ACCUDISC_RW_PACKS_PER_SEC ≤ f.max)
    (hraws : ∀ j f, feeds[j]? = some f → ∀ pk < ACCUDISC_RW_PACKS_PER_SEC,
      sector_symbols f.raw pk = ch (4 * (k + j) + pk))
    (h : RingAt ch (4 * k) rw.toRwRing) (hP : Interleaved P ch (4 * (k + feeds.length))) :
    ∃ rw', rw_run rw feeds = .ok (rw', (feeds.zipIdx k).flatMap fun f =>
        if f.1.max = 0 then [] else sector_packs P f.2) ∧
      rw'.toRwRing = (feeds.map RwFeed.raw).foldl push_sector rw.toRwRing := by
  induction feeds generalizing rw k with
  | nil => exact ⟨rw, rfl, rfl⟩
  | cons f feeds ih =>
    rw [List.length_cons] at hP
    obtain ⟨rw₁, hfeed, hring, hat⟩ := feed_spec (hmax f (List.mem_cons_self ..))
      (hraws 0 f rfl) h (fun m hm => hP m (by unfold ACCUDISC_RW_PACKS_PER_SEC at hm; omega))
    obtain ⟨rw₂, hrun, hring₂⟩ := ih rw₁ (fun g hg => hmax g (List.mem_cons_of_mem _ hg))
      (fun j g hj pk hpk => by
        have := hraws (j + 1) g hj pk hpk
        rwa [show k + (j + 1) = k + 1 + j by omega] at this) hat
      (fun m hm => hP m (by omega))
    refine ⟨rw₂, ?_, ?_⟩
    · show (accudisc_rw_feed rw f.raw true f.max >>= _) = _
      rw [hfeed]
      show (rw_run rw₁ feeds >>= _) = _
      rw [hrun]
      rfl
    · rw [hring₂, hring]
      rfl

/-- Feeds that all emit give the packs in order. -/
theorem sector_packs_run (P : Nat → Symbols) {feeds : List RwFeed} (h : ∀ f ∈ feeds, f.max ≠ 0) (k : Nat) :
    (List.range (4 * k - 7)).map (fun n => correct_pack (P n)) ++
        ((feeds.zipIdx k).flatMap fun f => if f.1.max = 0 then [] else sector_packs P f.2) =
      (List.range (4 * (k + feeds.length) - 7)).map fun n => correct_pack (P n) := by
  induction feeds generalizing k with
  | nil => exact List.append_nil _
  | cons f feeds ih =>
    rw [List.zipIdx_cons, List.flatMap_cons, if_neg (h f (List.mem_cons_self ..)), ← List.append_assoc,
      sector_packs_next, ih fun g hg => h g (List.mem_cons_of_mem _ hg), List.length_cons,
      show k + 1 + feeds.length = k + (feeds.length + 1) by omega]

end

/-- **The de-interleave** undoes the interleave, seven channel packs late: feed `k` emits the packs
`4 k - 7` to `4 k - 4` in order, each corrected, and the ring is that of the sectors. Neither depends on
which other feeds only prime. -/
theorem accudisc_rw_feed_deinterleaves (P : Nat → Symbols) (feeds : List RwFeed)
    (hmax : ∀ f ∈ feeds, f.max = 0 ∨ ACCUDISC_RW_PACKS_PER_SEC ≤ f.max)
    (hP : Interleaved P (channel_pack (feeds.map RwFeed.raw)) (4 * feeds.length)) :
    ∃ rw packs, rw_run {} feeds = .ok (rw, packs) ∧
      packs = (feeds.zipIdx.flatMap fun f => if f.1.max = 0 then [] else sector_packs P f.2) ∧
      rw.toRwRing = (feeds.map RwFeed.raw).foldl push_sector {} ∧
      ((∀ f ∈ feeds, f.max ≠ 0) → packs = (List.range (4 * feeds.length - 7)).map fun n =>
        correct_pack (P n)) := by
  have hraws : ∀ j f, feeds[j]? = some f → ∀ pk < ACCUDISC_RW_PACKS_PER_SEC,
      sector_symbols f.raw pk = channel_pack (feeds.map RwFeed.raw) (4 * (0 + j) + pk) := by
    intro j f hj pk hpk
    unfold channel_pack ACCUDISC_RW_PACKS_PER_SEC at *
    rw [show (4 * (0 + j) + pk) / 4 = j by omega, show (4 * (0 + j) + pk) % 4 = pk by omega,
      List.getD_eq_getElem?_getD, List.getElem?_map, hj]
    rfl
  obtain ⟨rw, hrun, hring⟩ := rw_run_spec (k := 0) {} hmax hraws .init (by rw [Nat.zero_add]; exact hP)
  refine ⟨rw, _, hrun, rfl, hring, fun h => ?_⟩
  have := sector_packs_run P h 0
  rwa [Nat.zero_add] at this

/-- Packs that are all different. -/
def counted_packs (n : Nat) : Symbols := Buf.fill ACCUDISC_RW_PACK_SYMBOLS fun i =>
    BitVec.ofNat 8 ((7 * n + i) % 64)

/-- Sector `k` of their channel. -/
def counted_sector (k : Nat) : Mem := fun a =>
  let m := 4 * k + a / 24
  let i := a % 24
  if i % 8 ≤ m then (counted_packs (m - i % 8)).get (rw_perm i) else 0

/-- Three sectors of it: the first feed only primes, and the other two emit the first five packs. -/
theorem accudisc_rw_feed_deinterleaves_counted :
    ∃ rw packs, rw_run {} [⟨counted_sector 0, 0⟩, ⟨counted_sector 1, 4⟩, ⟨counted_sector 2, 4⟩] =
      .ok (rw, packs) ∧
      packs = (List.range 5).map fun n => correct_pack (counted_packs n) := by
  have hchannel :
    Interleaved counted_packs (channel_pack [counted_sector 0, counted_sector 1, counted_sector 2]) 12 := by
    unfold Interleaved
    decide +kernel
  obtain ⟨rw, packs, hrun, hpacks, -, -⟩ := accudisc_rw_feed_deinterleaves counted_packs
    [⟨counted_sector 0, 0⟩, ⟨counted_sector 1, 4⟩, ⟨counted_sector 2, 4⟩] (by decide) hchannel
  exact ⟨rw, packs, hrun, by rw [hpacks]; rfl⟩

/-- A feed that only primes is a sector of the stream: put between two others, it moves the ring on, and
what comes after it is emitted earlier. -/
theorem rw_prime_moves_on : ∃ rw rw₁ rw₂ packs₁ packs₂,
    accudisc_rw_feed {} (fun _ => 0) false 0 = .ok (rw, []) ∧ rw.seen ≠ ({} : Rw).seen ∧
    rw_run {} [⟨fun _ => 0, 4⟩, ⟨fun _ => 0, 4⟩] = .ok (rw₁, packs₁) ∧
    rw_run {} [⟨fun _ => 0, 4⟩, ⟨fun _ => 0, 0⟩, ⟨fun _ => 0, 4⟩] = .ok (rw₂, packs₂) ∧
    packs₁.length = 1 ∧ packs₂.length = 4 :=
  ⟨_, _, _, _, _, rfl, by decide, rfl, rfl, rfl, rfl⟩

end Accudisc
