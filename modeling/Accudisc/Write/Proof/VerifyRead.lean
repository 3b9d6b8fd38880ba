import Accudisc.Read.Proof.Publish
import Accudisc.Write.Verify

/-!
# What the reads of a verification bring

A read that succeeds has given its sink the sectors of the request in order, in chunks of any
sizes (`Delivers`).
-/

namespace Accudisc

/-- The chunks are the sectors `m` to `m'` of what begins at `lba0`, whose samples are `disc`. Addresses
have 32 bits. -/
def Delivers (disc : Nat → Sample) (lba0 : Nat) : (m : Nat) → List AccuChunk → (m' : Nat) → Prop
  | m, [], m' => m = m'
  | m, c :: cs, m' =>
    c.lba = lba0 + m ∧ c.lba + c.nsec ≤ 2 ^ 32 ∧
      (∀ k < c.nsec, ∀ i < SAMPLES_PER_SECTOR,
        sample_at c.data (k * c.sector_len + i * BYTES_PER_SAMPLE) =
          disc ((m + k) * SAMPLES_PER_SECTOR + i)) ∧
      Delivers disc lba0 (m + c.nsec) cs m'

variable {disc : Nat → Sample} {lba0 m m' : Nat} {cs : List AccuChunk}

theorem Delivers.le (h : Delivers disc lba0 m cs m') : m ≤ m' := by
  induction cs generalizing m with
  | nil => exact Nat.le_of_eq h
  | cons c cs ih => exact Nat.le_trans (Nat.le_add_right _ _) (ih h.2.2.2)

/-- The chunk's own sector is the span's. -/
theorem sector_index {c : AccuChunk} (hlba : c.lba = lba0 + m) (htop : c.lba + c.nsec ≤ 2 ^ 32) {k : Nat}
    (hk : k < c.nsec) :
    sub32 (u32 (c.lba + k)) lba0 = m + k := by
  rw [hlba, Nat.add_assoc]
  exact request_index (by omega)

/-! ## The anchor -/

theorem sample_at_memcpy_in {mem other : Mem} {dst src n a : Nat} (h : dst ≤ a) (h' : a + 4 ≤ dst + n) :
    sample_at (memcpy mem dst other src n) a = sample_at other (src + (a - dst)) := by
  unfold sample_at
  rw [memcpy_in h (by omega), memcpy_in (by omega) (by omega), memcpy_in (by omega) (by omega),
    memcpy_in (by omega) (by omega), show a + 1 - dst = a - dst + 1 by omega,
    show a + 2 - dst = a - dst + 2 by omega, show a + 3 - dst = a - dst + 3 by omega]
  rfl

theorem sample_at_memcpy_out {mem other : Mem} {dst src n a : Nat} (h : a + 4 ≤ dst ∨ dst + n ≤ a) :
    sample_at (memcpy mem dst other src n) a = sample_at mem a := by
  unfold sample_at
  rw [memcpy_out (by omega), memcpy_out (by omega), memcpy_out (by omega), memcpy_out (by omega)]

/-- The anchor's buffer after `m` sectors. -/
structure AnchorFilled (disc : Nat → Sample) (pos nsec m : Nat) (a : AnchorCtx) : Prop where
  lba0 : a.lba0 = pos
  sectors : a.sectors = nsec
  samples : ∀ j < m * SAMPLES_PER_SECTOR, sample_at a.buf (j * BYTES_PER_SAMPLE) = disc j

variable {a : AnchorCtx} {nsec : Nat}

theorem anchor_sector_filled {c : AccuChunk} {k : Nat} (h : AnchorFilled disc lba0 nsec (m + k) a)
    (hlba : c.lba = lba0 + m) (htop : c.lba + c.nsec ≤ 2 ^ 32) (hk : k < c.nsec) (hin : m + k < nsec)
    (hdata : ∀ i < SAMPLES_PER_SECTOR,
      sample_at c.data (k * c.sector_len + i * BYTES_PER_SAMPLE) =
        disc ((m + k) * SAMPLES_PER_SECTOR + i)) :
    AnchorFilled disc lba0 nsec (m + k + 1) (anchor_sector c a k) := by
  have hidx : sub32 (u32 (c.lba + k)) a.lba0 = m + k := by
    rw [h.lba0]
    exact sector_index hlba htop hk
  unfold anchor_sector
  simp only [hidx, h.sectors]
  rw [if_neg (by omega)]
  refine ⟨h.lba0, rfl, fun j hj => ?_⟩
  have hold := h.samples j
  unfold SAMPLES_PER_SECTOR BYTES_PER_SAMPLE at *
  by_cases hj' : j < (m + k) * 588
  · rw [← hold hj']
    exact sample_at_memcpy_out (by omega)
  · have hnew := hdata (j - (m + k) * 588) (by omega)
    rw [show (m + k) * 588 + (j - (m + k) * 588) = j by omega] at hnew
    rw [← hnew, show (j - (m + k) * 588) * 4 = j * 4 - (m + k) * 588 * 4 by omega]
    exact sample_at_memcpy_in (by omega) (by omega)

theorem anchor_sink_filled (h : AnchorFilled disc lba0 nsec m a) (hcs : Delivers disc lba0 m cs nsec) :
    AnchorFilled disc lba0 nsec nsec (cs.foldl anchor_sink a) := by
  induction cs generalizing m a with
  | nil =>
    obtain rfl : m = nsec := hcs
    exact h
  | cons c cs ih =>
    obtain ⟨hlba, htop, hdata, hrest⟩ := hcs
    have hle := hrest.le
    refine ih ?_ hrest
    exact Loop.foldl_range_inv (fun k a => AnchorFilled disc lba0 nsec (m + k) a) h fun k hk b hb =>
      anchor_sector_filled hb hlba htop hk (by omega) (hdata k hk)

end Accudisc
