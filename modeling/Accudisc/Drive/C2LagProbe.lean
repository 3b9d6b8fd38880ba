import Accudisc.Drive.C2Lag

/-!
# Probing the C2 lag (`c2lag.c`)

The device half: the span is scanned for chunks with fired C2, each of these is read again as a window
with a run-up, and every two good reads of a window are scored sector by sector. The drive is a state `σ`
with an answer to a READ CD of audio with C2 (a code and the sectors); the read that empties its cache
only changes the state.
-/

namespace Accudisc

def C2LAG_WINDOW_READS : Nat := 4
def C2LAG_MAX_WINDOWS : Nat := 8
def C2LAG_RUNUP : Nat := 16
def C2LAG_FLUSH_DISTANCE : Nat := 5000

/-- `chunk` and `wmax`. -/
def C2LAG_CHUNK : Nat := 8
def C2LAG_WMAX : Nat := C2LAG_CHUNK + C2LAG_RUNUP

structure C2LagHost (σ : Type) where
  read_cd : Nat → Nat → σ → (Int × (Nat → C2Read)) × σ
  flush : Nat → σ → σ

/-- A READ CD of the probe, by where it stores: the chunk's buffer, a slot of the windows', the
flush buffer. -/
inductive C2LagCmd where
  | SCAN (lba n : Nat)
  | WINDOW (slot lba n : Nat)
  | FLUSH (lba : Nat)
deriving DecidableEq

/-- The probe's locals, with the commands and the pairs scored so far, latest first and in order. -/
structure C2LagProbe (σ : Type) where
  drive : σ
  win : Nat → C2Read
  out : C2LagOut := {}
  windows : List (Nat × Nat) := []
  acc : C2LagAcc := {}
  log : List C2LagCmd := []
  fed : List (C2Read × C2Read) := []

section
variable {σ : Type} (host : C2LagHost σ)

def c2_bits (c2 : Buf (BitVec 8) ACCUDISC_BYTES_C2) : Nat :=
  (List.range ACCUDISC_BYTES_C2).foldl (fun bits i => u32 (bits + popcount (Buf.get c2 i))) 0

/-! ## The scan -/

variable (lba count : Nat)

/-- `n` of a turn. -/
def c2lag_scan_len (off : Nat) : Nat := if sub32 count off < C2LAG_CHUNK then sub32 count off
    else C2LAG_CHUNK

/-- One chunk; a chunk that fails carries no flags. -/
def c2lag_scan_chunk (off : Nat) (s : C2LagProbe σ) : C2LagProbe σ :=
  let n := c2lag_scan_len count off
  let r := host.read_cd (u32 (lba + off)) n s.drive
  let s := { s with drive := r.2, log := .SCAN (u32 (lba + off)) n :: s.log }
  if r.1.1 ≠ ACCUDISC_OK then s
  else
    let fired := (List.range n).countP fun i => c2_bits (r.1.2 i).c2 ≠ 0
    let s := { s with out := { s.out with sectors_active := s.out.sectors_active + BitVec.ofNat 32 fired } }
    if fired ≠ 0 then { s with windows := s.windows ++ [(u32 (lba + off), n)] } else s

/-- The scan from `off` for `turns` more chunks. -/
def c2lag_scan : Nat → Nat → C2LagProbe σ → C2LagProbe σ
  | 0, _, s => s
  | turns + 1, off, s =>
    if off < count ∧ s.windows.length < C2LAG_MAX_WINDOWS then
      c2lag_scan turns (u32 (off + C2LAG_CHUNK)) (c2lag_scan_chunk host lba count off s)
    else s

/-! ## The windows -/

/-- `cache_defeat`. -/
def c2lag_cache_defeat (cur span_lo : Nat) (s : C2LagProbe σ) : C2LagProbe σ :=
  let away :=
    if cur ≥ u32 (span_lo + C2LAG_FLUSH_DISTANCE) then sub32 cur C2LAG_FLUSH_DISTANCE
    else u32 (cur + C2LAG_FLUSH_DISTANCE)
  { s with drive := host.flush away s.drive, log := .FLUSH away :: s.log }

/-- `wlba` and `wn`. -/
def c2lag_window (w : Nat × Nat) : Nat × Nat :=
  let wlba := if w.1 ≥ u32 (lba + C2LAG_RUNUP) then sub32 w.1 C2LAG_RUNUP else lba
  (wlba, sub32 (u32 (w.1 + w.2)) wlba)

/-- One read of the window into slot `got`. -/
def c2lag_window_read (wlba wn got : Nat) (s : C2LagProbe σ) : Nat × C2LagProbe σ :=
  let s := c2lag_cache_defeat host wlba lba s
  let r := host.read_cd wlba wn s.drive
  (if r.1.1 = ACCUDISC_OK then got + 1 else got,
    { s with
      drive := r.2
      log := .WINDOW got wlba wn :: s.log
      win := fun x =>
        if got * C2LAG_WMAX ≤ x ∧ x < got * C2LAG_WMAX + wn then
          r.1.2 (x - got * C2LAG_WMAX) else s.win x })

def c2lag_window_reads (wlba wn : Nat) (s : C2LagProbe σ) : Nat × C2LagProbe σ :=
  (List.range C2LAG_WINDOW_READS).foldl (fun p _ => c2lag_window_read host lba wlba wn p.1 p.2) (0, s)

/-- Every two good reads, sector by sector. -/
def c2lag_pairs (got wn : Nat) (win : Nat → C2Read) : List (C2Read × C2Read) :=
  (List.range got).flatMap fun i =>
    (List.range' (i + 1) (got - (i + 1))).flatMap fun j =>
      (List.range wn).map fun s => (win (i * C2LAG_WMAX + s), win (j * C2LAG_WMAX + s))

def c2lag_score (ps : List (C2Read × C2Read)) (s : C2LagProbe σ) : C2LagProbe σ :=
  { s with acc := ps.foldl (fun acc p => adsc_c2lag_add acc p.1 p.2) s.acc, fed := s.fed ++ ps }

def c2lag_score_window (s : C2LagProbe σ) (w : Nat × Nat) : C2LagProbe σ :=
  let wl := c2lag_window lba w
  let r := c2lag_window_reads host lba wl.1 wl.2 s
  c2lag_score (c2lag_pairs r.1 wl.2 r.2.win) r.2

end

end Accudisc
