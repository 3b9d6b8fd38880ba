import Accudisc.Cdda.IndexMap
import Accudisc.Read.Chunk
import Accudisc.Read.Engine

/-!
# The pregap scan (`pregap_scan.c`)

Each track boundary's neighbourhood is read into one buffer and decoded. The buffer has the bytes that
`malloc` was asked for; every access to it is noted with its first byte and its length.
-/

namespace Accudisc

def ACCUDISC_PREGAP_WINDOW : Nat := 400
def ACCUDISC_PREGAP_TAIL : Nat := 4
def KBPS_PER_X : Nat := 176

/-- `accudisc_pregap_scan_opts`. -/
structure PregapScanOpts where
  window : BitVec 32 := 0
  tail : BitVec 32 := 0
  speed_x : BitVec 16 := 0

def pregap_window (o : PregapScanOpts) : Nat := if o.window ≠ 0 then o.window.toNat
    else ACCUDISC_PREGAP_WINDOW
def pregap_tail (o : PregapScanOpts) : Nat := if o.tail ≠ 0 then o.tail.toNat else ACCUDISC_PREGAP_TAIL

/-- The calls of the scan: what they answer. -/
structure PregapEnv where
  malloc : Nat → Bool
  /-- The code of `accudisc_get_speed` and the current kB/s. -/
  get_speed : Int × Nat
  /-- `*o.cancel` at a boundary. -/
  cancel : Nat → Bool
  /-- The chunks of a boundary's read, and its code. -/
  read : Nat → ReadCall → List AccuChunk × Int

/-- An access to the buffer. -/
structure BufAccess where
  off : Nat
  len : Nat
deriving DecidableEq

/-- `struct sub_collector`, with the buffer and its accesses. -/
structure SubCollector where
  buf : Mem
  base : Nat
  count : Nat
  touched : List BufAccess := []

/-- One sector of a chunk. -/
def sub_collect_sector (c : AccuChunk) (sc : SubCollector) (s : Nat) : SubCollector :=
  let lba := u32 (c.lba + s)
  if lba < sc.base ∨ sc.count ≤ lba - sc.base then sc
  else
    { sc with
      buf := memcpy sc.buf ((lba - sc.base) * 96) c.data (s * c.sector_len + c.audio_len + c.c2_len) 96
      touched := sc.touched ++ [⟨(lba - sc.base) * 96, 96⟩] }

def sub_collect_sink (sc : SubCollector) (c : AccuChunk) : SubCollector :=
  if c.sub_len = 0 then sc else (List.range c.nsec).foldl (sub_collect_sector c) sc

/-- The prior speed where it is a whole number of Nx. -/
def speed_prior_x (e : PregapEnv) : Option Nat :=
  if e.get_speed.1 ≠ ACCUDISC_OK then none
  else if e.get_speed.2 = 0 ∨ e.get_speed.2 % KBPS_PER_X ≠ 0 then none
  else some (e.get_speed.2 / KBPS_PER_X)

/-- A boundary that was read: the track's address, the request, and the bytes of the buffer that
it touched. -/
structure PregapBoundary where
  L : Nat
  req : ReadCall
  touched : List BufAccess

/-- The scan's state: the buffer, the entries written, the boundaries read and the speeds set. -/
structure PregapScan where
  buf : Mem
  out : List IndexMap := []
  log : List PregapBoundary := []
  speeds : List Nat := []

section
variable (e : PregapEnv) (window tail : Nat)

/-- The first sector of a boundary's window, and the count. -/
def pregap_start (L : Nat) : Nat := if window < L then L - window else 0
def pregap_count (L : Nat) : Nat := u32 (u32 (L - pregap_start window L) + tail)

/-- One boundary. -/
def pregap_boundary (s : PregapScan) (t : AccuTrack) : PregapScan × Int :=
  let start := pregap_start window t.lba
  let count := pregap_count window tail t.lba
  let req : ReadCall := { lba := start, count, sub := ACCUDISC_SUB_RAW }
  let r := e.read s.log.length req
  let sc := r.1.foldl sub_collect_sink { buf := memset s.buf 0 0 (count * 96), base := start, count }
  if r.2 ≠ ACCUDISC_OK then
    ({ s with buf := sc.buf, log := s.log ++ [⟨t.lba, req, ⟨0, count * 96⟩ :: sc.touched⟩] }, r.2)
  else
    let one : AccuToc := { first_track := t.number, last_track := t.number, tracks := [t] }
    ({ s with
      buf := sc.buf
      out := s.out ++ accudisc_index_map_decode sc.buf (int32 start) count one 1
      log := s.log ++ [⟨t.lba, req, ⟨0, count * 96⟩ :: sc.touched ++ [⟨0, count * 96⟩]⟩] }, ACCUDISC_OK)

/-- The boundaries in turn, while there is room in `out`. -/
def pregap_loop (max : Nat) : List AccuTrack → PregapScan → PregapScan × Int
  | [], s => (s, ACCUDISC_OK)
  | t :: ts, s =>
    if max ≤ s.out.length then (s, ACCUDISC_OK)
    else if e.cancel s.log.length then (s, ACCUDISC_ERR_CANCELLED)
    else
      match pregap_boundary e window tail s t with
      | (s, rc) => if rc ≠ ACCUDISC_OK then (s, rc) else pregap_loop max ts s

end

/-- What a scan did: its code, the bytes it asked `malloc` for, and its state at the end. -/
structure PregapRun where
  rc : Int
  alloc : Nat := 0
  scan : PregapScan

/-- `args` says whether every argument is there, and `abi` is what the import of the options answers;
`mem` is the buffer as `malloc` leaves it. -/
def accudisc_scan_pregaps (e : PregapEnv) (args : Bool) (abi : Int) (mem : Mem) (toc : AccuToc)
    (o : PregapScanOpts)
    (max : Nat) : PregapRun :=
  if !args ∨ max = 0 then { rc := ACCUDISC_ERR_INVAL, scan := { buf := mem } }
  else if abi ≠ ACCUDISC_OK then { rc := abi, scan := { buf := mem } }
  else
    let alloc := u32 (pregap_window o + pregap_tail o) * 96
    if !e.malloc alloc then { rc := ACCUDISC_ERR_NOMEM, scan := { buf := mem } }
    else
      let prior := if o.speed_x ≠ 0 then speed_prior_x e else none
      let r := pregap_loop e (pregap_window o) (pregap_tail o) max toc.tracks
        { buf := mem, speeds := if o.speed_x ≠ 0 then [o.speed_x.toNat] else [] }
      { rc := r.2, alloc, scan := { r.1 with speeds := r.1.speeds ++ prior.toList.filter (0 < ·) } }

end Accudisc
