import Accudisc.Mem

/-!
# What a sink is given (`accudisc.h`)

For the callers of the read engine. How it cuts a request into chunks is the engine's affair; to a caller
a read is the chunks its sink is called with, and a code.
-/

namespace Accudisc

/-- `accudisc_chunk`, with the memory that `data` points to. -/
structure AccuChunk where
  lba : Nat
  nsec : Nat
  data : Mem
  sector_len : Nat
  audio_len : Nat := 2352
  c2_len : Nat := 0
  sub_len : Nat := 0

/-- The fields of `accudisc_read_req` that the callers set. -/
structure ReadCall where
  lba : Nat
  count : Nat
  c2 : Nat := 0
  sub : Nat := 0
  retries : Nat := 0
  speed_x : Nat := 0
deriving DecidableEq

end Accudisc
