import Accudisc.Err
import Accudisc.Read.Sector

/-!
# CD-Text packs as R-W symbols (`cdtext_encode.c`)

Three bytes of the packs make four symbols of six bits, and the packs are a ring. A buffer that C leaves
as it was allocated starts at zero here.
-/

namespace Accudisc

def ADSC_CDTEXT_PACK_BYTES : Nat := 18
def ADSC_RW_BLOCK_BYTES : Nat := 96

def gcd4 (a : Nat) : Nat := if a % 4 = 0 then 4 else if a % 2 = 0 then 2 else 1

def adsc_cdtext_rw_block_count (npacks : Nat) : Nat := if npacks = 0 then 0 else npacks / gcd4 npacks

/-- Pack the three bytes at `i` into four symbols at `o`. -/
def pack3 (inp : Mem) (i : Nat) (out : Mem) (o : Nat) : Mem :=
  let out := Function.update out o ((inp i >>> 2) &&& 0x3f)
  let out := Function.update out (o + 1) (((inp i <<< 4) &&& 0x30) ||| ((inp (i + 1) >>> 4) &&& 0x0f))
  let out := Function.update out (o + 2) (((inp (i + 1) <<< 2) &&& 0x3c) ||| ((inp (i + 2) >>> 6) &&& 0x03))
  Function.update out (o + 3) (inp (i + 2) &&& 0x3f)

/-- The four packs of block `b`, gathered from the ring. -/
def gather_packs (packs : Mem) (npacks b : Nat) : Mem :=
  (List.range 4).foldl (fun buf j =>
    memcpy buf (j * ADSC_CDTEXT_PACK_BYTES) packs
      (u32 (u32 (4 * b + j) % npacks * ADSC_CDTEXT_PACK_BYTES)) ADSC_CDTEXT_PACK_BYTES) fun _ => 0

/-- One turn over the blocks. -/
def encode_block (packs : Mem) (npacks : Nat) (out : Mem) (b : Nat) : Mem :=
  let buf := gather_packs packs npacks b
  (List.range 24).foldl (fun out g => pack3 buf (g * 3) out (u32 (b * ADSC_RW_BLOCK_BYTES) + g * 4)) out

/-- The blocks, in a buffer of `adsc_cdtext_rw_block_count npacks` of them. -/
def adsc_cdtext_encode_rw (packs : Mem) (npacks : Nat) (out : Mem) : Except Int Mem :=
  if npacks = 0 then .error ACCUDISC_ERR_INVAL
  else .ok ((List.range (adsc_cdtext_rw_block_count npacks)).foldl (encode_block packs npacks) out)

end Accudisc
