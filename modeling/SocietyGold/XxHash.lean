import SocietyGold.Serialize

/-!
# XXH32

The streaming interface of the hash that secure-message buckets are compared with.
-/

namespace SocietyGold
namespace XXH32

def PRIME32_1 : UInt32 := 2654435761

def PRIME32_2 : UInt32 := 2246822519

def PRIME32_3 : UInt32 := 3266489917

def PRIME32_4 : UInt32 := 668265263

def PRIME32_5 : UInt32 := 374761393

/-- `XXH_rotl32`. -/
def rotl32 (x r : UInt32) : UInt32 := (x <<< r) ||| (x >>> (32 - r))

/-- `XXH_readLE32`. -/
def readLE32 (bytes : List UInt8) : UInt32 := UInt32.ofNat (fromBytesLE (bytes.take 4))

/-- `XXH_state32_t`; `memsize` is the length of `memory`. -/
structure State32 where
  total_len : ℕ
  seed : UInt32
  v1 : UInt32
  v2 : UInt32
  v3 : UInt32
  v4 : UInt32
  memory : List UInt8
  deriving DecidableEq

/-- `XXH32_init`. -/
def init (seed : UInt32) : State32 where
  total_len := 0
  seed := seed
  v1 := seed + PRIME32_1 + PRIME32_2
  v2 := seed + PRIME32_2
  v3 := seed
  v4 := seed - PRIME32_1
  memory := []

def round (v : UInt32) (bytes : List UInt8) : UInt32 :=
  rotl32 (v + readLE32 bytes * PRIME32_2) 13 * PRIME32_1

/-- Take sixteen bytes at a time and keep the rest in `memory`. -/
def takeStripes : (fuel : ℕ) → State32 → List UInt8 → State32
  | 0, state, bytes => { state with memory := bytes }
  | fuel + 1, state, bytes =>
      if bytes.length < 16 then { state with memory := bytes }
      else
        takeStripes fuel
          { state with
            v1 := round state.v1 bytes
            v2 := round state.v2 (bytes.drop 4)
            v3 := round state.v3 (bytes.drop 8)
            v4 := round state.v4 (bytes.drop 12) }
          (bytes.drop 16)

/-- `XXH32_update`: what is left in `memory` comes before the input. -/
def update (state : State32) (input : List UInt8) : State32 :=
  let bytes := state.memory ++ input
  takeStripes (bytes.length / 16) { state with total_len := state.total_len + input.length } bytes

/-- The words that are left, and then the bytes. -/
def finish : (fuel : ℕ) → UInt32 → List UInt8 → UInt32
  | 0, h32, _ => h32
  | fuel + 1, h32, bytes =>
      if bytes.length ≥ 4 then
        finish fuel (rotl32 (h32 + readLE32 bytes * PRIME32_3) 17 * PRIME32_4) (bytes.drop 4)
      else
        bytes.foldl (fun h32 byte =>
          rotl32 (h32 + UInt32.ofNat byte.toNat * PRIME32_5) 11 * PRIME32_1) h32

/-- `XXH32_digest`. -/
def digest (state : State32) : UInt32 :=
  let h32 :=
    if state.total_len ≥ 16 then
      rotl32 state.v1 1 + rotl32 state.v2 7 + rotl32 state.v3 12 + rotl32 state.v4 18
    else state.seed + PRIME32_5
  let h32 := h32 + UInt32.ofNat state.total_len
  let h32 := finish (state.memory.length / 4 + 1) h32 state.memory
  let h32 := (h32 ^^^ (h32 >>> 15)) * PRIME32_2
  let h32 := (h32 ^^^ (h32 >>> 13)) * PRIME32_3
  h32 ^^^ (h32 >>> 16)

/-- The published value for the empty input with seed 0. -/
example : digest (init 0) = 0x02CC5D05 := by decide +kernel

end XXH32
end SocietyGold
