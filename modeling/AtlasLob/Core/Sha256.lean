import AtlasLob.Library.Binary

/-!
# The streaming hash

`utility::Sha256`: bytes are buffered up to a block of sixty-four, each full block is mixed into
the eight words of the state, and finishing pads the message with its length in bits.
-/

namespace AtlasLob

open Binary

/-- A hash value. -/
abbrev Digest256 := Block 32

/-- The eight words a block is mixed into. -/
structure HashWords where
  a : UInt32
  b : UInt32
  c : UInt32
  d : UInt32
  e : UInt32
  f : UInt32
  g : UInt32
  h : UInt32
  deriving DecidableEq, Repr

namespace Sha256

/-- Rotate a word to the right. -/
def rotr (value count : UInt32) : UInt32 := (value >>> count) ||| (value <<< (32 - count))

/-- `x` selects between `y` and `z`. -/
def choose (x y z : UInt32) : UInt32 := (x &&& y) ^^^ (~~~x &&& z)

/-- The majority of three words, bit by bit. -/
def majority (x y z : UInt32) : UInt32 := (x &&& y) ^^^ (x &&& z) ^^^ (y &&& z)

/-- `large_sigma_zero`. -/
def largeSigmaZero (value : UInt32) : UInt32 := rotr value 2 ^^^ rotr value 13 ^^^ rotr value 22

/-- `large_sigma_one`. -/
def largeSigmaOne (value : UInt32) : UInt32 := rotr value 6 ^^^ rotr value 11 ^^^ rotr value 25

/-- `small_sigma_zero`. -/
def smallSigmaZero (value : UInt32) : UInt32 := rotr value 7 ^^^ rotr value 18 ^^^ (value >>> 3)

/-- `small_sigma_one`. -/
def smallSigmaOne (value : UInt32) : UInt32 := rotr value 17 ^^^ rotr value 19 ^^^ (value >>> 10)

/-- `round_constants`. -/
def roundConstants : List UInt32 := [
  0x428a2f98, 0x71374491, 0xb5c0fbcf, 0xe9b5dba5, 0x3956c25b, 0x59f111f1, 0x923f82a4, 0xab1c5ed5,
  0xd807aa98, 0x12835b01, 0x243185be, 0x550c7dc3, 0x72be5d74, 0x80deb1fe, 0x9bdc06a7, 0xc19bf174,
  0xe49b69c1, 0xefbe4786, 0x0fc19dc6, 0x240ca1cc, 0x2de92c6f, 0x4a7484aa, 0x5cb0a9dc, 0x76f988da,
  0x983e5152, 0xa831c66d, 0xb00327c8, 0xbf597fc7, 0xc6e00bf3, 0xd5a79147, 0x06ca6351, 0x14292967,
  0x27b70a85, 0x2e1b2138, 0x4d2c6dfc, 0x53380d13, 0x650a7354, 0x766a0abb, 0x81c2c92e, 0x92722c85,
  0xa2bfe8a1, 0xa81a664b, 0xc24b8b70, 0xc76c51a3, 0xd192e819, 0xd6990624, 0xf40e3585, 0x106aa070,
  0x19a4c116, 0x1e376c08, 0x2748774c, 0x34b0bcb5, 0x391c0cb3, 0x4ed8aa4a, 0x5b9cca4f, 0x682e6ff3,
  0x748f82ee, 0x78a5636f, 0x84c87814, 0x8cc70208, 0x90befffa, 0xa4506ceb, 0xbef9a3f7, 0xc67178f2]

/-- The first sixteen words of the schedule: the block itself. -/
def blockWords : List UInt8 → List UInt32
  | b0 :: b1 :: b2 :: b3 :: rest =>
    ((b0.toUInt32 <<< 24) ||| (b1.toUInt32 <<< 16) ||| (b2.toUInt32 <<< 8) ||| b3.toUInt32)
      :: blockWords rest
  | _ => []

/-- The remaining words of the schedule, newest first. -/
def extendSchedule : Nat → List UInt32 → List UInt32
  | 0, newest => newest
  | count + 1, newest =>
    extendSchedule count
      ((smallSigmaOne (newest.getD 1 0) + newest.getD 6 0 + smallSigmaZero (newest.getD 14 0)
        + newest.getD 15 0) :: newest)

/-- The sixty-four words of the schedule of a block. -/
def schedule (block : List UInt8) : List UInt32 :=
  (extendSchedule 48 (blockWords block).reverse).reverse

/-- One round, with its constant and its word. -/
def round (words : HashWords) (input : UInt32 × UInt32) : HashWords :=
  let first := words.h + largeSigmaOne words.e + choose words.e words.f words.g + input.1 + input.2
  let second := largeSigmaZero words.a + majority words.a words.b words.c
  { a := first + second, b := words.a, c := words.b, d := words.c
    e := words.d + first, f := words.e, g := words.f, h := words.g }

/-- `Sha256::transform`: mix one block into the state. -/
def transform (state : HashWords) (block : List UInt8) : HashWords :=
  let mixed := (roundConstants.zip (schedule block)).foldl round state
  { a := state.a + mixed.a, b := state.b + mixed.b, c := state.c + mixed.c, d := state.d + mixed.d
    e := state.e + mixed.e, f := state.f + mixed.f, g := state.g + mixed.g, h := state.h + mixed.h }

end Sha256

/-- A hash in progress. The buffer holds the bytes of the block not yet full. -/
structure Sha256 where
  /-- `state_`. -/
  state : HashWords
  /-- The first `buffer_size_` bytes of `buffer_`. -/
  buffer : List UInt8
  /-- `total_bytes_`. -/
  totalBytes : UInt64
  deriving DecidableEq, Repr

namespace Sha256

/-- A hash of nothing yet. -/
def initial : Sha256 where
  state :=
    { a := 0x6a09e667, b := 0xbb67ae85, c := 0x3c6ef372, d := 0xa54ff53a
      e := 0x510e527f, f := 0x9b05688c, g := 0x1f83d9ab, h := 0x5be0cd19 }
  buffer := []
  totalBytes := 0

/-- Take one byte, mixing the block it fills. -/
def push (hash : Sha256) (byte : UInt8) : Sha256 :=
  let buffer := hash.buffer ++ [byte]
  if buffer.length = 64 then { hash with state := transform hash.state buffer, buffer := [] }
  else { hash with buffer := buffer }

/-- `Sha256::update`. -/
def update (hash : Sha256) (input : List UInt8) : Sha256 :=
  input.foldl push { hash with totalBytes := hash.totalBytes + UInt64.ofNat input.length }

/-- Fill a block with zeros up to a length. -/
def padTo (length : Nat) (buffer : List UInt8) : List UInt8 :=
  buffer ++ List.replicate (length - buffer.length) 0

/-- The bytes of the state. -/
def digest (state : HashWords) : Digest256 where
  bytes := encodeU32 state.a ++ encodeU32 state.b ++ encodeU32 state.c ++ encodeU32 state.d
    ++ encodeU32 state.e ++ encodeU32 state.f ++ encodeU32 state.g ++ encodeU32 state.h
  size := by simp only [encodeU32, List.length_append, toBytes_length]

/-- `Sha256::finish`. -/
def finish (hash : Sha256) : Digest256 :=
  let messageBits := hash.totalBytes * 8
  let marked := hash.buffer ++ [0x80]
  let (state, buffer) :=
    if marked.length > 56 then (transform hash.state (padTo 64 marked), [])
    else (hash.state, marked)
  digest (transform state (padTo 56 buffer ++ encodeU64 messageBits))

end Sha256

/-- `utility::sha256`. -/
def sha256 (input : List UInt8) : Digest256 := (Sha256.initial.update input).finish

end AtlasLob
