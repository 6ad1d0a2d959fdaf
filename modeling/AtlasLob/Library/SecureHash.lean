import Mathlib

/-!
# The secure hash standard

SHA-256 on strings of bits: the message is padded to whole blocks, a block is parsed into sixteen
words and expanded to sixty-four, and each word takes part in one round. The constants are the
fractional parts of the square and cube roots of the first primes.
-/

namespace AtlasLob.SecureHash

/-- A string of bits. -/
abbrev Bits := List Bool

/-- The number a string of bits stands for, most significant bit first. -/
def valueOfBits (bits : Bits) : Nat := bits.foldl (fun value bit => 2 * value + bit.toNat) 0

/-- The low bits of a number, most significant bit first. -/
def bitsOfNat : Nat → Nat → Bits
  | 0, _ => []
  | width + 1, value => value.testBit width :: bitsOfNat width value

/-- The bits of a string of bytes. -/
def bitsOfBytes (bytes : List UInt8) : Bits :=
  bytes.flatMap fun byte => bitsOfNat 8 byte.toNat

section Padding

/-- The number of zero bits between the marker and the length. -/
def zeroBits (length : Nat) : Nat := (959 - length % 512) % 512

/-- The padded message. -/
def pad (message : Bits) : Bits :=
  message ++ true :: (List.replicate (zeroBits message.length) false ++
    bitsOfNat 64 message.length)

/-- The first blocks of a string of bits. -/
def blocks : Nat → Bits → List Bits
  | 0, _ => []
  | count + 1, bits => bits.take 512 :: blocks count (bits.drop 512)

end Padding

section Compression

/-- A word of a block. -/
def blockWord (block : Bits) (index : Nat) : BitVec 32 :=
  BitVec.ofNat 32 (valueOfBits ((block.drop (32 * index)).take 32))

/-- The choice between two words. -/
def choose (x y z : BitVec 32) : BitVec 32 := (x &&& y) ^^^ (~~~x &&& z)

/-- The majority of three words. -/
def majority (x y z : BitVec 32) : BitVec 32 := (x &&& y) ^^^ (x &&& z) ^^^ (y &&& z)

/-- The first large sum. -/
def largeZero (x : BitVec 32) : BitVec 32 :=
  x.rotateRight 2 ^^^ x.rotateRight 13 ^^^ x.rotateRight 22

/-- The second large sum. -/
def largeOne (x : BitVec 32) : BitVec 32 :=
  x.rotateRight 6 ^^^ x.rotateRight 11 ^^^ x.rotateRight 25

/-- The first small sum. -/
def smallZero (x : BitVec 32) : BitVec 32 :=
  x.rotateRight 7 ^^^ x.rotateRight 18 ^^^ (x >>> 3)

/-- The second small sum. -/
def smallOne (x : BitVec 32) : BitVec 32 :=
  x.rotateRight 17 ^^^ x.rotateRight 19 ^^^ (x >>> 10)

/-- The primes below a bound, in order. -/
def primesBelow (bound : Nat) : List Nat :=
  (List.range bound).filter fun number =>
    2 ≤ number ∧ ∀ factor ∈ List.range number, 2 ≤ factor → number % factor ≠ 0

/-- The first thirty-two bits of the fractional part of a root. -/
def rootFraction (degree number : Nat) : BitVec 32 :=
  BitVec.ofNat 32 (Nat.nthRoot degree (number * 2 ^ (32 * degree)))

/-- The constants of the rounds: the cube roots of the first sixty-four primes. -/
def constants : List (BitVec 32) := (primesBelow 312).map (rootFraction 3)

/-- The words of the expanded block. -/
def scheduleWord (block : Bits) (index : Nat) : BitVec 32 :=
  if index < 16 then blockWord block index
  else smallOne (scheduleWord block (index - 2)) + scheduleWord block (index - 7)
    + smallZero (scheduleWord block (index - 15)) + scheduleWord block (index - 16)

/-- Eight words. -/
structure Work where
  a : BitVec 32
  b : BitVec 32
  c : BitVec 32
  d : BitVec 32
  e : BitVec 32
  f : BitVec 32
  g : BitVec 32
  h : BitVec 32
  deriving DecidableEq, Repr

/-- One round, with its constant and its word. -/
def round (work : Work) (constant word : BitVec 32) : Work :=
  let first := work.h + largeOne work.e + choose work.e work.f work.g + constant + word
  let second := largeZero work.a + majority work.a work.b work.c
  { a := first + second, b := work.a, c := work.b, d := work.c
    e := work.d + first, f := work.e, g := work.f, h := work.g }

/-- The hash value after a block. -/
def compress (hash : Work) (block : Bits) : Work :=
  let work := (List.range 64).foldl
    (fun work index => round work (constants.getD index 0) (scheduleWord block index)) hash
  { a := work.a + hash.a, b := work.b + hash.b, c := work.c + hash.c, d := work.d + hash.d
    e := work.e + hash.e, f := work.f + hash.f, g := work.g + hash.g, h := work.h + hash.h }

/-- The fractions of the square roots of the first eight primes. -/
def initial : Work where
  a := rootFraction 2 2
  b := rootFraction 2 3
  c := rootFraction 2 5
  d := rootFraction 2 7
  e := rootFraction 2 11
  f := rootFraction 2 13
  g := rootFraction 2 17
  h := rootFraction 2 19

/-- The bits of eight words. -/
def Work.bits (work : Work) : Bits :=
  [work.a, work.b, work.c, work.d, work.e, work.f, work.g, work.h].flatMap
    fun word => bitsOfNat 32 word.toNat

/-- SHA-256. -/
def sha256 (message : Bits) : Bits :=
  ((blocks ((pad message).length / 512) (pad message)).foldl compress initial).bits

end Compression

section Strings

/-- The bits of a width are as many. -/
@[simp] theorem bitsOfNat_length (width value : Nat) : (bitsOfNat width value).length = width := by
  induction width with
  | zero => rfl
  | succ width ih => rw [bitsOfNat, List.length_cons, ih]

/-- The bits of bytes are eight times as many. -/
@[simp] theorem bitsOfBytes_length (bytes : List UInt8) :
    (bitsOfBytes bytes).length = 8 * bytes.length := by
  induction bytes with
  | nil => rfl
  | cons byte rest ih =>
    unfold bitsOfBytes at ih ⊢
    rw [List.flatMap_cons, List.length_append, bitsOfNat_length, ih, List.length_cons]
    omega

/-- The bits of bytes in two parts. -/
theorem bitsOfBytes_append (left right : List UInt8) :
    bitsOfBytes (left ++ right) = bitsOfBytes left ++ bitsOfBytes right :=
  List.flatMap_append

/-- The bits of a byte before others. -/
theorem bitsOfBytes_cons (byte : UInt8) (rest : List UInt8) :
    bitsOfBytes (byte :: rest) = bitsOfNat 8 byte.toNat ++ bitsOfBytes rest := rfl

/-- Whole bytes dropped are their bits dropped. -/
theorem bitsOfBytes_drop (bytes : List UInt8) (count : Nat) :
    (bitsOfBytes bytes).drop (8 * count) = bitsOfBytes (bytes.drop count) := by
  by_cases inside : count ≤ bytes.length
  · have length : (bitsOfBytes (bytes.take count)).length = 8 * count := by
      rw [bitsOfBytes_length, List.length_take, min_eq_left inside]
    conv => lhs; rw [← List.take_append_drop count bytes, bitsOfBytes_append]
    rw [← length, List.drop_left]
  · have size := bitsOfBytes_length bytes
    rw [List.drop_eq_nil_of_le (by omega), List.drop_eq_nil_of_le (by omega)]
    rfl

/-- Whole bytes taken are their bits taken. -/
theorem bitsOfBytes_take (bytes : List UInt8) (count : Nat) :
    (bitsOfBytes bytes).take (8 * count) = bitsOfBytes (bytes.take count) := by
  by_cases inside : count ≤ bytes.length
  · have length : (bitsOfBytes (bytes.take count)).length = 8 * count := by
      rw [bitsOfBytes_length, List.length_take, min_eq_left inside]
    conv => lhs; rw [← List.take_append_drop count bytes, bitsOfBytes_append]
    rw [← length, List.take_left]
  · have size := bitsOfBytes_length bytes
    rw [List.take_of_length_le (by omega), List.take_of_length_le (by omega)]

/-- Zero bytes are zero bits. -/
theorem bitsOfBytes_zeros (count : Nat) :
    bitsOfBytes (List.replicate count 0) = List.replicate (8 * count) false := by
  induction count with
  | zero => rfl
  | succ count ih =>
    rw [List.replicate_succ, bitsOfBytes_cons, ih, Nat.mul_succ, Nat.add_comm,
      List.replicate_add]
    rfl

/-- Reading on from a value moves it up. -/
theorem foldl_bits (bits : Bits) (value : Nat) :
    bits.foldl (fun value bit => 2 * value + bit.toNat) value =
      value * 2 ^ bits.length + valueOfBits bits := by
  unfold valueOfBits
  induction bits generalizing value with
  | nil => simp
  | cons bit rest ih =>
    rw [List.foldl_cons, List.foldl_cons, ih, ih (2 * 0 + bit.toNat), List.length_cons]
    ring

/-- The bits of a number stand for what fits them. -/
theorem valueOfBits_bitsOfNat (width value : Nat) :
    valueOfBits (bitsOfNat width value) = value % 2 ^ width := by
  induction width with
  | zero => rw [Nat.pow_zero, Nat.mod_one]; rfl
  | succ width ih =>
    have first : valueOfBits (bitsOfNat (width + 1) value) =
        (2 * 0 + (value.testBit width).toNat) * 2 ^ (bitsOfNat width value).length +
          valueOfBits (bitsOfNat width value) :=
      foldl_bits (bitsOfNat width value) _
    rw [first, ih, bitsOfNat_length, Nat.testBit_eq_decide_div_mod_eq, Nat.pow_succ, Nat.mod_mul]
    have bit : value / 2 ^ width % 2 = 0 ∨ value / 2 ^ width % 2 = 1 := by
      omega
    rcases bit with none | one
    · rw [none]
      simp
    · rw [one]
      simp [Nat.add_comm]

/-- The bits of a number ignore what is above them. -/
theorem bitsOfNat_append (high low value : Nat) :
    bitsOfNat (high + low) value = bitsOfNat high (value / 2 ^ low) ++ bitsOfNat low value := by
  induction high with
  | zero => rw [Nat.zero_add]; rfl
  | succ high ih =>
    rw [Nat.succ_add, bitsOfNat, bitsOfNat, ih, List.cons_append, Nat.testBit_div_two_pow,
      Nat.add_comm high low]

/-- The low bits of a number are those of its remainder. -/
theorem bitsOfNat_mod {width bound : Nat} (inside : width ≤ bound) (value : Nat) :
    bitsOfNat width (value % 2 ^ bound) = bitsOfNat width value := by
  induction width with
  | zero => rfl
  | succ width ih =>
    rw [bitsOfNat, bitsOfNat, ih (by omega), Nat.testBit_mod_two_pow,
      decide_eq_true (by omega : width < bound), Bool.true_and]

end Strings

end AtlasLob.SecureHash
