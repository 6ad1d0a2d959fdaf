import Mathlib

/-!
# Fixed-width binary encodings

Big-endian words and fixed-length blocks of bytes, a reader that consumes a byte string from
the front and reports where it stopped, and the relation between a writer and a reader that
invert each other in both directions. The relation composes along the fields of a record, so
that a whole layout is inverse because its fields are.
-/

namespace AtlasLob.Binary

/-- A byte string of fixed length. -/
structure Block (count : Nat) where
  /-- The bytes in order. -/
  bytes : List UInt8
  /-- Their number. -/
  size : bytes.length = count
  deriving DecidableEq, Repr

namespace Block

variable {count : Nat}

/-- Blocks are equal when their bytes are. -/
@[ext] theorem ext {left right : Block count} (same : left.bytes = right.bytes) : left = right := by
  cases left
  cases right
  cases same
  rfl

end Block

/-- The low bytes of a value, most significant first. -/
def toBytes : Nat → Nat → List UInt8
  | 0, _ => []
  | count + 1, value => UInt8.ofNat (value >>> (8 * count)) :: toBytes count value

/-- The value of a byte string, most significant byte first. -/
def ofBytes (bytes : List UInt8) : Nat :=
  bytes.foldl (fun value byte => (value <<< 8) ||| byte.toNat) 0

/-- A value takes the bytes it is given. -/
@[simp] theorem toBytes_length (count value : Nat) : (toBytes count value).length = count := by
  induction count with
  | zero => rfl
  | succ count ih => rw [toBytes, List.length_cons, ih]

/-- Reading on from a value moves it up. -/
theorem foldl_bytes (bytes : List UInt8) (value : Nat) :
    bytes.foldl (fun value byte => (value <<< 8) ||| byte.toNat) value =
      value * 256 ^ bytes.length + ofBytes bytes := by
  unfold ofBytes
  induction bytes generalizing value with
  | nil => simp
  | cons byte rest ih =>
    have small : byte.toNat < 2 ^ 8 := byte.toNat_lt
    rw [List.foldl_cons, List.foldl_cons, ih, ih (0 <<< 8 ||| byte.toNat), Nat.zero_shiftLeft,
      Nat.zero_or, ← Nat.shiftLeft_add_eq_or_of_lt small, Nat.shiftLeft_eq, List.length_cons]
    ring

/-- The first byte is the most significant. -/
theorem ofBytes_cons (byte : UInt8) (rest : List UInt8) :
    ofBytes (byte :: rest) = byte.toNat * 256 ^ rest.length + ofBytes rest := by
  show rest.foldl _ (0 <<< 8 ||| byte.toNat) = _
  rw [foldl_bytes, Nat.zero_shiftLeft, Nat.zero_or]

/-- A value fits its bytes. -/
theorem ofBytes_lt (bytes : List UInt8) : ofBytes bytes < 256 ^ bytes.length := by
  induction bytes with
  | nil => exact Nat.zero_lt_one
  | cons byte rest ih =>
    have small : byte.toNat + 1 ≤ 256 := byte.toNat_lt
    rw [ofBytes_cons, List.length_cons]
    calc byte.toNat * 256 ^ rest.length + ofBytes rest
        < byte.toNat * 256 ^ rest.length + 256 ^ rest.length := Nat.add_lt_add_left ih _
      _ = (byte.toNat + 1) * 256 ^ rest.length := by ring
      _ ≤ 256 * 256 ^ rest.length := Nat.mul_le_mul_right _ small
      _ = 256 ^ (rest.length + 1) := by ring

/-- A shift by whole bytes is a division. -/
theorem shiftRight_bytes (value count : Nat) : value >>> (8 * count) = value / 256 ^ count := by
  rw [Nat.shiftRight_eq_div_pow, Nat.pow_mul]

/-- Reading back the bytes of a value returns what fits them. -/
theorem ofBytes_toBytes (count value : Nat) :
    ofBytes (toBytes count value) = value % 256 ^ count := by
  induction count with
  | zero => rw [Nat.pow_zero, Nat.mod_one]; rfl
  | succ count ih =>
    have digit : (UInt8.ofNat (value / 256 ^ count)).toNat = value / 256 ^ count % 256 :=
      UInt8.toNat_ofNat'
    rw [toBytes, ofBytes_cons, ih, toBytes_length, shiftRight_bytes, digit, Nat.pow_succ,
      Nat.mod_mul, Nat.add_comm, Nat.mul_comm]

/-- The bytes of a value ignore what is above them. -/
theorem toBytes_add (count high low : Nat) :
    toBytes count (high * 256 ^ count + low) = toBytes count low := by
  induction count generalizing high with
  | zero => rfl
  | succ count ih =>
    have split : high * 256 ^ (count + 1) + low = high * 256 * 256 ^ count + low := by ring
    rw [toBytes, toBytes, split, ih]
    congr 1
    apply UInt8.toNat_inj.mp
    rw [UInt8.toNat_ofNat', UInt8.toNat_ofNat', shiftRight_bytes, shiftRight_bytes,
      Nat.add_comm (high * 256 * 256 ^ count) low,
      Nat.add_mul_div_right low (high * 256) (Nat.pow_pos (by decide))]
    omega

/-- Every byte string is the bytes of its value. -/
theorem toBytes_ofBytes (bytes : List UInt8) : toBytes bytes.length (ofBytes bytes) = bytes := by
  induction bytes with
  | nil => rfl
  | cons byte rest ih =>
    rw [List.length_cons, toBytes, ofBytes_cons, toBytes_add, ih, shiftRight_bytes, Nat.add_comm,
      Nat.add_mul_div_right _ _ (Nat.pow_pos (by decide)), Nat.div_eq_of_lt (ofBytes_lt rest),
      Nat.zero_add, UInt8.ofNat_toNat]

/-- Equal values of equally many bytes are equal bytes. -/
theorem ofBytes_injective {left right : List UInt8} (length : left.length = right.length)
    (same : ofBytes left = ofBytes right) : left = right := by
  rw [← toBytes_ofBytes left, ← toBytes_ofBytes right, length, same]

/-- Where a reader stands and what lies before it. -/
structure Cursor where
  /-- How many bytes have been consumed. -/
  position : Nat
  /-- The bytes not yet consumed. -/
  rest : List UInt8
  deriving DecidableEq, Repr

/-- A reader consumes bytes from the front; failing, it reports the position it stopped at. -/
abbrev Reader (α : Type) := StateT Cursor (Except Nat) α

namespace Reader

variable {α β : Type}

/-- A run of two readers succeeds exactly when both do. -/
theorem bind_eq_ok {first : Reader α} {second : α → Reader β} {cursor next : Cursor}
    {value : β} :
    (first >>= second) cursor = .ok (value, next) ↔
      ∃ part middle, first cursor = .ok (part, middle) ∧
        second part middle = .ok (value, next) := by
  show (first cursor).bind (fun pair => second pair.1 pair.2) = _ ↔ _
  cases first cursor with
  | error position => simp [Except.bind]
  | ok pair =>
    obtain ⟨part, middle⟩ := pair
    simp [Except.bind]

/-- A reader that has succeeded hands over to the next. -/
theorem bind_of_ok {first : Reader α} {second : α → Reader β} {cursor middle : Cursor} {part : α}
    (succeeded : first cursor = .ok (part, middle)) :
    (first >>= second) cursor = second part middle := by
  show (first cursor).bind _ = _
  rw [succeeded]
  rfl

/-- Consume a byte string of given length. -/
def block (count : Nat) : Reader (Block count) := fun cursor =>
  if short : cursor.rest.length < count then .error cursor.position
  else .ok (⟨cursor.rest.take count, by rw [List.length_take]; omega⟩,
    ⟨cursor.position + count, cursor.rest.drop count⟩)

/-- Consume a word of given width. -/
def word (count : Nat) : Reader Nat := do
  let bytes ← block count
  pure (ofBytes bytes.bytes)

/-- Consume an eight-bit word. -/
def u8 : Reader UInt8 := do
  let value ← word 1
  pure (UInt8.ofNat value)

/-- Consume a sixteen-bit word. -/
def u16 : Reader UInt16 := do
  let value ← word 2
  pure (UInt16.ofNat value)

/-- Consume a thirty-two-bit word. -/
def u32 : Reader UInt32 := do
  let value ← word 4
  pure (UInt32.ofNat value)

/-- Consume a sixty-four-bit word. -/
def u64 : Reader UInt64 := do
  let value ← word 8
  pure (UInt64.ofNat value)

/-- Consume a signed sixty-four-bit word. -/
def i64 : Reader Int64 := do
  let value ← u64
  pure value.toInt64

/-- Nothing may be left. -/
def finish : Reader Unit := fun cursor =>
  if cursor.rest = [] then .ok ((), cursor) else .error cursor.position

/-- Consume a number of values. -/
def many (count : Nat) (read : Reader α) : Reader (List α) :=
  match count with
  | 0 => pure []
  | count + 1 => do
    let first ← read
    let rest ← many count read
    pure (first :: rest)

end Reader

/-- Write an eight-bit word. -/
def encodeU8 (value : UInt8) : List UInt8 := toBytes 1 value.toNat

/-- Write a sixteen-bit word. -/
def encodeU16 (value : UInt16) : List UInt8 := toBytes 2 value.toNat

/-- Write a thirty-two-bit word. -/
def encodeU32 (value : UInt32) : List UInt8 := toBytes 4 value.toNat

/-- Write a sixty-four-bit word. -/
def encodeU64 (value : UInt64) : List UInt8 := toBytes 8 value.toNat

/-- Write a signed sixty-four-bit word. -/
def encodeI64 (value : Int64) : List UInt8 := encodeU64 value.toUInt64

section Exactness

variable {α β : Type}

/-- On the admitted values the reader returns what the writer wrote, and it reads nothing but
what the writer writes of an admitted value. -/
structure ExactOn (admitted : α → Prop) (encode : α → List UInt8) (read : Reader α) : Prop where
  /-- Reading what was written returns the value and leaves what follows. -/
  reads : ∀ value, admitted value → ∀ position suffix,
    read ⟨position, encode value ++ suffix⟩ =
      .ok (value, ⟨position + (encode value).length, suffix⟩)
  /-- Whatever is read is an encoding. -/
  canonical : ∀ cursor value next, read cursor = .ok (value, next) →
    admitted value ∧ cursor.rest = encode value ++ next.rest ∧
      next.position = cursor.position + (encode value).length

/-- A writer and a reader that invert each other. -/
abbrev Exact (encode : α → List UInt8) (read : Reader α) : Prop :=
  ExactOn (fun _ => True) encode read

/-- The last field of a record. -/
theorem ExactOn.last {admitted : β → Prop} {encode : α → List UInt8} {read : Reader α}
    {build : α → β} (part : β → α) (first : Exact encode read)
    (only : ∀ value whole, admitted whole ∧ part whole = value ↔ whole = build value) :
    ExactOn admitted (fun whole => encode (part whole)) (do
      let value ← read
      pure (build value)) := by
  constructor
  · intro whole holds position suffix
    rw [Reader.bind_of_ok (first.reads _ trivial position suffix),
      ← (only (part whole) whole).mp ⟨holds, rfl⟩]
    rfl
  · intro cursor whole next succeeded
    obtain ⟨value, middle, head, tail⟩ := Reader.bind_eq_ok.mp succeeded
    cases tail
    obtain ⟨holds, same⟩ := (only value (build value)).mpr rfl
    rw [same]
    obtain ⟨_, bytes, moved⟩ := first.canonical _ _ _ head
    exact ⟨holds, bytes, moved⟩

/-- One field of a record, and the fields after it. -/
theorem ExactOn.field {admitted : β → Prop} {encode : α → List UInt8} {read : Reader α}
    {encodeRest : β → List UInt8} {readRest : α → Reader β} (part : β → α)
    (first : Exact encode read)
    (rest : ∀ value, ExactOn (fun whole => admitted whole ∧ part whole = value) encodeRest
      (readRest value)) :
    ExactOn admitted (fun whole => encode (part whole) ++ encodeRest whole)
      (read >>= readRest) := by
  constructor
  · intro whole holds position suffix
    rw [List.append_assoc, Reader.bind_of_ok (first.reads _ trivial position _),
      (rest (part whole)).reads whole ⟨holds, rfl⟩, List.length_append, Nat.add_assoc]
  · intro cursor whole next succeeded
    obtain ⟨value, middle, head, tail⟩ := Reader.bind_eq_ok.mp succeeded
    obtain ⟨_, bytes, moved⟩ := first.canonical _ _ _ head
    obtain ⟨⟨holds, same⟩, restBytes, restMoved⟩ := (rest value).canonical _ _ _ tail
    subst same
    refine ⟨holds, ?_, ?_⟩
    · rw [bytes, restBytes, List.append_assoc]
    · rw [restMoved, moved, List.length_append, Nat.add_assoc]

/-- A change of representation with an inverse. -/
theorem Exact.map {encode : α → List UInt8} {read : Reader α} (exact : Exact encode read)
    {pack : α → β} {unpack : β → α} (inverse : ∀ value, pack (unpack value) = value)
    (back : ∀ cursor raw next, read cursor = .ok (raw, next) → unpack (pack raw) = raw) :
    Exact (fun value => encode (unpack value)) (do let raw ← read; pure (pack raw)) := by
  constructor
  · intro value _ position suffix
    rw [Reader.bind_of_ok (exact.reads _ trivial position suffix), inverse]
    rfl
  · intro cursor value next succeeded
    obtain ⟨raw, middle, head, tail⟩ := Reader.bind_eq_ok.mp succeeded
    cases tail
    rw [back _ _ _ head]
    exact exact.canonical _ _ _ head

/-- Blocks are written as they are. -/
theorem block_exact (count : Nat) : Exact Block.bytes (Reader.block count) := by
  constructor
  · intro value _ position suffix
    have long : ¬ (value.bytes ++ suffix).length < count := by
      rw [List.length_append, value.size]
      omega
    unfold Reader.block
    simp only
    rw [dif_neg long]
    congr 2
    · exact Block.ext (by
        show (value.bytes ++ suffix).take count = value.bytes
        rw [List.take_append_of_le_length (Nat.le_of_eq value.size.symm),
          List.take_of_length_le (Nat.le_of_eq value.size)])
    · rw [value.size, List.drop_append_of_le_length (Nat.le_of_eq value.size.symm),
        List.drop_of_length_le (Nat.le_of_eq value.size), List.nil_append]
  · intro cursor value next succeeded
    unfold Reader.block at succeeded
    by_cases short : cursor.rest.length < count
    · rw [dif_pos short] at succeeded
      cases succeeded
    · rw [dif_neg short] at succeeded
      cases succeeded
      refine ⟨trivial, (List.take_append_drop count cursor.rest).symm, ?_⟩
      show cursor.position + count = cursor.position + (cursor.rest.take count).length
      rw [List.length_take]
      omega

/-- A block is read from anything long enough. -/
theorem block_of_long {count : Nat} {cursor : Cursor} (long : count ≤ cursor.rest.length) :
    Reader.block count cursor =
      .ok (⟨cursor.rest.take count, by rw [List.length_take]; omega⟩,
        ⟨cursor.position + count, cursor.rest.drop count⟩) := by
  unfold Reader.block
  rw [dif_neg (Nat.not_lt.mpr long)]

/-- A word is read from anything long enough. -/
theorem u32_of_long {cursor : Cursor} (long : 4 ≤ cursor.rest.length) :
    Reader.u32 cursor =
      .ok (UInt32.ofNat (ofBytes (cursor.rest.take 4)),
        ⟨cursor.position + 4, cursor.rest.drop 4⟩) := by
  unfold Reader.u32 Reader.word
  rw [Reader.bind_of_ok (Reader.bind_of_ok (block_of_long long))]
  rfl

/-- The first bytes of a string fit a word of their width. -/
theorem ofBytes_take_lt (count : Nat) (bytes : List UInt8) :
    ofBytes (bytes.take count) < 256 ^ count := by
  have bound := ofBytes_lt (bytes.take count)
  have short : (bytes.take count).length ≤ count := List.length_take_le ..
  exact Nat.lt_of_lt_of_le bound (Nat.pow_le_pow_right (by decide) short)

/-- A word read from the front is the value of the bytes there. -/
theorem word_canonical {count : Nat} {cursor next : Cursor} {value : Nat}
    (succeeded : Reader.word count cursor = .ok (value, next)) :
    value < 256 ^ count ∧ cursor.rest = toBytes count value ++ next.rest ∧
      next.position = cursor.position + count := by
  obtain ⟨bytes, middle, head, tail⟩ := Reader.bind_eq_ok.mp succeeded
  cases tail
  obtain ⟨_, same, moved⟩ := (block_exact count).canonical _ _ _ head
  have bound := ofBytes_lt bytes.bytes
  have whole := toBytes_ofBytes bytes.bytes
  rw [bytes.size] at bound whole moved
  rw [whole]
  exact ⟨bound, same, moved⟩

/-- A word in front is read. -/
theorem word_reads (count value position : Nat) (suffix : List UInt8)
    (fits : value < 256 ^ count) :
    Reader.word count ⟨position, toBytes count value ++ suffix⟩ =
      .ok (value, ⟨position + count, suffix⟩) := by
  have front := (block_exact count).reads ⟨toBytes count value, toBytes_length count value⟩ trivial
    position suffix
  unfold Reader.word
  rw [Reader.bind_of_ok front, toBytes_length]
  show Except.ok (ofBytes (toBytes count value), _) = _
  rw [ofBytes_toBytes, Nat.mod_eq_of_lt fits]

/-- A representation of bounded naturals turns words into an exact encoding. -/
theorem word_exact {count : Nat} {pack : Nat → α} {unpack : α → Nat}
    (bound : ∀ value, unpack value < 256 ^ count) (inverse : ∀ value, pack (unpack value) = value)
    (back : ∀ raw, raw < 256 ^ count → unpack (pack raw) = raw) :
    Exact (fun value => toBytes count (unpack value))
      (do let raw ← Reader.word count; pure (pack raw)) := by
  constructor
  · intro value _ position suffix
    rw [Reader.bind_of_ok (word_reads count (unpack value) position suffix (bound value)), inverse,
      toBytes_length]
    rfl
  · intro cursor value next succeeded
    obtain ⟨raw, middle, head, tail⟩ := Reader.bind_eq_ok.mp succeeded
    cases tail
    obtain ⟨small, same, moved⟩ := word_canonical head
    rw [back raw small, toBytes_length]
    exact ⟨trivial, same, moved⟩

/-- Eight-bit words are exact. -/
theorem u8_exact : Exact encodeU8 Reader.u8 :=
  word_exact UInt8.toNat_lt (fun _ => UInt8.ofNat_toNat) fun _ small =>
    UInt8.toNat_ofNat_of_lt' small

/-- Sixteen-bit words are exact. -/
theorem u16_exact : Exact encodeU16 Reader.u16 :=
  word_exact UInt16.toNat_lt (fun _ => UInt16.ofNat_toNat) fun _ small =>
    UInt16.toNat_ofNat_of_lt' small

/-- Thirty-two-bit words are exact. -/
theorem u32_exact : Exact encodeU32 Reader.u32 :=
  word_exact UInt32.toNat_lt (fun _ => UInt32.ofNat_toNat) fun _ small =>
    UInt32.toNat_ofNat_of_lt' small

/-- Sixty-four-bit words are exact. -/
theorem u64_exact : Exact encodeU64 Reader.u64 :=
  word_exact UInt64.toNat_lt (fun _ => UInt64.ofNat_toNat) fun _ small =>
    UInt64.toNat_ofNat_of_lt' small

/-- Signed words are exact. -/
theorem i64_exact : Exact encodeI64 Reader.i64 :=
  Exact.map u64_exact (fun _ => rfl) fun _ _ _ _ => rfl

/-- Values written one after another. -/
theorem many_exact {encode : α → List UInt8} {read : Reader α} (exact : Exact encode read)
    (count : Nat) :
    ExactOn (fun values => values.length = count) (fun values : List α => values.flatMap encode)
      (Reader.many count read) := by
  induction count with
  | zero =>
    constructor
    · intro values none position suffix
      rw [List.length_eq_zero_iff.mp none]
      rfl
    · intro cursor values next succeeded
      cases succeeded
      exact ⟨rfl, rfl, rfl⟩
  | succ count ih =>
    constructor
    · intro values length position suffix
      cases values with
      | nil => cases length
      | cons first rest =>
        unfold Reader.many
        rw [List.flatMap_cons, List.append_assoc,
          Reader.bind_of_ok (exact.reads first trivial position _),
          Reader.bind_of_ok (ih.reads rest (Nat.succ.inj length) _ suffix), List.length_append,
          Nat.add_assoc]
        rfl
    · intro cursor values next succeeded
      unfold Reader.many at succeeded
      obtain ⟨first, middle, head, tail⟩ := Reader.bind_eq_ok.mp succeeded
      obtain ⟨rest, last, more, final⟩ := Reader.bind_eq_ok.mp tail
      cases final
      obtain ⟨_, bytes, moved⟩ := exact.canonical _ _ _ head
      obtain ⟨length, restBytes, restMoved⟩ := ih.canonical _ _ _ more
      refine ⟨by rw [List.length_cons, length], ?_, ?_⟩
      · rw [bytes, restBytes, List.flatMap_cons, List.append_assoc]
      · rw [restMoved, moved, List.flatMap_cons, List.length_append, Nat.add_assoc]

end Exactness

end AtlasLob.Binary
