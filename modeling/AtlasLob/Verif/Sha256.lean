import AtlasLob.Core.Sha256
import AtlasLob.Library.SecureHash

/-!
# The streaming hash is the standard's

Whatever the pieces a message arrives in, the state has absorbed its whole blocks and the buffer
holds the rest. Finishing absorbs one or two more blocks, which with the rest are the padded
message.
-/

namespace AtlasLob.Sha256

open Binary SecureHash

section Words

/-- The words of a state. -/
def work (state : HashWords) : Work where
  a := state.a.toBitVec
  b := state.b.toBitVec
  c := state.c.toBitVec
  d := state.d.toBitVec
  e := state.e.toBitVec
  f := state.f.toBitVec
  g := state.g.toBitVec
  h := state.h.toBitVec

/-- `large_sigma_zero` is the first large sum. -/
theorem largeSigmaZero_toBitVec (value : UInt32) :
    (largeSigmaZero value).toBitVec = largeZero value.toBitVec := rfl

/-- `large_sigma_one` is the second large sum. -/
theorem largeSigmaOne_toBitVec (value : UInt32) :
    (largeSigmaOne value).toBitVec = largeOne value.toBitVec := rfl

/-- `small_sigma_zero` is the first small sum. -/
theorem smallSigmaZero_toBitVec (value : UInt32) :
    (smallSigmaZero value).toBitVec = smallZero value.toBitVec := rfl

/-- `small_sigma_one` is the second small sum. -/
theorem smallSigmaOne_toBitVec (value : UInt32) :
    (smallSigmaOne value).toBitVec = smallOne value.toBitVec := rfl

/-- A round is the standard's. -/
theorem work_round (state : HashWords) (constant word : UInt32) :
    work (round state (constant, word)) =
      SecureHash.round (work state) constant.toBitVec word.toBitVec := by
  unfold work round SecureHash.round
  simp only [UInt32.toBitVec_add, largeSigmaZero_toBitVec, largeSigmaOne_toBitVec]
  rfl

/-- The constants of the rounds are the standard's. -/
theorem roundConstants_toBitVec : roundConstants.map UInt32.toBitVec = constants := by
  decide +kernel

/-- The first state is the standard's. -/
theorem work_initial : work initial.state = SecureHash.initial := by
  decide +kernel

end Words

section Schedule

/-- The bits of bytes stand for what the bytes stand for. -/
theorem valueOfBits_bitsOfBytes (bytes : List UInt8) :
    valueOfBits (bitsOfBytes bytes) = ofBytes bytes := by
  induction bytes with
  | nil => rfl
  | cons byte rest ih =>
    have small : byte.toNat < 2 ^ 8 := byte.toNat_lt
    have split : valueOfBits (bitsOfBytes (byte :: rest)) =
        valueOfBits (bitsOfNat 8 byte.toNat) * 2 ^ (bitsOfBytes rest).length +
          valueOfBits (bitsOfBytes rest) := by
      conv => lhs; unfold valueOfBits
      rw [bitsOfBytes_cons, List.foldl_append, foldl_bits]
      rfl
    rw [split, valueOfBits_bitsOfNat, Nat.mod_eq_of_lt small, ih, bitsOfBytes_length,
      ofBytes_cons, Nat.pow_mul]

/-- A byte moved up keeps below the word. -/
theorem toNat_byte_shift (byte : UInt8) (count : UInt32) (room : count.toNat ≤ 24) :
    (byte.toUInt32 <<< count).toNat = byte.toNat <<< count.toNat := by
  have small : byte.toNat < 2 ^ 8 := byte.toNat_lt
  have bound : byte.toNat <<< count.toNat < 2 ^ 32 := by
    rw [Nat.shiftLeft_eq]
    calc byte.toNat * 2 ^ count.toNat
        < 2 ^ 8 * 2 ^ count.toNat := Nat.mul_lt_mul_of_pos_right small (Nat.two_pow_pos _)
      _ ≤ 2 ^ 8 * 2 ^ 24 := Nat.mul_le_mul_left _ (Nat.pow_le_pow_right (by decide) room)
      _ = 2 ^ 32 := by decide
  rw [UInt32.toNat_shiftLeft, UInt8.toNat_toUInt32, Nat.mod_eq_of_lt (by omega : count.toNat < 32),
    Nat.mod_eq_of_lt bound]

/-- Four bytes make the word they stand for. -/
theorem word_of_bytes (b0 b1 b2 b3 : UInt8) :
    ((b0.toUInt32 <<< 24) ||| (b1.toUInt32 <<< 16) ||| (b2.toUInt32 <<< 8) |||
      b3.toUInt32).toBitVec = BitVec.ofNat 32 (valueOfBits (bitsOfBytes [b0, b1, b2, b3])) := by
  have s0 : b0.toNat < 2 ^ 8 := b0.toNat_lt
  have s1 : b1.toNat < 2 ^ 8 := b1.toNat_lt
  have s2 : b2.toNat < 2 ^ 8 := b2.toNat_lt
  have s3 : b3.toNat < 2 ^ 8 := b3.toNat_lt
  have fits : ofBytes [b0, b1, b2, b3] < 2 ^ 32 :=
    (ofBytes_lt [b0, b1, b2, b3]).trans_eq (by norm_num)
  apply BitVec.eq_of_toNat_eq
  rw [UInt32.toNat_toBitVec, UInt32.toNat_or, UInt32.toNat_or, UInt32.toNat_or,
    toNat_byte_shift b0 24 (by decide), toNat_byte_shift b1 16 (by decide),
    toNat_byte_shift b2 8 (by decide), UInt8.toNat_toUInt32, Nat.or_assoc, Nat.or_assoc,
    valueOfBits_bitsOfBytes, BitVec.toNat_ofNat,
    Nat.mod_eq_of_lt fits]
  show b0.toNat <<< 24 ||| (b1.toNat <<< 16 ||| (b2.toNat <<< 8 ||| b3.toNat)) = _
  have low : b2.toNat <<< 8 ||| b3.toNat = b2.toNat * 2 ^ 8 + b3.toNat := by
    rw [← Nat.shiftLeft_add_eq_or_of_lt s3, Nat.shiftLeft_eq]
  have middle : b1.toNat <<< 16 ||| (b2.toNat * 2 ^ 8 + b3.toNat) =
      b1.toNat * 2 ^ 16 + (b2.toNat * 2 ^ 8 + b3.toNat) := by
    rw [← Nat.shiftLeft_add_eq_or_of_lt (by omega), Nat.shiftLeft_eq]
  have high : b0.toNat <<< 24 ||| (b1.toNat * 2 ^ 16 + (b2.toNat * 2 ^ 8 + b3.toNat)) =
      b0.toNat * 2 ^ 24 + (b1.toNat * 2 ^ 16 + (b2.toNat * 2 ^ 8 + b3.toNat)) := by
    rw [← Nat.shiftLeft_add_eq_or_of_lt (by omega), Nat.shiftLeft_eq]
  rw [low, middle, high]
  simp only [ofBytes_cons, List.length_cons, List.length_nil]
  have none : ofBytes [] = 0 := rfl
  omega

/-- The words of a block are the standard's. -/
theorem blockWords_toBitVec (count : Nat) {bytes : List UInt8} (size : bytes.length = 4 * count) :
    (blockWords bytes).map UInt32.toBitVec =
      (List.range count).map (blockWord (bitsOfBytes bytes)) := by
  induction count generalizing bytes with
  | zero =>
    rw [List.eq_nil_of_length_eq_zero size]
    rfl
  | succ count ih =>
    match bytes, size with
    | b0 :: b1 :: b2 :: b3 :: rest, size =>
      have shorter : rest.length = 4 * count := by
        simp only [List.length_cons] at size
        omega
      have later : ∀ index, blockWord (bitsOfBytes rest) index =
          blockWord (bitsOfBytes (b0 :: b1 :: b2 :: b3 :: rest)) (index + 1) := by
        intro index
        unfold blockWord
        have start : 32 * (index + 1) = 8 * (4 * index + 4) := by
          omega
        have first : 32 * index = 8 * (4 * index) := by
          omega
        rw [start, first, bitsOfBytes_drop, bitsOfBytes_drop]
        rfl
      have head : blockWord (bitsOfBytes (b0 :: b1 :: b2 :: b3 :: rest)) 0 =
          BitVec.ofNat 32 (valueOfBits (bitsOfBytes [b0, b1, b2, b3])) := by
        unfold blockWord
        rw [Nat.mul_zero, List.drop_zero]
        exact congrArg (fun bits => BitVec.ofNat 32 (valueOfBits bits))
          (bitsOfBytes_take (b0 :: b1 :: b2 :: b3 :: rest) 4)
      rw [List.range_succ_eq_map, List.map_cons, List.map_map, blockWords, List.map_cons,
        word_of_bytes, head, ih shorter]
      exact congrArg _ (List.map_congr_left fun index _ => later index)

/-- The words of the expanded block, newest first. -/
def newestWords (block : Bits) (count : Nat) : List (BitVec 32) :=
  ((List.range count).map (scheduleWord block)).reverse

/-- One more word is the newest. -/
theorem newestWords_succ (block : Bits) (count : Nat) :
    newestWords block (count + 1) = scheduleWord block count :: newestWords block count := by
  unfold newestWords
  rw [List.range_succ, List.map_append, List.reverse_append]
  rfl

/-- A word among the newest. -/
theorem newestWords_getD (block : Bits) {count back : Nat} (inside : back < count) :
    (newestWords block count).getD back 0 = scheduleWord block (count - 1 - back) := by
  induction count generalizing back with
  | zero => omega
  | succ count ih =>
    rw [newestWords_succ]
    cases back with
    | zero => rfl
    | succ back =>
      rw [List.getD_cons_succ, ih (by omega)]
      congr 1
      omega

/-- The words of a list read as the standard's. -/
theorem getD_toBitVec (words : List UInt32) (index : Nat) :
    (words.getD index 0).toBitVec = (words.map UInt32.toBitVec).getD index 0 := by
  rw [List.getD_eq_getElem?_getD, List.getD_eq_getElem?_getD, List.getElem?_map]
  cases words[index]? <;> rfl

/-- The recurrence of the schedule. -/
theorem scheduleWord_next (block : Bits) {index : Nat} (later : 16 ≤ index) :
    scheduleWord block index = smallOne (scheduleWord block (index - 2)) +
      scheduleWord block (index - 7) + smallZero (scheduleWord block (index - 15)) +
      scheduleWord block (index - 16) := by
  rw [scheduleWord, if_neg (by omega)]

/-- Extending the schedule adds the standard's words. -/
theorem extendSchedule_toBitVec (block : Bits) (more count : Nat) (enough : 16 ≤ count)
    {newest : List UInt32} (same : newest.map UInt32.toBitVec = newestWords block count) :
    (extendSchedule more newest).map UInt32.toBitVec = newestWords block (count + more) := by
  induction more generalizing count newest with
  | zero => exact same
  | succ more ih =>
    have next : (((smallSigmaOne (newest.getD 1 0) + newest.getD 6 0 +
        smallSigmaZero (newest.getD 14 0) + newest.getD 15 0) :: newest).map UInt32.toBitVec) =
        newestWords block (count + 1) := by
      rw [List.map_cons, newestWords_succ, UInt32.toBitVec_add, UInt32.toBitVec_add,
        UInt32.toBitVec_add, smallSigmaOne_toBitVec, smallSigmaZero_toBitVec, getD_toBitVec,
        getD_toBitVec, getD_toBitVec, getD_toBitVec, same, newestWords_getD block (by omega),
        newestWords_getD block (by omega), newestWords_getD block (by omega),
        newestWords_getD block (by omega), scheduleWord_next block enough]
      rfl
    rw [extendSchedule, ih (count + 1) (by omega) next, Nat.succ_add_eq_add_succ]

/-- The schedule of a block is the standard's. -/
theorem schedule_toBitVec {block : List UInt8} (size : block.length = 64) :
    (schedule block).map UInt32.toBitVec =
      (List.range 64).map (scheduleWord (bitsOfBytes block)) := by
  have first : (blockWords block).reverse.map UInt32.toBitVec =
      newestWords (bitsOfBytes block) 16 := by
    unfold newestWords
    rw [List.map_reverse, blockWords_toBitVec 16 size]
    congr 1
    refine List.map_congr_left fun index inside => ?_
    rw [scheduleWord, if_pos (List.mem_range.mp inside)]
  unfold schedule
  rw [List.map_reverse, extendSchedule_toBitVec _ 48 16 (le_refl _) first]
  unfold newestWords
  rw [List.reverse_reverse]

end Schedule

section Blocks

/-- The constants and the words of the rounds, in order. -/
theorem rounds_eq (block : Bits) :
    constants.zip ((List.range 64).map (scheduleWord block)) =
      (List.range 64).map fun index => (constants.getD index 0, scheduleWord block index) := by
  have listed : constants = (List.range 64).map fun index => constants.getD index 0 := by
    decide +kernel
  conv => lhs; rw [listed]
  rw [List.zip_map', List.map_congr_left]
  exact fun _ _ => rfl

/-- The rounds over words are the standard's. -/
theorem foldl_round (inputs : List (UInt32 × UInt32)) (state : HashWords) :
    work (inputs.foldl round state) =
      (inputs.map (Prod.map UInt32.toBitVec UInt32.toBitVec)).foldl
        (fun work input => SecureHash.round work input.1 input.2) (work state) := by
  induction inputs generalizing state with
  | nil => rfl
  | cons input rest ih =>
    have step : work (round state input) =
        SecureHash.round (work state) input.1.toBitVec input.2.toBitVec :=
      work_round state input.1 input.2
    rw [List.foldl_cons, ih, step]
    rfl

/-- Mixing a block is the standard's compression. -/
theorem work_transform (state : HashWords) {block : List UInt8} (size : block.length = 64) :
    work (transform state block) = compress (work state) (bitsOfBytes block) := by
  have inputs : (roundConstants.zip (schedule block)).map
      (Prod.map UInt32.toBitVec UInt32.toBitVec) =
      (List.range 64).map fun index =>
        (constants.getD index 0, scheduleWord (bitsOfBytes block) index) := by
    rw [← List.zip_map, roundConstants_toBitVec, schedule_toBitVec size, rounds_eq]
  have mixed := foldl_round (roundConstants.zip (schedule block)) state
  rw [inputs, List.foldl_map] at mixed
  unfold compress
  rw [← mixed]
  unfold transform work
  simp only [UInt32.toBitVec_add, BitVec.add_comm]

/-- Mixing blocks is the standard's compression of their bits. -/
theorem work_foldl (blocks : List (List UInt8)) (sizes : ∀ block ∈ blocks, block.length = 64)
    (state : HashWords) :
    work (blocks.foldl transform state) =
      (blocks.map bitsOfBytes).foldl compress (work state) := by
  induction blocks generalizing state with
  | nil => rfl
  | cons block rest ih =>
    rw [List.foldl_cons, ih (fun other inside => sizes other (List.mem_cons_of_mem _ inside)),
      work_transform state (sizes block List.mem_cons_self)]
    rfl

/-- Whole blocks of bytes are parsed into their bits. -/
theorem blocks_flatten (blocks : List (List UInt8)) (sizes : ∀ block ∈ blocks, block.length = 64) :
    SecureHash.blocks blocks.length (bitsOfBytes blocks.flatten) = blocks.map bitsOfBytes := by
  induction blocks with
  | nil => rfl
  | cons block rest ih =>
    have size := sizes block List.mem_cons_self
    have width : (bitsOfBytes block).length = 512 := by
      rw [bitsOfBytes_length, size]
    rw [List.length_cons, SecureHash.blocks, List.flatten_cons, bitsOfBytes_append, ← width,
      List.take_left, List.drop_left,
      ih fun other inside => sizes other (List.mem_cons_of_mem _ inside)]
    rfl

end Blocks

section Streaming

/-- The whole blocks of a message are in the state and its rest is in the buffer. -/
structure Absorbed (hash : Sha256) (message : List UInt8) : Prop where
  /-- The blocks mixed so far. -/
  blocks : ∃ blocks : List (List UInt8), (∀ block ∈ blocks, block.length = 64) ∧
    message = blocks.flatten ++ hash.buffer ∧ hash.state = blocks.foldl transform initial.state
  /-- The buffer is not full. -/
  room : hash.buffer.length < 64

/-- Taking a byte absorbs it. -/
theorem push_absorbed {hash : Sha256} {message : List UInt8} (absorbed : Absorbed hash message)
    (byte : UInt8) : Absorbed (push hash byte) (message ++ [byte]) := by
  obtain ⟨⟨blocks, sizes, whole, mixed⟩, room⟩ := absorbed
  have grown : (hash.buffer ++ [byte]).length = hash.buffer.length + 1 := by
    rw [List.length_append, List.length_singleton]
  unfold push
  simp only
  by_cases full : (hash.buffer ++ [byte]).length = 64
  · rw [if_pos full]
    refine ⟨⟨blocks ++ [hash.buffer ++ [byte]], ?_, ?_, ?_⟩, Nat.zero_lt_succ 63⟩
    · intro block inside
      rcases List.mem_append.mp inside with earlier | last
      · exact sizes block earlier
      · rw [List.mem_singleton.mp last]
        exact full
    · rw [whole, List.flatten_append, List.flatten_singleton, List.append_nil, List.append_assoc]
    · rw [List.foldl_append, ← mixed]
      rfl
  · rw [if_neg full]
    have shorter : (hash.buffer ++ [byte]).length < 64 := by
      omega
    refine ⟨⟨blocks, sizes, ?_, mixed⟩, shorter⟩
    rw [whole, List.append_assoc]

/-- Taking bytes absorbs them. -/
theorem foldl_push_absorbed {hash : Sha256} {message : List UInt8}
    (absorbed : Absorbed hash message) (input : List UInt8) :
    Absorbed (input.foldl push hash) (message ++ input) := by
  induction input generalizing hash message with
  | nil =>
    rw [List.append_nil]
    exact absorbed
  | cons byte rest ih =>
    have next := ih (push_absorbed absorbed byte)
    rw [List.append_assoc] at next
    exact next

/-- Taking bytes leaves their count alone. -/
theorem foldl_push_totalBytes (hash : Sha256) (input : List UInt8) :
    (input.foldl push hash).totalBytes = hash.totalBytes := by
  induction input generalizing hash with
  | nil => rfl
  | cons byte rest ih =>
    have kept : (push hash byte).totalBytes = hash.totalBytes := by
      unfold push
      simp only
      split <;> rfl
    rw [List.foldl_cons, ih, kept]

/-- A call of `update` absorbs its input and counts it. -/
theorem update_absorbed {hash : Sha256} {message : List UInt8} (absorbed : Absorbed hash message)
    (total : hash.totalBytes = UInt64.ofNat message.length) (input : List UInt8) :
    Absorbed (hash.update input) (message ++ input) ∧
      (hash.update input).totalBytes = UInt64.ofNat (message ++ input).length := by
  have counting : Absorbed
      { hash with totalBytes := hash.totalBytes + UInt64.ofNat input.length } message :=
    ⟨absorbed.blocks, absorbed.room⟩
  constructor
  · exact foldl_push_absorbed counting input
  · unfold update
    rw [foldl_push_totalBytes, List.length_append, UInt64.ofNat_add, ← total]

/-- Calls of `update` absorb their inputs in order. -/
theorem updates_absorbed {hash : Sha256} {message : List UInt8} (absorbed : Absorbed hash message)
    (total : hash.totalBytes = UInt64.ofNat message.length) (pieces : List (List UInt8)) :
    Absorbed (pieces.foldl update hash) (message ++ pieces.flatten) ∧
      (pieces.foldl update hash).totalBytes =
        UInt64.ofNat (message ++ pieces.flatten).length := by
  induction pieces generalizing hash message with
  | nil =>
    rw [List.flatten_nil, List.append_nil]
    exact ⟨absorbed, total⟩
  | cons piece rest ih =>
    obtain ⟨next, counted⟩ := update_absorbed absorbed total piece
    have others := ih next counted
    rw [List.append_assoc] at others
    exact others

/-- Nothing has been absorbed at the start. -/
theorem initial_absorbed : Absorbed initial [] where
  blocks := ⟨[], nofun, rfl, rfl⟩
  room := by decide

end Streaming

section Finish

/-- The bytes of the padded message. -/
def paddedBytes (message : List UInt8) : List UInt8 :=
  message ++ 0x80 :: (List.replicate ((119 - message.length % 64) % 64) 0 ++
    encodeU64 (UInt64.ofNat message.length * 8))

/-- The bits of a word's bytes are the word's. -/
theorem bitsOfBytes_toBytes (count value : Nat) :
    bitsOfBytes (toBytes count value) = bitsOfNat (8 * count) value := by
  induction count with
  | zero => rfl
  | succ count ih =>
    have byte : (UInt8.ofNat (value >>> (8 * count))).toNat = value / 2 ^ (8 * count) % 2 ^ 8 := by
      rw [UInt8.toNat_ofNat', Nat.shiftRight_eq_div_pow]
    rw [toBytes, bitsOfBytes_cons, byte, bitsOfNat_mod (le_refl 8), ih, Nat.mul_succ,
      Nat.add_comm, bitsOfNat_append]

/-- The padded bytes are the padded bits. -/
theorem pad_bitsOfBytes {message : List UInt8} (short : message.length < 2 ^ 61) :
    pad (bitsOfBytes message) = bitsOfBytes (paddedBytes message) := by
  have total : (UInt64.ofNat message.length * 8).toNat = 8 * message.length := by
    rw [UInt64.toNat_mul, UInt64.toNat_ofNat']
    have eight : (8 : UInt64).toNat = 8 := rfl
    rw [eight]
    omega
  have marker : bitsOfNat 8 (0x80 : UInt8).toNat = true :: List.replicate 7 false := by
    decide
  have zeros : zeroBits (8 * message.length) = 7 + 8 * ((119 - message.length % 64) % 64) := by
    unfold zeroBits
    omega
  unfold pad paddedBytes encodeU64
  rw [bitsOfBytes_append, bitsOfBytes_cons, bitsOfBytes_append, bitsOfBytes_zeros,
    bitsOfBytes_toBytes, total, marker, bitsOfBytes_length, zeros, List.replicate_add]
  rw [List.cons_append, List.append_assoc]

/-- Blocks are sixty-four bytes each. -/
theorem flatten_length {blocks : List (List UInt8)}
    (sizes : ∀ block ∈ blocks, block.length = 64) :
    blocks.flatten.length = 64 * blocks.length := by
  induction blocks with
  | nil => rfl
  | cons block rest ih =>
    rw [List.flatten_cons, List.length_append, sizes block List.mem_cons_self,
      ih fun other inside => sizes other (List.mem_cons_of_mem _ inside), List.length_cons]
    omega

/-- The sizes of blocks with more blocks after them. -/
theorem sizes_append {blocks more : List (List UInt8)}
    (sizes : ∀ block ∈ blocks, block.length = 64) (others : ∀ block ∈ more, block.length = 64) :
    ∀ block ∈ blocks ++ more, block.length = 64 := by
  intro block inside
  cases List.mem_append.mp inside with
  | inl earlier => exact sizes block earlier
  | inr later => exact others block later

/-- Finishing absorbs the rest of the padded message. -/
theorem finish_absorbed {hash : Sha256} {message : List UInt8} (absorbed : Absorbed hash message)
    (total : hash.totalBytes = UInt64.ofNat message.length) :
    ∃ blocks : List (List UInt8), (∀ block ∈ blocks, block.length = 64) ∧
      paddedBytes message = blocks.flatten ∧
      hash.finish = digest (blocks.foldl transform initial.state) := by
  obtain ⟨⟨blocks, sizes, whole, mixed⟩, room⟩ := absorbed
  have counted := flatten_length sizes
  have remainder : message.length % 64 = hash.buffer.length := by
    rw [whole, List.length_append]
    omega
  have marked : (hash.buffer ++ [(0x80 : UInt8)]).length = hash.buffer.length + 1 := by
    rw [List.length_append, List.length_singleton]
  have tail : (encodeU64 (hash.totalBytes * 8)).length = 8 := toBytes_length 8 _
  unfold finish padTo paddedBytes
  rw [remainder, ← total]
  simp only
  by_cases long : (hash.buffer ++ [(0x80 : UInt8)]).length > 56
  -- The marker leaves no room for the length: one more block of zeros holds it.
  · rw [if_pos long]
    refine ⟨blocks ++ [hash.buffer ++ [0x80] ++
      List.replicate (64 - (hash.buffer ++ [(0x80 : UInt8)]).length) 0,
      List.replicate 56 0 ++ encodeU64 (hash.totalBytes * 8)], sizes_append sizes ?_, ?_, ?_⟩
    · intro block inside
      rcases List.mem_pair.mp inside with rfl | rfl
      · rw [List.length_append, List.length_replicate]
        omega
      · rw [List.length_append, List.length_replicate, tail]
    · have zeros : (119 - hash.buffer.length) % 64 =
          (64 - (hash.buffer ++ [(0x80 : UInt8)]).length) + 56 := by
        omega
      rw [zeros, List.replicate_add, List.flatten_append, whole]
      simp only [List.flatten_cons, List.flatten_nil, List.append_nil, List.append_assoc,
        List.cons_append, List.nil_append]
    · rw [List.foldl_append, ← mixed]
      rfl
  · rw [if_neg long]
    refine ⟨blocks ++ [hash.buffer ++ [0x80] ++
      List.replicate (56 - (hash.buffer ++ [(0x80 : UInt8)]).length) 0 ++
        encodeU64 (hash.totalBytes * 8)], sizes_append sizes ?_, ?_, ?_⟩
    · intro block inside
      rw [List.mem_singleton.mp inside, List.length_append, List.length_append,
        List.length_replicate, tail]
      omega
    · have zeros : (119 - hash.buffer.length) % 64 =
          56 - (hash.buffer ++ [(0x80 : UInt8)]).length := by
        omega
      rw [zeros, List.flatten_append, whole]
      simp only [List.flatten_cons, List.flatten_nil, List.append_nil, List.append_assoc,
        List.cons_append, List.nil_append]
    · rw [List.foldl_append, ← mixed]
      rfl

/-- The bits of a digest are those of the words. -/
theorem digest_bits (state : HashWords) :
    bitsOfBytes (digest state).bytes = (work state).bits := by
  have word : ∀ value : UInt32, bitsOfBytes (encodeU32 value) = bitsOfNat 32 value.toNat :=
    fun value => bitsOfBytes_toBytes 4 value.toNat
  unfold digest Work.bits
  simp only [bitsOfBytes_append, word, List.flatMap_cons, List.flatMap_nil, List.append_nil,
    List.append_assoc]
  rfl

/-- Whatever the pieces of a message, finishing returns the digest of the standard. -/
theorem streaming_sha256 (pieces : List (List UInt8)) (short : pieces.flatten.length < 2 ^ 61) :
    bitsOfBytes ((pieces.foldl update initial).finish).bytes =
      SecureHash.sha256 (bitsOfBytes pieces.flatten) := by
  obtain ⟨absorbed, total⟩ := updates_absorbed initial_absorbed rfl pieces
  rw [List.nil_append] at absorbed total
  obtain ⟨blocks, sizes, padded, finished⟩ := finish_absorbed absorbed total
  have count : (bitsOfBytes blocks.flatten).length / 512 = blocks.length := by
    rw [bitsOfBytes_length, flatten_length sizes]
    omega
  unfold SecureHash.sha256
  rw [pad_bitsOfBytes short, padded, count, blocks_flatten blocks sizes, ← work_initial,
    ← work_foldl blocks sizes, finished, digest_bits]

/-- The law at a message in three pieces. -/
theorem streaming_sha256_pieces :
    bitsOfBytes (([[97, 98], [], [99]].foldl update initial).finish).bytes =
      SecureHash.sha256 (bitsOfBytes [97, 98, 99]) :=
  streaming_sha256 [[97, 98], [], [99]] (by decide)

end Finish

end AtlasLob.Sha256
