import AtlasLob.Verif.CommandLogCodec

/-!
# Corruption is detected

A change of a few consecutive bytes of an encoded record either leaves its two lengths in
disagreement, or leaves both as they were and is then seen by the checksum, which no burst of
thirty-two bits survives.
-/

namespace AtlasLob

open Binary

/-- A byte string of the same length that differs, and only inside a window. -/
structure ChangedWithin (start count : Nat) (bytes changed : List UInt8) : Prop where
  /-- Nothing is added or removed. -/
  length : changed.length = bytes.length
  /-- Something is different. -/
  differs : changed ≠ bytes
  /-- Nothing is different outside the window. -/
  outside : ∀ index, index < start ∨ start + count ≤ index → changed[index]? = bytes[index]?

namespace ChangedWithin

variable {start count : Nat} {bytes changed : List UInt8}

/-- What ends before the window is as it was. -/
theorem take_eq (change : ChangedWithin start count bytes changed) {size : Nat}
    (ends : size ≤ start) : changed.take size = bytes.take size := by
  apply List.ext_getElem?
  intro index
  rw [List.getElem?_take, List.getElem?_take]
  by_cases inside : index < size
  · rw [if_pos inside, if_pos inside, change.outside index (.inl (by omega))]
  · rw [if_neg inside, if_neg inside]

/-- What begins after the window is as it was. -/
theorem drop_eq (change : ChangedWithin start count bytes changed) {size : Nat}
    (begins : start + count ≤ size) : changed.drop size = bytes.drop size := by
  apply List.ext_getElem?
  intro index
  rw [List.getElem?_drop, List.getElem?_drop, change.outside (size + index) (.inr (by omega))]

/-- A change of one byte. -/
theorem single {position : Nat} {byte : UInt8} (inside : position < bytes.length)
    (different : bytes[position]? ≠ some byte) :
    ChangedWithin position 1 bytes (bytes.set position byte) := by
  constructor
  · exact List.length_set
  · intro same
    apply different
    rw [← same, List.getElem?_set_self inside]
  · intro index outside
    rw [List.getElem?_set_ne (by omega)]

/-- Two byte strings that differ only inside a window are the same around it. -/
theorem split (change : ChangedWithin start count bytes changed) :
    bytes = bytes.take start ++ (bytes.drop start).take count ++ bytes.drop (start + count) ∧
      changed = bytes.take start ++ (changed.drop start).take count ++
        bytes.drop (start + count) := by
  have parts (whole : List UInt8) :
      whole = whole.take start ++ (whole.drop start).take count ++ whole.drop (start + count) := by
    rw [List.append_assoc, ← List.drop_drop, List.take_append_drop, List.take_append_drop]
  refine ⟨parts bytes, ?_⟩
  conv => lhs; rw [parts changed, change.take_eq (Nat.le_refl _), change.drop_eq (Nat.le_refl _)]

/-- No short change keeps the checksum. -/
theorem crc32c_ne (change : ChangedWithin start count bytes changed) (short : count ≤ 4) :
    crc32c changed ≠ crc32c bytes := by
  intro same
  obtain ⟨whole, other⟩ := change.split
  have windows : ((changed.drop start).take count).length =
      ((bytes.drop start).take count).length := by
    rw [List.length_take, List.length_take, List.length_drop, List.length_drop, change.length]
  rw [whole, other] at same
  have equal := crc32c_burst _ _ windows
    (Nat.le_trans (List.length_take_le ..) short) same
  exact change.differs (by rw [whole, other, equal])

end ChangedWithin

/-- The value of four bytes. -/
theorem ofBytes_four (b0 b1 b2 b3 : UInt8) :
    ofBytes [b0, b1, b2, b3] =
      b0.toNat * 16777216 + b1.toNat * 65536 + b2.toNat * 256 + b3.toNat := by
  simp only [ofBytes_cons, List.length_cons, List.length_nil]
  rw [show ofBytes [] = 0 from rfl]
  omega

/-- A framed byte string starts with eight bytes. -/
theorem FramedBy.eight {bytes : List UInt8} {total : Nat} (framed : FramedBy bytes total) :
    ∃ b0 b1 b2 b3 b4 b5 b6 b7 rest,
      bytes = b0 :: b1 :: b2 :: b3 :: b4 :: b5 :: b6 :: b7 :: rest := by
  have long := framed.long
  match bytes, long with
  | b0 :: b1 :: b2 :: b3 :: b4 :: b5 :: b6 :: b7 :: rest, _ =>
    exact ⟨b0, b1, b2, b3, b4, b5, b6, b7, rest, rfl⟩

/-- The two lengths in front of a record agree for one value only, as long as all that may have
changed is within four consecutive bytes: what the window leaves of the first length fixes its
high bytes, and what it leaves of the second the low ones. -/
theorem FramedBy.total_eq {start count total other : Nat} {bytes changed : List UInt8}
    (framed : FramedBy bytes total) (again : FramedBy changed other)
    (change : ChangedWithin start count bytes changed) (short : count ≤ 4) : other = total := by
  obtain ⟨b0, b1, b2, b3, b4, b5, b6, b7, rest, rfl⟩ := framed.eight
  obtain ⟨c0, c1, c2, c3, c4, c5, c6, c7, tail, rfl⟩ := again.eight
  have same (index : Nat) (outside : index < start ∨ start + 4 ≤ index) :=
    change.outside index (outside.imp_right (by omega))
  have keep0 := same 0
  have keep1 := same 1
  have keep2 := same 2
  have keep3 := same 3
  have keep4 := same 4
  have keep5 := same 5
  have keep6 := same 6
  have keep7 := same 7
  simp only [List.getElem?_cons_zero, List.getElem?_cons_succ, Option.some.injEq,
    ← UInt8.toNat_inj] at keep0 keep1 keep2 keep3 keep4 keep5 keep6 keep7
  have first := framed.totalLength
  have second := framed.payloadLength
  have firstAgain := again.totalLength
  have secondAgain := again.payloadLength
  have lower := framed.lower
  have lowerAgain := again.lower
  simp only [List.take_succ_cons, List.take_zero, List.drop_succ_cons, List.drop_zero,
    ofBytes_four] at first second firstAgain secondAgain
  have bound (byte : UInt8) : byte.toNat < 256 := byte.toNat_lt
  have := bound b1
  have := bound b2
  have := bound b3
  have := bound b5
  have := bound b6
  have := bound b7
  have := bound c1
  have := bound c2
  have := bound c3
  have := bound c5
  have := bound c6
  have := bound c7
  by_cases late : 4 ≤ start
  · have := keep0 (by omega)
    have := keep1 (by omega)
    have := keep2 (by omega)
    have := keep3 (by omega)
    omega
  · interval_cases start <;>
      simp at keep0 keep1 keep2 keep3 keep4 keep5 keep6 keep7 <;> omega

/-- A change inside the bytes a checksum covers, or inside the stored checksum, is seen. -/
theorem ChangedWithin.checksum_fails {start count : Nat} {bytes changed : List UInt8}
    (change : ChangedWithin start count bytes changed) (short : count ≤ 4)
    (long : 4 ≤ bytes.length)
    (inside : start + count ≤ bytes.length - 4 ∨
      bytes.length - 4 ≤ start ∧ start + count ≤ bytes.length)
    (matching : checksumMatches bytes = true) : checksumMatches changed = false := by
  by_contra accepted
  rw [Bool.not_eq_false] at accepted
  have stored := (checksumMatches_iff long).mp matching
  have again := (checksumMatches_iff (by rw [change.length]; exact long)).mp accepted
  rw [change.length] at again
  have whole := List.take_append_drop (bytes.length - 4) bytes
  have other := List.take_append_drop (bytes.length - 4) changed
  rcases inside with covered | ⟨checksum, _⟩
  · have kept := change.drop_eq covered
    rw [kept, stored, UInt32.toNat_inj] at again
    have body : ChangedWithin start count (bytes.take (bytes.length - 4))
        (changed.take (bytes.length - 4)) := by
      constructor
      · rw [List.length_take, List.length_take, change.length]
      · intro same
        apply change.differs
        rw [← whole, ← other, same, kept]
      · intro index outside
        rw [List.getElem?_take, List.getElem?_take, change.outside index outside]
    exact body.crc32c_ne short again.symm
  · have kept := change.take_eq checksum
    rw [kept, ← stored] at again
    have same := ofBytes_injective
      (by rw [List.length_drop, List.length_drop, change.length]) again
    exact change.differs (by rw [← whole, ← other, kept, same])

/-- A short change of an encoded record, inside what its checksum covers or inside the stored
checksum, is refused. -/
theorem decodeCommandRecord_changed {record : CommandRecord} {bytes changed : List UInt8}
    {start count : Nat} (encoded : encodeCommandRecord record = .ok bytes)
    (change : ChangedWithin start count bytes changed) (short : count ≤ 4)
    (inside : start + count ≤ bytes.length - 4 ∨
      bytes.length - 4 ≤ start ∧ start + count ≤ bytes.length) :
    ∃ error, decodeCommandRecord changed = .error error := by
  cases decoded : decodeCommandRecord changed with
  | error error => exact ⟨error, rfl⟩
  | ok other =>
    exfalso
    obtain ⟨_, rfl⟩ := encodeCommandRecord_eq_ok.mp encoded
    have framed := record.encoding_framed []
    rw [List.append_nil] at framed
    obtain ⟨again, whole⟩ := decodeCommandRecord_framed decoded
    have same := framed.total_eq again change short
    rw [same, List.take_of_length_le (Nat.le_of_eq change.length)] at whole
    have long := record.encoding_length
    have refused := change.checksum_fails short (by omega) inside (withChecksum_matches _)
    have accepted : checksumMatches other.encoding = true := withChecksum_matches _
    rw [whole, accepted] at refused
    exact Bool.noConfusion refused

/-- Every change of an encoded record confined to at most four consecutive bytes, wholly inside
the bytes its checksum covers or wholly inside the stored checksum, is refused, and so is every
change of a single byte. -/
theorem decodeCommandRecord_detects (record : CommandRecord) (bytes : List UInt8)
    (encoded : encodeCommandRecord record = .ok bytes) :
    (∀ start count changed, ChangedWithin start count bytes changed → count ≤ 4 →
      start + count ≤ bytes.length - 4 ∨
        bytes.length - 4 ≤ start ∧ start + count ≤ bytes.length →
      ∃ error, decodeCommandRecord changed = .error error) ∧
    (∀ position byte, position < bytes.length → bytes[position]? ≠ some byte →
      ∃ error, decodeCommandRecord (bytes.set position byte) = .error error) := by
  constructor
  · intro start count changed change short inside
    exact decodeCommandRecord_changed encoded change short inside
  · intro position byte inside different
    have change := ChangedWithin.single inside different
    apply decodeCommandRecord_changed encoded change (by decide)
    omega

/-- A logged withdrawal. -/
def sampleRecord : CommandRecord where
  recordVersion := 1
  command := .cancel ⟨7, 9, 1⟩
  sequence := 1
  outcome := .rejected
  rejectionReason := .ofReason .unknownOrderId
  eventCount := 1
  eventDigest := ⟨List.replicate 32 0, List.length_replicate⟩

/-- It can be logged. -/
theorem sampleRecord_valid : sampleRecord.Valid :=
  ⟨rfl, by decide, by decide, by decide, by decide⟩

/-- A change of the payload of a logged withdrawal is refused. -/
theorem decodeCommandRecord_detects_sample :
    encodeCommandRecord sampleRecord = .ok sampleRecord.encoding ∧
      ∃ error, decodeCommandRecord (sampleRecord.encoding.set 70 0xff) = .error error := by
  have encoded : encodeCommandRecord sampleRecord = .ok sampleRecord.encoding :=
    encodeCommandRecord_eq_ok.mpr ⟨sampleRecord_valid, rfl⟩
  exact ⟨encoded, (decodeCommandRecord_detects sampleRecord sampleRecord.encoding encoded).2 70 0xff
    (by decide +kernel) (by decide +kernel)⟩

end AtlasLob
