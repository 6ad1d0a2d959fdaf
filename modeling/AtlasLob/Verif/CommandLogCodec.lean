import AtlasLob.Core.CommandLogCodec
import AtlasLob.Library.Crc

/-!
# The command log codec

Every reader inverts its writer, field by field. From this follow what encoding and decoding a
header or a record say about the bytes: decoding an encoding returns the value, and what is
decoded has no other encoding.
-/

namespace AtlasLob

open Binary

/-- Instruments are read back as they are written. -/
theorem catalogEntry_exact : Exact encodeCatalogEntry readCatalogEntry := by
  apply ExactOn.field PersistedInstrumentConfig.instrumentId u32_exact
  intro instrumentId
  apply ExactOn.field PersistedInstrumentConfig.maxOrderQuantity u64_exact
  intro maxOrderQuantity
  apply ExactOn.field PersistedInstrumentConfig.tickIncrement i64_exact
  intro tickIncrement
  apply ExactOn.last PersistedInstrumentConfig.maxActiveOrders u64_exact
  intro maxActiveOrders instrument
  cases instrument
  simp only [PersistedInstrumentConfig.mk.injEq, true_and, and_assoc]

/-- New orders are read back as they are written. -/
theorem newOrder_exact : Exact encodeNewOrder readNewOrder := by
  apply ExactOn.field NewOrderFields.clientId u32_exact
  intro clientId
  apply ExactOn.field NewOrderFields.orderId u64_exact
  intro orderId
  apply ExactOn.field NewOrderFields.instrumentId u32_exact
  intro instrumentId
  apply ExactOn.field NewOrderFields.side u8_exact
  intro side
  apply ExactOn.field NewOrderFields.orderType u8_exact
  intro orderType
  apply ExactOn.field NewOrderFields.timeInForce u8_exact
  intro timeInForce
  apply ExactOn.field NewOrderFields.pricePresent u8_exact
  intro pricePresent
  apply ExactOn.field NewOrderFields.price i64_exact
  intro price
  apply ExactOn.last NewOrderFields.quantity u64_exact
  intro quantity fields
  cases fields
  simp only [NewOrderFields.mk.injEq, true_and, and_assoc]

/-- Withdrawals are read back as they are written. -/
theorem cancelOrder_exact : Exact encodeCancelOrder readCancelOrder := by
  apply ExactOn.field CancelOrder.clientId u32_exact
  intro clientId
  apply ExactOn.field CancelOrder.orderId u64_exact
  intro orderId
  apply ExactOn.last CancelOrder.instrumentId u32_exact
  intro instrumentId order
  cases order
  simp only [CancelOrder.mk.injEq, true_and, and_assoc]

/-- Exchanges are read back as they are written. -/
theorem replaceOrder_exact : Exact encodeReplaceOrder readReplaceOrder := by
  apply ExactOn.field ReplaceOrder.clientId u32_exact
  intro clientId
  apply ExactOn.field ReplaceOrder.oldOrderId u64_exact
  intro oldOrderId
  apply ExactOn.field ReplaceOrder.newOrderId u64_exact
  intro newOrderId
  apply ExactOn.field ReplaceOrder.instrumentId u32_exact
  intro instrumentId
  apply ExactOn.field ReplaceOrder.newLimitPrice i64_exact
  intro newLimitPrice
  apply ExactOn.last ReplaceOrder.newQuantity u64_exact
  intro newQuantity order
  cases order
  simp only [ReplaceOrder.mk.injEq, true_and, and_assoc]

/-- The fixed fields of a header are read back as they are written. -/
theorem headerFields_exact : Exact encodeHeaderFields readHeaderFields := by
  apply ExactOn.field HeaderPrefixFields.magic (block_exact 8)
  intro magic
  apply ExactOn.field HeaderPrefixFields.formatVersion u16_exact
  intro formatVersion
  apply ExactOn.field HeaderPrefixFields.semanticsVersion u16_exact
  intro semanticsVersion
  apply ExactOn.field HeaderPrefixFields.marker u32_exact
  intro marker
  apply ExactOn.field HeaderPrefixFields.headerLength u32_exact
  intro headerLength
  apply ExactOn.field HeaderPrefixFields.catalogLength u32_exact
  intro catalogLength
  apply ExactOn.field HeaderPrefixFields.logId (block_exact 16)
  intro logId
  apply ExactOn.field HeaderPrefixFields.firstSequence u64_exact
  intro firstSequence
  apply ExactOn.field HeaderPrefixFields.engineCapacity u64_exact
  intro engineCapacity
  apply ExactOn.last HeaderPrefixFields.catalogCount u32_exact
  intro catalogCount fields
  cases fields
  simp only [HeaderPrefixFields.mk.injEq, true_and, and_assoc]

/-- The fixed fields of a record are read back as they are written. -/
theorem recordFields_exact : Exact encodeRecordFields readRecordFields := by
  apply ExactOn.field RecordFields.totalLength u32_exact
  intro totalLength
  apply ExactOn.field RecordFields.payloadLength u32_exact
  intro payloadLength
  apply ExactOn.field RecordFields.recordVersion u16_exact
  intro recordVersion
  apply ExactOn.field RecordFields.type u8_exact
  intro type
  apply ExactOn.field RecordFields.outcome u8_exact
  intro outcome
  apply ExactOn.field RecordFields.sequence u64_exact
  intro sequence
  apply ExactOn.field RecordFields.rejectionReason u16_exact
  intro rejectionReason
  apply ExactOn.field RecordFields.eventCount u64_exact
  intro eventCount
  apply ExactOn.last RecordFields.eventDigest (block_exact 32)
  intro eventDigest fields
  cases fields
  simp only [RecordFields.mk.injEq, true_and, and_assoc]

/-- One bit of the checksum is one shift of the register. -/
theorem crc32cBit_shift (checksum : UInt32) :
    (crc32cBit checksum).toBitVec = Crc.shift 0x82f63b78#32 checksum.toBitVec := by
  have mask : (0 - (checksum &&& 1)).toBitVec =
      if checksum.toBitVec.getLsbD 0 then BitVec.allOnes 32 else 0#32 := by
    have low : (checksum &&& 1).toBitVec =
        BitVec.setWidth 32 (BitVec.ofBool (checksum.toBitVec.getLsbD 0)) := by
      rw [UInt32.toBitVec_and]
      exact BitVec.and_one_eq_setWidth_ofBool_getLsbD
    rw [UInt32.toBitVec_sub, low]
    cases checksum.toBitVec.getLsbD 0 <;> decide
  unfold crc32cBit Crc.shift
  simp only [UInt32.toBitVec_xor, UInt32.toBitVec_and, mask]
  cases checksum.toBitVec.getLsbD 0 <;> simp

/-- One byte of the checksum is absorbed into the register. -/
theorem crc32cByte_absorb (checksum : UInt32) (byte : UInt8) :
    (crc32cByte checksum byte).toBitVec = Crc.absorb 0x82f63b78#32 checksum.toBitVec byte := by
  have shifts : ∀ count register,
      (Nat.repeat crc32cBit count register).toBitVec =
        Crc.shifts 0x82f63b78#32 count register.toBitVec := by
    intro count
    induction count with
    | zero => exact fun _ => rfl
    | succ count ih =>
      intro register
      rw [Nat.repeat, crc32cBit_shift, ih, ← Crc.shifts_shift]
      rfl
  exact shifts 8 _

/-- The checksum is the remainder of the message. -/
theorem crc32c_remainder (bytes : List UInt8) :
    (crc32c bytes).toBitVec =
      Crc.remainder 0x82f63b78#32 0xffffffff#32 bytes ^^^ 0xffffffff#32 := by
  have fold : ∀ register : UInt32, (bytes.foldl crc32cByte register).toBitVec =
      Crc.remainder 0x82f63b78#32 register.toBitVec bytes := by
    induction bytes with
    | nil => exact fun _ => rfl
    | cons byte rest ih =>
      intro register
      rw [List.foldl_cons, ih, crc32cByte_absorb]
      rfl
  unfold crc32c
  rw [UInt32.toBitVec_xor, fold]
  rfl

/-- Messages that differ only inside four consecutive bytes have different checksums. -/
theorem crc32c_burst (before after : List UInt8) {left right : List UInt8}
    (length : left.length = right.length) (short : left.length ≤ 4)
    (same : crc32c (before ++ left ++ after) = crc32c (before ++ right ++ after)) :
    left = right := by
  have words := congrArg UInt32.toBitVec same
  rw [crc32c_remainder, crc32c_remainder] at words
  exact Crc.remainder_burst (by decide) _ before after length (by omega)
    ((BitVec.xor_left_inj _).mp words)

/-- The two lengths of a record are its first two words. -/
theorem readRecordLengths_of_long {bytes : List UInt8} (position : Nat) (long : 8 ≤ bytes.length) :
    readRecordLengths ⟨position, bytes⟩ =
      .ok ((UInt32.ofNat (ofBytes (bytes.take 4)), UInt32.ofNat (ofBytes ((bytes.drop 4).take 4))),
        ⟨position + 8, bytes.drop 8⟩) := by
  have first : 4 ≤ bytes.length := by omega
  have second : 4 ≤ (bytes.drop 4).length := by
    rw [List.length_drop]
    omega
  unfold readRecordLengths
  rw [Reader.bind_of_ok (u32_of_long first), Reader.bind_of_ok (u32_of_long second)]
  show Except.ok _ = _
  rw [List.drop_drop]

/-- What the two lengths in front of a record say. -/
structure FramedBy (bytes : List UInt8) (total : Nat) : Prop where
  /-- Both lengths are there. -/
  long : 8 ≤ bytes.length
  /-- The first is the length of the record. -/
  totalLength : ofBytes (bytes.take 4) = total
  /-- The second is the length of its payload. -/
  payloadLength : ofBytes ((bytes.drop 4).take 4) = total - 66
  /-- A record holds its fixed fields. -/
  lower : 66 ≤ total
  /-- A record is bounded. -/
  upper : total ≤ 64 * 1024

/-- Inspecting a record accepts exactly what is framed. -/
theorem inspectLogRecordLength_eq_ok {bytes : List UInt8} {total : Nat} :
    inspectLogRecordLength bytes = .ok total ↔ FramedBy bytes total := by
  have small (part : List UInt8) : (UInt32.ofNat (ofBytes (part.take 4))).toNat =
      ofBytes (part.take 4) :=
    UInt32.toNat_ofNat_of_lt' (ofBytes_take_lt 4 part)
  unfold inspectLogRecordLength commandLogRecordLengthPrefixBytes commandLogRecordFixedBytes
    maxRecordBytes codecFailure
  by_cases short : bytes.length < 8
  · rw [if_pos short]
    exact ⟨nofun, fun framed => absurd framed.long (by omega)⟩
  have long : 8 ≤ (bytes.take 8).length := by
    rw [List.length_take]
    omega
  have firstWord : (bytes.take 8).take 4 = bytes.take 4 := by
    rw [List.take_take]
    rfl
  have secondWord : ((bytes.take 8).drop 4).take 4 = (bytes.drop 4).take 4 := by
    rw [List.drop_take, List.take_take]
    rfl
  rw [if_neg short, readRecordLengths_of_long 0 long, firstWord, secondWord]
  simp only [small]
  constructor
  · intro accepted
    by_cases lower : ofBytes (bytes.take 4) < 66
    · rw [if_pos lower] at accepted
      cases accepted
    rw [if_neg lower] at accepted
    by_cases upper : ofBytes (bytes.take 4) > 64 * 1024
    · rw [if_pos upper] at accepted
      cases accepted
    rw [if_neg upper] at accepted
    by_cases differ : ofBytes (bytes.take 4) - 66 ≠ ofBytes ((bytes.drop 4).take 4)
    · rw [if_pos differ] at accepted
      cases accepted
    rw [if_neg differ] at accepted
    cases accepted
    exact ⟨by omega, rfl, by omega, by omega, by omega⟩
  · intro framed
    obtain ⟨_, total, payload, lower, upper⟩ := framed
    rw [if_neg (by omega), if_neg (by omega), if_neg (by omega), total]

/-- The stored checksum is the last word. -/
theorem checksumMatches_iff {encoded : List UInt8} (long : 4 ≤ encoded.length) :
    checksumMatches encoded = true ↔
      ofBytes (encoded.drop (encoded.length - 4)) =
        (crc32c (encoded.take (encoded.length - 4))).toNat := by
  have rest : (encoded.drop (encoded.length - 4)).length = 4 := by
    rw [List.length_drop]
    omega
  have whole : (encoded.drop (encoded.length - 4)).take 4 = encoded.drop (encoded.length - 4) :=
    List.take_of_length_le (Nat.le_of_eq rest)
  have bound := ofBytes_lt (encoded.drop (encoded.length - 4))
  rw [rest] at bound
  unfold checksumMatches
  rw [u32_of_long (by rw [rest])]
  simp only [whole, decide_eq_true_eq]
  rw [← UInt32.toNat_inj, UInt32.toNat_ofNat_of_lt' bound]

/-- A body with its checksum matches. -/
theorem withChecksum_matches (body : List UInt8) :
    checksumMatches (withChecksum body) = true := by
  have length : (withChecksum body).length - 4 = body.length := by
    unfold withChecksum encodeU32
    rw [List.length_append, toBytes_length]
    omega
  rw [checksumMatches_iff (by unfold withChecksum encodeU32; simp), length]
  unfold withChecksum encodeU32
  rw [List.drop_left, List.take_left, ofBytes_toBytes]
  exact Nat.mod_eq_of_lt (crc32c body).toNat_lt

/-- A payload has the size of its kind. -/
theorem encodeCommandPayload_length (command : Command) :
    (encodeCommandPayload command).length = payloadSize command.commandType := by
  cases command <;>
    simp only [encodeCommandPayload, encodeNewOrder, encodeCancelOrder, encodeReplaceOrder,
      encodeU8, encodeU32, encodeU64, encodeI64, List.length_append, toBytes_length] <;>
    rfl

/-- The fixed fields of a record take their own bytes. -/
theorem encodeRecordFields_length (fields : RecordFields) :
    (encodeRecordFields fields).length = 62 := by
  simp only [encodeRecordFields, encodeU8, encodeU16, encodeU32, encodeU64, List.length_append,
    toBytes_length, fields.eventDigest.size]

/-- A record that can be logged. -/
structure CommandRecord.Valid (record : CommandRecord) : Prop where
  /-- It has the current version. -/
  version : record.recordVersion = commandLogRecordVersion
  /-- It has a sequence. -/
  sequenced : record.sequence ≠ 0
  /-- Its command produced events. -/
  reported : record.eventCount ≠ 0
  /-- Its outcome is one of the two. -/
  outcome : record.outcome.isValid = true
  /-- Its reason fits its outcome. -/
  fits : outcomeMatches record.outcome record.rejectionReason = true

/-- The bytes of a record. -/
def CommandRecord.encoding (record : CommandRecord) : List UInt8 :=
  withChecksum
    (encodeRecordFields (record.fields (66 + payloadSize record.command.commandType)
        (payloadSize record.command.commandType)) ++ encodeCommandPayload record.command)

/-- A record takes its fixed bytes and its payload. -/
theorem CommandRecord.encoding_length (record : CommandRecord) :
    record.encoding.length = 66 + payloadSize record.command.commandType := by
  unfold CommandRecord.encoding withChecksum encodeU32
  rw [List.length_append, List.length_append, encodeRecordFields_length,
    encodeCommandPayload_length, toBytes_length]
  omega

/-- No payload is long. -/
theorem payloadSize_bounds (type : CommandType) :
    16 ≤ payloadSize type ∧ payloadSize type ≤ 40 := by
  cases type <;> decide

/-- A record is encoded exactly when it can be logged, and then as its bytes. -/
theorem encodeCommandRecord_eq_ok {record : CommandRecord} {bytes : List UInt8} :
    encodeCommandRecord record = .ok bytes ↔ record.Valid ∧ bytes = record.encoding := by
  have bounds := payloadSize_bounds record.command.commandType
  have total : checkedAdd commandLogRecordFixedBytes (payloadSize record.command.commandType) =
      some (66 + payloadSize record.command.commandType) := by
    unfold checkedAdd commandLogRecordFixedBytes maxSize
    rw [if_neg (by omega)]
  have length := record.encoding_length
  unfold CommandRecord.encoding at length
  unfold encodeCommandRecord
  simp only [total]
  constructor
  · intro encoded
    by_cases version : record.recordVersion ≠ commandLogRecordVersion
    · rw [if_pos version] at encoded
      cases encoded
    rw [if_neg version] at encoded
    by_cases empty : record.sequence = 0 ∨ record.eventCount = 0 ∨ record.outcome.isValid = false
    · rw [if_pos empty] at encoded
      cases encoded
    rw [if_neg empty] at encoded
    by_cases unfit : outcomeMatches record.outcome record.rejectionReason = false
    · rw [if_pos unfit] at encoded
      cases encoded
    rw [if_neg unfit] at encoded
    rw [if_neg (by omega), if_neg (by unfold maxRecordBytes; omega)] at encoded
    rw [if_neg (not_not.mpr length)] at encoded
    rw [not_or, not_or] at empty
    have same : record.encoding = bytes := Except.ok.inj encoded
    exact ⟨⟨not_not.mp version, empty.1, empty.2.1, Bool.not_eq_false _ ▸ empty.2.2,
      Bool.not_eq_false _ ▸ unfit⟩, same.symm⟩
  · rintro ⟨valid, rfl⟩
    rw [if_neg (not_not.mpr valid.version), if_neg, if_neg]
    · rw [if_neg (by omega), if_neg (by unfold maxRecordBytes; omega),
        if_neg (not_not.mpr length)]
      rfl
    · rw [valid.fits]
      exact Bool.noConfusion
    · rw [valid.outcome]
      simp only [valid.sequenced, valid.reported, false_or]
      exact Bool.noConfusion

section Payload

variable {Value : Type} {encode : Value → List UInt8} {read : Reader Value}

/-- A whole payload is read exactly when it is the encoding of what is read. -/
theorem readPayload_eq_ok (exact : Exact encode read) {payload : List UInt8} {offset : Nat}
    {value : Value} : readPayload read payload offset = .ok value ↔ payload = encode value := by
  unfold readPayload
  constructor
  · intro decoded
    cases result : (do let value ← read; Reader.finish; pure value : Reader Value) ⟨0, payload⟩ with
    | error position =>
      rw [result] at decoded
      cases decoded
    | ok pair =>
      obtain ⟨found, last⟩ := pair
      rw [result] at decoded
      cases decoded
      obtain ⟨part, middle, head, tail⟩ := Reader.bind_eq_ok.mp result
      obtain ⟨_, ended, finished, rest⟩ := Reader.bind_eq_ok.mp tail
      cases rest
      obtain ⟨_, bytes, _⟩ := exact.canonical _ _ _ head
      unfold Reader.finish at finished
      by_cases empty : middle.rest = []
      · rw [empty, List.append_nil] at bytes
        exact bytes
      · rw [if_neg empty] at finished
        cases finished
  · rintro rfl
    have front := exact.reads value trivial 0 []
    rw [List.append_nil] at front
    rw [Reader.bind_of_ok front]
    rfl

end Payload

/-- The stored fields of an order stand for it. -/
theorem NewOrderFields.order_ofOrder (order : NewOrder) :
    (NewOrderFields.ofOrder order).order = order := by
  obtain ⟨clientId, orderId, instrumentId, ⟨side⟩, ⟨orderType⟩, ⟨timeInForce⟩, limitPrice,
    quantity⟩ := order
  cases limitPrice with
  | none => rfl
  | some price => rfl

/-- Whether a presence byte and a price fit together. -/
def NewOrderFields.Canonical (fields : NewOrderFields) : Prop :=
  ¬(fields.pricePresent > 1 ∨ (fields.pricePresent = 0 ∧ fields.price ≠ 0))

/-- The stored fields of an order fit together. -/
theorem NewOrderFields.ofOrder_canonical (order : NewOrder) :
    (NewOrderFields.ofOrder order).Canonical := by
  unfold NewOrderFields.Canonical NewOrderFields.ofOrder
  cases order.limitPrice with
  | none => simp
  | some price => simp

/-- Fields that fit together are the stored form of the order they stand for. -/
theorem NewOrderFields.ofOrder_order {fields : NewOrderFields} (canonical : fields.Canonical) :
    NewOrderFields.ofOrder fields.order = fields := by
  obtain ⟨clientId, orderId, instrumentId, side, orderType, timeInForce, pricePresent, price,
    quantity⟩ := fields
  unfold NewOrderFields.Canonical at canonical
  rw [not_or, not_and, not_not] at canonical
  obtain ⟨small, zero⟩ := canonical
  unfold NewOrderFields.ofOrder NewOrderFields.order
  by_cases absent : pricePresent = 0
  · have nothing := zero absent
    simp only at nothing
    simp [absent, nothing]
  · have present : pricePresent = 1 := by
      simp only [gt_iff_lt, UInt8.not_lt] at small
      apply UInt8.toNat_inj.mp
      have bound := UInt8.le_iff_toNat_le.mp small
      have nonzero : pricePresent.toNat ≠ 0 := fun none => absent (UInt8.toNat_inj.mp none)
      show pricePresent.toNat = 1
      have : (1 : UInt8).toNat = 1 := rfl
      omega
    simp [present]

/-- A payload is decoded exactly when it is the encoding of a command of that kind. -/
theorem decodeCommandPayload_eq_ok {type : CommandType} {payload : List UInt8} {offset : Nat}
    {command : Command} :
    decodeCommandPayload type payload offset = .ok command ↔
      command.commandType = type ∧ payload = encodeCommandPayload command := by
  cases type with
  | newOrder =>
    unfold decodeCommandPayload codecFailure
    constructor
    · intro decoded
      cases found : readPayload readNewOrder payload offset with
      | error refused =>
        rw [found] at decoded
        cases decoded
      | ok fields =>
        rw [found] at decoded
        simp only [bind, Except.bind] at decoded
        by_cases unfit : fields.pricePresent > 1 ∨ (fields.pricePresent = 0 ∧ fields.price ≠ 0)
        · rw [if_pos unfit] at decoded
          cases decoded
        · rw [if_neg unfit] at decoded
          cases decoded
          refine ⟨rfl, ?_⟩
          rw [(readPayload_eq_ok newOrder_exact).mp found]
          show _ = encodeNewOrder (.ofOrder fields.order)
          rw [NewOrderFields.ofOrder_order unfit]
    · rintro ⟨kind, rfl⟩
      cases command with
      | cancel order => cases kind
      | replace order => cases kind
      | newOrder order =>
        have found : readPayload readNewOrder (encodeCommandPayload (.newOrder order)) offset =
            .ok (.ofOrder order) := (readPayload_eq_ok newOrder_exact).mpr rfl
        rw [found]
        simp only [bind, Except.bind]
        have fit := NewOrderFields.ofOrder_canonical order
        unfold NewOrderFields.Canonical at fit
        rw [if_neg fit, NewOrderFields.order_ofOrder]
        rfl
  | cancel =>
    unfold decodeCommandPayload
    constructor
    · intro decoded
      cases found : readPayload readCancelOrder payload offset with
      | error refused =>
        rw [found] at decoded
        cases decoded
      | ok order =>
        rw [found] at decoded
        cases decoded
        exact ⟨rfl, (readPayload_eq_ok cancelOrder_exact).mp found⟩
    · rintro ⟨kind, rfl⟩
      cases command with
      | newOrder order => cases kind
      | replace order => cases kind
      | cancel order =>
        have found : readPayload readCancelOrder (encodeCommandPayload (.cancel order)) offset =
            .ok order := (readPayload_eq_ok cancelOrder_exact).mpr rfl
        rw [found]
        rfl
  | replace =>
    unfold decodeCommandPayload
    constructor
    · intro decoded
      cases found : readPayload readReplaceOrder payload offset with
      | error refused =>
        rw [found] at decoded
        cases decoded
      | ok order =>
        rw [found] at decoded
        cases decoded
        exact ⟨rfl, (readPayload_eq_ok replaceOrder_exact).mp found⟩
    · rintro ⟨kind, rfl⟩
      cases command with
      | newOrder order => cases kind
      | cancel order => cases kind
      | replace order =>
        have found : readPayload readReplaceOrder (encodeCommandPayload (.replace order)) offset =
            .ok order := (readPayload_eq_ok replaceOrder_exact).mpr rfl
        rw [found]
        rfl

/-- A number names a command type exactly when it is that type's number. -/
theorem CommandType.ofCode_eq_some {code : UInt8} {type : CommandType} :
    CommandType.ofCode code = some type ↔ code = type.code := by
  unfold CommandType.ofCode
  constructor
  · intro named
    by_cases one : code = 1
    · rw [if_pos one] at named
      cases named
      exact one
    rw [if_neg one] at named
    by_cases two : code = 2
    · rw [if_pos two] at named
      cases named
      exact two
    rw [if_neg two] at named
    by_cases three : code = 3
    · rw [if_pos three] at named
      cases named
      exact three
    · rw [if_neg three] at named
      cases named
  · rintro rfl
    cases type <;> rfl

/-- A byte string with a matching checksum is its body with the checksum of the body. -/
theorem eq_withChecksum {encoded : List UInt8} (long : 4 ≤ encoded.length)
    (matching : checksumMatches encoded = true) :
    encoded = withChecksum (encoded.take (encoded.length - 4)) := by
  have stored := (checksumMatches_iff long).mp matching
  have size : (encoded.drop (encoded.length - 4)).length = 4 := by
    rw [List.length_drop]
    omega
  have bytes := toBytes_ofBytes (encoded.drop (encoded.length - 4))
  rw [size, stored] at bytes
  unfold withChecksum encodeU32
  rw [bytes, List.take_append_drop]

/-- What the fields of a decoded record have passed. -/
structure RecordFields.Accepted (fields : RecordFields) (type : CommandType) : Prop where
  version : fields.recordVersion = commandLogRecordVersion
  named : fields.type = type.code
  payloadLength : fields.payloadLength.toNat = payloadSize type
  outcome : RecordOutcome.isValid ⟨fields.outcome⟩ = true
  sequenced : fields.sequence ≠ 0
  reported : fields.eventCount ≠ 0
  fits : outcomeMatches ⟨fields.outcome⟩ ⟨fields.rejectionReason⟩ = true

/-- What a decoded record says about the bytes, step by step. -/
theorem decodeCommandRecord_inversion {bytes : List UInt8} {record : CommandRecord}
    (decoded : decodeCommandRecord bytes = .ok record) :
    ∃ total fields type command afterFields payload rest,
      FramedBy bytes total ∧ total ≤ bytes.length ∧
      checksumMatches (bytes.take total) = true ∧
      readRecordFields ⟨0, bytes.take total⟩ = .ok (fields, afterFields) ∧
      RecordFields.Accepted fields type ∧
      Reader.block fields.payloadLength.toNat afterFields = .ok (payload, rest) ∧
      decodeCommandPayload type payload.bytes 62 = .ok command ∧
      record = fields.record command := by
  unfold decodeCommandRecord codecFailure at decoded
  cases inspected : inspectLogRecordLength bytes with
  | error refused =>
    rw [inspected] at decoded
    cases decoded
  | ok total =>
  rw [inspected] at decoded
  simp only [bind, Except.bind] at decoded
  have framed := inspectLogRecordLength_eq_ok.mp inspected
  by_cases short : bytes.length < total
  · rw [if_pos short] at decoded
    cases decoded
  rw [if_neg short] at decoded
  cases lengths : readRecordLengths
      ⟨0, (bytes.take total).take commandLogRecordLengthPrefixBytes⟩ with
  | error position =>
    rw [lengths] at decoded
    cases decoded
  | ok found =>
  rw [lengths] at decoded
  simp only at decoded
  split at decoded
  · cases decoded
  by_cases checked : checksumMatches (bytes.take total) = false
  · rw [if_pos checked] at decoded
    cases decoded
  rw [if_neg checked] at decoded
  cases read : readRecordFields ⟨0, bytes.take total⟩ with
  | error position =>
    rw [read] at decoded
    cases decoded
  | ok pair =>
  obtain ⟨fields, afterFields⟩ := pair
  rw [read] at decoded
  simp only at decoded
  by_cases version : fields.recordVersion ≠ commandLogRecordVersion
  · rw [if_pos version] at decoded
    cases decoded
  rw [if_neg version] at decoded
  cases named : CommandType.ofCode fields.type with
  | none =>
    rw [named] at decoded
    cases decoded
  | some type =>
  rw [named] at decoded
  simp only at decoded
  by_cases size : payloadSize type ≠ fields.payloadLength.toNat
  · rw [if_pos size] at decoded
    cases decoded
  rw [if_neg size] at decoded
  by_cases outcome : RecordOutcome.isValid ⟨fields.outcome⟩ = false
  · rw [if_pos outcome] at decoded
    cases decoded
  rw [if_neg outcome] at decoded
  by_cases unfit : fields.sequence = 0 ∨ fields.eventCount = 0 ∨
      outcomeMatches ⟨fields.outcome⟩ ⟨fields.rejectionReason⟩ = false
  · rw [if_pos unfit] at decoded
    cases decoded
  rw [if_neg unfit] at decoded
  cases block : Reader.block fields.payloadLength.toNat afterFields with
  | error position =>
    rw [block] at decoded
    cases decoded
  | ok pair =>
  obtain ⟨payload, rest⟩ := pair
  rw [block] at decoded
  simp only at decoded
  cases payloadDecoded : decodeCommandPayload type payload.bytes 62 with
  | error refused =>
    rw [payloadDecoded] at decoded
    cases decoded
  | ok command =>
  rw [payloadDecoded] at decoded
  cases decoded
  rw [not_or, not_or, Bool.not_eq_false] at unfit
  rw [Bool.not_eq_false] at checked outcome
  rw [not_not] at version size
  exact ⟨total, fields, type, command, afterFields, payload, rest, framed, by omega, checked, read,
    ⟨version, CommandType.ofCode_eq_some.mp named, size.symm, outcome, unfit.1, unfit.2.1,
      unfit.2.2⟩, block, payloadDecoded, rfl⟩

/-- The fields of a decoded record are those of the record it stands for. -/
theorem RecordFields.Accepted.fields_record {fields : RecordFields} {command : Command}
    (accepted : fields.Accepted command.commandType)
    (total : fields.totalLength.toNat = 66 + payloadSize command.commandType) :
    (fields.record command).fields (66 + payloadSize command.commandType)
      (payloadSize command.commandType) = fields := by
  have type := accepted.named
  have payload := accepted.payloadLength
  cases fields
  simp only [RecordFields.record, CommandRecord.fields, RecordFields.mk.injEq, and_true,
    true_and] at *
  rw [← total, ← payload, UInt32.ofNat_toNat, UInt32.ofNat_toNat]
  exact ⟨rfl, rfl, type.symm⟩

/-- The fixed fields of a record begin with its two lengths. -/
theorem encodeRecordFields_words (fields : RecordFields) (suffix : List UInt8) :
    (encodeRecordFields fields ++ suffix).take 4 = encodeU32 fields.totalLength ∧
      ((encodeRecordFields fields ++ suffix).drop 4).take 4 = encodeU32 fields.payloadLength := by
  have first : (encodeU32 fields.totalLength).length = 4 := toBytes_length _ _
  have second : (encodeU32 fields.payloadLength).length = 4 := toBytes_length _ _
  unfold encodeRecordFields
  rw [List.append_assoc, List.append_assoc]
  constructor
  · rw [List.take_append_of_le_length (by omega), List.take_of_length_le (by omega)]
  · rw [List.drop_append_of_le_length (by omega), List.drop_of_length_le (by omega),
      List.nil_append, List.take_append_of_le_length (by omega),
      List.take_of_length_le (by omega)]

/-- Reading back the bytes of a word returns it. -/
theorem ofBytes_encodeU32 (word : UInt32) : ofBytes (encodeU32 word) = word.toNat := by
  unfold encodeU32
  rw [ofBytes_toBytes]
  exact Nat.mod_eq_of_lt word.toNat_lt

section Layout

variable {fields : RecordFields} {command : Command}

/-- The length of laid-out fields and payload with their checksum. -/
theorem layout_length (fields : RecordFields) (command : Command) :
    (withChecksum (encodeRecordFields fields ++ encodeCommandPayload command)).length =
      66 + payloadSize command.commandType := by
  unfold withChecksum encodeU32
  rw [List.length_append, List.length_append, encodeRecordFields_length,
    encodeCommandPayload_length, toBytes_length]
  omega

/-- Fields whose lengths are right frame what follows them. -/
theorem layout_framed (total : fields.totalLength.toNat = 66 + payloadSize command.commandType)
    (payload : fields.payloadLength.toNat = payloadSize command.commandType)
    (suffix : List UInt8) :
    FramedBy (withChecksum (encodeRecordFields fields ++ encodeCommandPayload command) ++ suffix)
      (66 + payloadSize command.commandType) := by
  have bounds := payloadSize_bounds command.commandType
  have length := layout_length fields command
  obtain ⟨tail, layout⟩ : ∃ tail,
      withChecksum (encodeRecordFields fields ++ encodeCommandPayload command) ++ suffix =
        encodeRecordFields fields ++ tail := by
    unfold withChecksum
    simp only [List.append_assoc]
    exact ⟨_, rfl⟩
  obtain ⟨first, second⟩ := encodeRecordFields_words fields tail
  constructor
  · rw [List.length_append]
    omega
  · rw [layout, first, ofBytes_encodeU32, total]
  · rw [layout, second, ofBytes_encodeU32, payload]
    omega
  · omega
  · omega

/-- Accepted fields and a payload decode to the record they stand for. -/
theorem decodeCommandRecord_layout (accepted : fields.Accepted command.commandType)
    (total : fields.totalLength.toNat = 66 + payloadSize command.commandType)
    (suffix : List UInt8) :
    decodeCommandRecord
        (withChecksum (encodeRecordFields fields ++ encodeCommandPayload command) ++ suffix) =
      .ok (fields.record command) := by
  have bounds := payloadSize_bounds command.commandType
  have length := layout_length fields command
  have inspected := inspectLogRecordLength_eq_ok.mpr
    (layout_framed total accepted.payloadLength suffix)
  have alone := layout_framed total accepted.payloadLength []
  have matching := withChecksum_matches
    (encodeRecordFields fields ++ encodeCommandPayload command)
  have fieldsRead := recordFields_exact.reads fields trivial 0 (encodeCommandPayload command ++
    encodeU32 (crc32c (encodeRecordFields fields ++ encodeCommandPayload command)))
  have payloadRead := (block_exact fields.payloadLength.toNat).reads
    ⟨encodeCommandPayload command,
      (encodeCommandPayload_length command).trans accepted.payloadLength.symm⟩ trivial
    (0 + (encodeRecordFields fields).length)
    (encodeU32 (crc32c (encodeRecordFields fields ++ encodeCommandPayload command)))
  have layout : withChecksum (encodeRecordFields fields ++ encodeCommandPayload command) =
      encodeRecordFields fields ++ (encodeCommandPayload command ++
        encodeU32 (crc32c (encodeRecordFields fields ++ encodeCommandPayload command))) := by
    unfold withChecksum
    rw [List.append_assoc]
  rw [← layout] at fieldsRead
  rw [List.append_nil] at alone
  clear layout
  generalize encodedIs :
    withChecksum (encodeRecordFields fields ++ encodeCommandPayload command) = encoded at *
  have whole : (encoded ++ suffix).take (66 + payloadSize command.commandType) = encoded := by
    rw [List.take_append_of_le_length (by omega), List.take_of_length_le (by omega)]
  have lengths : readRecordLengths ⟨0, encoded.take commandLogRecordLengthPrefixBytes⟩ = _ :=
    readRecordLengths_of_long 0 (by
      rw [List.length_take, length]
      unfold commandLogRecordLengthPrefixBytes
      omega)
  rw [List.take_take, List.drop_take, List.take_take, Nat.min_eq_left (by decide),
    Nat.min_eq_left (by decide), alone.totalLength, alone.payloadLength,
    Nat.add_sub_cancel_left] at lengths
  have added : checkedAdd commandLogRecordFixedBytes (payloadSize command.commandType) =
      some (66 + payloadSize command.commandType) := by
    unfold checkedAdd commandLogRecordFixedBytes maxSize
    rw [if_neg (by omega)]
  unfold decodeCommandRecord
  rw [inspected]
  simp only [bind, Except.bind]
  rw [if_neg (by rw [List.length_append]; omega), whole, lengths]
  simp only
  rw [UInt32.toNat_ofNat_of_lt' (by unfold UInt32.size; omega),
    UInt32.toNat_ofNat_of_lt' (by unfold UInt32.size; omega), if_neg (not_not.mpr added), matching,
    if_neg Bool.noConfusion, fieldsRead]
  simp only
  rw [if_neg (not_not.mpr accepted.version), CommandType.ofCode_eq_some.mpr accepted.named]
  simp only
  rw [if_neg (not_not.mpr accepted.payloadLength.symm), accepted.outcome, if_neg Bool.noConfusion,
    if_neg, payloadRead]
  · simp only
    rw [decodeCommandPayload_eq_ok.mpr ⟨rfl, rfl⟩]
    rfl
  · rw [accepted.fits]
    simp only [accepted.sequenced, accepted.reported, false_or]
    exact Bool.noConfusion

end Layout

/-- The fields of a record that can be logged are accepted. -/
theorem CommandRecord.Valid.accepted {record : CommandRecord} (valid : record.Valid)
    {totalLength : Nat} :
    (record.fields totalLength (payloadSize record.command.commandType)).Accepted
      record.command.commandType where
  version := valid.version
  named := rfl
  payloadLength := by
    have bounds := payloadSize_bounds record.command.commandType
    exact UInt32.toNat_ofNat_of_lt' (by unfold UInt32.size; omega)
  outcome := valid.outcome
  sequenced := valid.sequenced
  reported := valid.reported
  fits := valid.fits

/-- A byte string decodes to a record exactly when the record can be logged and the string begins
with its bytes. -/
theorem decodeCommandRecord_eq_ok {bytes : List UInt8} {record : CommandRecord} :
    decodeCommandRecord bytes = .ok record ↔
      record.Valid ∧ ∃ suffix, bytes = record.encoding ++ suffix := by
  constructor
  · intro decoded
    obtain ⟨total, fields, type, command, afterFields, payload, rest, framed, inside, matching,
      read, accepted, block, payloadDecoded, rfl⟩ := decodeCommandRecord_inversion decoded
    obtain ⟨rfl, payloadBytes⟩ := decodeCommandPayload_eq_ok.mp payloadDecoded
    obtain ⟨_, fieldBytes, _⟩ := recordFields_exact.canonical _ _ _ read
    obtain ⟨_, blockBytes, _⟩ := (block_exact _).canonical _ _ _ block
    simp only at fieldBytes
    rw [blockBytes, payloadBytes] at fieldBytes
    have lower := framed.lower
    have size : (bytes.take total).length = total := by
      rw [List.length_take]
      omega
    obtain ⟨firstWord, secondWord⟩ := encodeRecordFields_words fields
      (encodeCommandPayload command ++ rest.rest)
    rw [← fieldBytes, List.take_take, Nat.min_eq_left (by omega)] at firstWord
    rw [← fieldBytes, List.drop_take, List.take_take, Nat.min_eq_left (by omega)] at secondWord
    have declared := framed.totalLength
    have declaredPayload := framed.payloadLength
    rw [firstWord, ofBytes_encodeU32] at declared
    rw [secondWord, ofBytes_encodeU32, accepted.payloadLength] at declaredPayload
    have body : (bytes.take total).take (total - 4) =
        encodeRecordFields fields ++ encodeCommandPayload command := by
      have length : (encodeRecordFields fields ++ encodeCommandPayload command).length =
          total - 4 := by
        rw [List.length_append, encodeRecordFields_length, encodeCommandPayload_length]
        omega
      rw [fieldBytes, ← List.append_assoc, List.take_append_of_le_length (by omega),
        List.take_of_length_le (by omega)]
    have whole := eq_withChecksum (by omega) matching
    rw [size, body] at whole
    refine ⟨⟨accepted.version, accepted.sequenced, accepted.reported, accepted.outcome,
      accepted.fits⟩, bytes.drop total, ?_⟩
    unfold CommandRecord.encoding
    show bytes = withChecksum (encodeRecordFields ((fields.record command).fields
      (66 + payloadSize command.commandType) (payloadSize command.commandType)) ++
        encodeCommandPayload command) ++ bytes.drop total
    rw [accepted.fields_record (by omega), ← whole, List.take_append_drop]
  · rintro ⟨valid, suffix, rfl⟩
    have bounds := payloadSize_bounds record.command.commandType
    exact decodeCommandRecord_layout valid.accepted
      (UInt32.toNat_ofNat_of_lt' (by unfold UInt32.size; omega)) suffix

/-- The lengths in front of an encoded record frame it. -/
theorem CommandRecord.encoding_framed (record : CommandRecord) (suffix : List UInt8) :
    FramedBy (record.encoding ++ suffix) record.encoding.length := by
  have bounds := payloadSize_bounds record.command.commandType
  rw [record.encoding_length]
  exact layout_framed (UInt32.toNat_ofNat_of_lt' (by unfold UInt32.size; omega))
    (UInt32.toNat_ofNat_of_lt' (by unfold UInt32.size; omega)) suffix

/-- A byte string that decodes to a record is framed by the record's length, and the checksum of
that much of it matches. -/
theorem decodeCommandRecord_framed {bytes : List UInt8} {record : CommandRecord}
    (decoded : decodeCommandRecord bytes = .ok record) :
    FramedBy bytes record.encoding.length ∧
      bytes.take record.encoding.length = record.encoding := by
  obtain ⟨_, suffix, rfl⟩ := decodeCommandRecord_eq_ok.mp decoded
  exact ⟨record.encoding_framed suffix, List.take_left⟩

/-- The fixed prefix of a header takes sixty bytes. -/
theorem encodeHeaderFields_length (fields : HeaderPrefixFields) :
    (encodeHeaderFields fields).length = 60 := by
  simp only [encodeHeaderFields, encodeU16, encodeU32, encodeU64, List.length_append,
    toBytes_length, fields.magic.size, fields.logId.size]

/-- An instrument takes twenty-eight bytes. -/
theorem encodeCatalogEntry_length (instrument : PersistedInstrumentConfig) :
    (encodeCatalogEntry instrument).length = 28 := by
  simp only [encodeCatalogEntry, encodeU32, encodeU64, encodeI64, List.length_append,
    toBytes_length]

/-- A catalog takes its instruments. -/
theorem encodeCatalog_length (catalog : List PersistedInstrumentConfig) :
    (catalog.flatMap encodeCatalogEntry).length = 28 * catalog.length := by
  induction catalog with
  | nil => rfl
  | cons instrument rest ih =>
    rw [List.flatMap_cons, List.length_append, encodeCatalogEntry_length, ih, List.length_cons]
    omega

/-- The lengths in a header agree with its number of instruments. -/
structure HeaderPrefixFields.Sized (fields : HeaderPrefixFields) : Prop where
  catalog : fields.catalogLength.toNat = 28 * fields.catalogCount.toNat
  header : fields.headerLength.toNat = 96 + 28 * fields.catalogCount.toNat
  upper : 96 + 28 * fields.catalogCount.toNat ≤ 1024 * 1024

/-- The lengths of a header are accepted exactly when they agree. -/
theorem headerLengths_eq_none {fields : HeaderPrefixFields} :
    headerLengths fields.headerLength.toNat fields.catalogLength.toNat
        fields.catalogCount.toNat = none ↔ fields.Sized := by
  have small := fields.catalogCount.toNat_lt
  have product : checkedMultiply fields.catalogCount.toNat commandLogCatalogEntryBytes =
      some (fields.catalogCount.toNat * 28) := by
    unfold checkedMultiply commandLogCatalogEntryBytes maxSize
    rw [if_neg]
    rintro ⟨nonzero, above⟩
    have := (Nat.div_lt_iff_lt_mul (Nat.pos_of_ne_zero nonzero)).mp above
    omega
  have sum : checkedAdd commandLogHeaderFixedBytes (fields.catalogCount.toNat * 28) =
      some (96 + fields.catalogCount.toNat * 28) := by
    unfold checkedAdd commandLogHeaderFixedBytes maxSize
    rw [if_neg (by omega)]
  unfold headerLengths
  rw [product]
  simp only
  rw [sum]
  simp only
  unfold commandLogHeaderFixedBytes commandLogCatalogEntryBytes maxHeaderBytes
  constructor
  · intro accepted
    split at accepted
    · cases accepted
    split at accepted
    · cases accepted
    split at accepted
    · cases accepted
    constructor <;> omega
  · rintro ⟨catalog, header, upper⟩
    rw [if_neg (by omega), if_neg (by omega), if_neg (by omega)]

/-- Inspecting a header accepts exactly what begins with a prefix whose lengths agree. -/
theorem inspectLogHeaderLength_eq_ok {bytes : List UInt8} {length : Nat} :
    inspectLogHeaderLength bytes = .ok length ↔
      ∃ fields rest, bytes = encodeHeaderFields fields ++ rest ∧ fields.Sized ∧
        length = fields.headerLength.toNat := by
  unfold inspectLogHeaderLength commandLogHeaderFixedPrefixBytes codecFailure
  constructor
  · intro accepted
    by_cases short : bytes.length < 60
    · rw [if_pos short] at accepted
      cases accepted
    rw [if_neg short] at accepted
    cases read : readHeaderFields ⟨0, bytes.take 60⟩ with
    | error position =>
      rw [read] at accepted
      cases accepted
    | ok pair =>
      obtain ⟨fields, after⟩ := pair
      rw [read] at accepted
      simp only at accepted
      cases lengths : headerLengths fields.headerLength.toNat fields.catalogLength.toNat
          fields.catalogCount.toNat with
      | some category =>
        rw [lengths] at accepted
        cases accepted
      | none =>
        rw [lengths] at accepted
        cases accepted
        obtain ⟨_, front, _⟩ := headerFields_exact.canonical _ _ _ read
        refine ⟨fields, after.rest ++ bytes.drop 60, ?_, headerLengths_eq_none.mp lengths, rfl⟩
        rw [← List.append_assoc, ← front, List.take_append_drop]
  · rintro ⟨fields, rest, rfl, sized, rfl⟩
    have size := encodeHeaderFields_length fields
    have front : (encodeHeaderFields fields ++ rest).take 60 = encodeHeaderFields fields ++ [] := by
      rw [List.take_append_of_le_length (by omega), List.take_of_length_le (by omega),
        List.append_nil]
    rw [if_neg (by rw [List.length_append]; omega), front,
      headerFields_exact.reads fields trivial 0 []]
    simp only
    rw [headerLengths_eq_none.mpr sized]

/-- A header that can be stored. -/
structure LogHeader.Valid (header : LogHeader) : Prop where
  /-- It has the current format. -/
  format : header.formatVersion = commandLogFormatVersion
  /-- It has the current semantics. -/
  semantics : header.semanticsVersion = atlaslobSemanticsVersion
  /-- Its log starts at the first sequence. -/
  first : header.firstSequence = commandLogFirstSequence
  /-- Its catalog is one an engine accepts, in the order of the identifiers. -/
  catalog : persistedCatalogValid header.catalog = true
  /-- Its catalog fits the bound of a header. -/
  bounded : 96 + 28 * header.catalog.length ≤ maxHeaderBytes

/-- The bytes of a header before its checksum. -/
def LogHeader.body (header : LogHeader) : List UInt8 :=
  encodeHeaderFields (header.fields (96 + 28 * header.catalog.length) (28 * header.catalog.length)
      header.catalog.length) ++
    (header.catalog.flatMap encodeCatalogEntry ++
      (configurationDigest header.catalog header.engineConfig header.semanticsVersion).bytes)

/-- The bytes of a header. -/
def LogHeader.encoding (header : LogHeader) : List UInt8 := withChecksum header.body

/-- A header takes its fixed bytes and its catalog. -/
theorem LogHeader.encoding_length (header : LogHeader) :
    header.encoding.length = 96 + 28 * header.catalog.length := by
  unfold LogHeader.encoding LogHeader.body withChecksum encodeU32
  rw [List.length_append, List.length_append, List.length_append, encodeHeaderFields_length,
    encodeCatalog_length, toBytes_length, Block.size]
  omega

/-- Instruments in strictly ascending order are sorted. -/
theorem persistedCatalogFrom_pairwise {catalog : List PersistedInstrumentConfig}
    {previous : InstrumentId} (valid : persistedCatalogFrom previous catalog = true) :
    (∀ instrument ∈ catalog, previous < instrument.instrumentId) ∧
      catalog.Pairwise fun left right => left.instrumentId ≤ right.instrumentId := by
  induction catalog generalizing previous with
  | nil => exact ⟨by simp, List.Pairwise.nil⟩
  | cons instrument rest ih =>
    unfold persistedCatalogFrom at valid
    by_cases refused : instrument.instrumentId = 0 ∨ instrument.instrumentId ≤ previous ∨
        instrument.maxOrderQuantity = 0 ∨ instrument.tickIncrement ≤ 0
    · rw [if_pos refused] at valid
      cases valid
    rw [if_neg refused] at valid
    obtain ⟨above, sorted⟩ := ih valid
    rw [not_or, not_or] at refused
    have first : previous < instrument.instrumentId := UInt32.not_le.mp refused.2.1
    constructor
    · intro other member
      rcases List.mem_cons.mp member with rfl | later
      · exact first
      · exact UInt32.lt_trans first (above other later)
    · exact List.pairwise_cons.mpr
        ⟨fun other member => UInt32.le_of_lt (above other member), sorted⟩

/-- A valid catalog is already in order. -/
theorem sortCatalog_of_valid {catalog : List PersistedInstrumentConfig}
    (valid : persistedCatalogValid catalog = true) : sortCatalog catalog = catalog := by
  unfold persistedCatalogValid at valid
  rw [Bool.and_eq_true] at valid
  exact (persistedCatalogFrom_pairwise valid.2).2.insertionSort_eq

/-- A header over a catalog in order is encoded exactly when it can be stored. -/
theorem encodeLogHeader_eq_ok {header : LogHeader} {bytes : List UInt8}
    (sorted : sortCatalog header.catalog = header.catalog) :
    encodeLogHeader header = .ok bytes ↔ header.Valid ∧ bytes = header.encoding := by
  have length := header.encoding_length
  have unfolded : header.encoding = withChecksum
      (encodeHeaderFields (header.fields (96 + header.catalog.length * 28)
          (header.catalog.length * 28) header.catalog.length) ++
        (header.catalog.flatMap encodeCatalogEntry ++
          (configurationDigest header.catalog header.engineConfig
            header.semanticsVersion).bytes)) := by
    unfold LogHeader.encoding LogHeader.body
    rw [Nat.mul_comm 28]
  have size := unfolded ▸ length
  have product (few : ¬header.catalog.length > 2 ^ 32 - 1) :
      checkedMultiply header.catalog.length commandLogCatalogEntryBytes =
        some (header.catalog.length * 28) := by
    unfold checkedMultiply commandLogCatalogEntryBytes maxSize
    rw [if_neg]
    rintro ⟨nonzero, above⟩
    have := (Nat.div_lt_iff_lt_mul (Nat.pos_of_ne_zero nonzero)).mp above
    omega
  have sum (few : ¬header.catalog.length > 2 ^ 32 - 1) :
      checkedAdd commandLogHeaderFixedBytes (header.catalog.length * 28) =
        some (96 + header.catalog.length * 28) := by
    unfold checkedAdd commandLogHeaderFixedBytes maxSize
    rw [if_neg (by omega)]
  unfold encodeLogHeader codecFailure
  simp only [sorted]
  constructor
  · intro encoded
    by_cases format : header.formatVersion ≠ commandLogFormatVersion
    · rw [if_pos format] at encoded
      cases encoded
    rw [if_neg format] at encoded
    by_cases semantics : header.semanticsVersion ≠ atlaslobSemanticsVersion
    · rw [if_pos semantics] at encoded
      cases encoded
    rw [if_neg semantics] at encoded
    by_cases first : header.firstSequence ≠ commandLogFirstSequence
    · rw [if_pos first] at encoded
      cases encoded
    rw [if_neg first] at encoded
    by_cases many : header.catalog.length > 2 ^ 32 - 1
    · rw [if_pos many] at encoded
      cases encoded
    rw [if_neg many] at encoded
    by_cases invalid : persistedCatalogValid header.catalog = false
    · rw [if_pos invalid] at encoded
      cases encoded
    rw [if_neg invalid, product many] at encoded
    simp only at encoded
    rw [sum many] at encoded
    simp only at encoded
    by_cases wide : 96 + header.catalog.length * 28 > 2 ^ 32 - 1
    · rw [if_pos wide] at encoded
      cases encoded
    rw [if_neg wide] at encoded
    by_cases long : 96 + header.catalog.length * 28 > maxHeaderBytes
    · rw [if_pos long] at encoded
      cases encoded
    rw [if_neg long, if_neg (by omega)] at encoded
    refine ⟨⟨not_not.mp format, not_not.mp semantics, not_not.mp first,
      Bool.not_eq_false _ ▸ invalid, by omega⟩, ?_⟩
    rw [unfolded]
    exact (Except.ok.inj encoded).symm
  · rintro ⟨valid, rfl⟩
    have bounded := valid.bounded
    have limit : maxHeaderBytes = 1048576 := rfl
    have few : ¬header.catalog.length > 2 ^ 32 - 1 := by omega
    rw [if_neg (not_not.mpr valid.format), if_neg (not_not.mpr valid.semantics),
      if_neg (not_not.mpr valid.first), if_neg few, valid.catalog, if_neg Bool.noConfusion,
      product few]
    simp only
    rw [sum few]
    simp only
    rw [if_neg (by omega), if_neg (by omega), if_neg (by omega), unfolded]

/-- Sorting a catalog twice is sorting it once. -/
theorem sortCatalog_sortCatalog (catalog : List PersistedInstrumentConfig) :
    sortCatalog (sortCatalog catalog) = sortCatalog catalog := by
  have total : Std.Total fun left right : PersistedInstrumentConfig =>
      left.instrumentId ≤ right.instrumentId := ⟨fun _ _ => UInt32.le_total _ _⟩
  have transitive : IsTrans PersistedInstrumentConfig fun left right =>
      left.instrumentId ≤ right.instrumentId := ⟨fun _ _ _ => UInt32.le_trans⟩
  exact (List.pairwise_insertionSort _ catalog).insertionSort_eq

/-- The header with its instruments in the order of their identifiers. -/
def LogHeader.canonical (header : LogHeader) : LogHeader :=
  { header with catalog := sortCatalog header.catalog }

/-- Sorting the catalog first changes no bytes of a header. -/
theorem encodeLogHeader_canonical (header : LogHeader) :
    encodeLogHeader header.canonical = encodeLogHeader header := by
  have length : (sortCatalog header.catalog).length = header.catalog.length :=
    List.length_insertionSort _ _
  unfold encodeLogHeader LogHeader.fields LogHeader.canonical
  simp only [length, sortCatalog_sortCatalog]

/-- A header is encoded exactly when it can be stored once its catalog is sorted, and then as the
bytes of the sorted header. -/
theorem encodeLogHeader_iff {header : LogHeader} {bytes : List UInt8} :
    encodeLogHeader header = .ok bytes ↔
      header.canonical.Valid ∧ bytes = header.canonical.encoding := by
  rw [← encodeLogHeader_canonical]
  exact encodeLogHeader_eq_ok (sortCatalog_sortCatalog header.catalog)

/-- What the fields of a decoded header have passed. -/
structure HeaderPrefixFields.Accepted (fields : HeaderPrefixFields) : Prop where
  sized : fields.Sized
  magic : fields.magic = commandLogMagic
  format : fields.formatVersion = commandLogFormatVersion
  marker : fields.marker = commandLogByteOrderMarker
  first : fields.firstSequence = commandLogFirstSequence
  semantics : fields.semanticsVersion = atlaslobSemanticsVersion

/-- The header that fields and a catalog stand for. -/
def HeaderPrefixFields.toHeader (fields : HeaderPrefixFields)
    (catalog : List PersistedInstrumentConfig) : LogHeader where
  formatVersion := fields.formatVersion
  semanticsVersion := fields.semanticsVersion
  logId := fields.logId
  firstSequence := fields.firstSequence
  engineConfig := ⟨fields.engineCapacity⟩
  catalog := catalog

/-- What a decoded header says about the bytes, step by step. -/
theorem decodeLogHeader_inversion {bytes : List UInt8} {header : LogHeader}
    (decoded : decodeLogHeader bytes = .ok header) :
    ∃ length fields afterFields catalog afterCatalog digest rest,
      inspectLogHeaderLength bytes = .ok length ∧ length ≤ bytes.length ∧
      checksumMatches (bytes.take length) = true ∧
      readHeaderFields ⟨0, bytes.take length⟩ = .ok (fields, afterFields) ∧
      (fields.Sized → fields.Accepted) ∧
      Reader.many fields.catalogCount.toNat readCatalogEntry afterFields =
        .ok (catalog, afterCatalog) ∧
      Reader.block 32 afterCatalog = .ok (digest, rest) ∧
      persistedCatalogValid catalog = true ∧
      configurationDigest catalog ⟨fields.engineCapacity⟩ fields.semanticsVersion = digest ∧
      header = fields.toHeader catalog := by
  unfold decodeLogHeader codecFailure at decoded
  cases inspected : inspectLogHeaderLength bytes with
  | error refused =>
    rw [inspected] at decoded
    cases decoded
  | ok length =>
  rw [inspected] at decoded
  simp only [bind, Except.bind] at decoded
  by_cases short : bytes.length < length
  · rw [if_pos short] at decoded
    cases decoded
  rw [if_neg short] at decoded
  by_cases checked : checksumMatches (bytes.take length) = false
  · rw [if_pos checked] at decoded
    cases decoded
  rw [if_neg checked] at decoded
  cases read : readHeaderFields ⟨0, bytes.take length⟩ with
  | error position =>
    rw [read] at decoded
    cases decoded
  | ok pair =>
  obtain ⟨fields, afterFields⟩ := pair
  rw [read] at decoded
  simp only at decoded
  by_cases magic : fields.magic ≠ commandLogMagic
  · rw [if_pos magic] at decoded
    cases decoded
  rw [if_neg magic] at decoded
  by_cases format : fields.formatVersion ≠ commandLogFormatVersion
  · rw [if_pos format] at decoded
    cases decoded
  rw [if_neg format] at decoded
  by_cases marker : fields.marker ≠ commandLogByteOrderMarker
  · rw [if_pos marker] at decoded
    cases decoded
  rw [if_neg marker] at decoded
  by_cases first : fields.firstSequence ≠ commandLogFirstSequence
  · rw [if_pos first] at decoded
    cases decoded
  rw [if_neg first] at decoded
  by_cases semantics : fields.semanticsVersion ≠ atlaslobSemanticsVersion
  · rw [if_pos semantics] at decoded
    cases decoded
  rw [if_neg semantics] at decoded
  cases many : Reader.many fields.catalogCount.toNat readCatalogEntry afterFields with
  | error position =>
    rw [many] at decoded
    cases decoded
  | ok pair =>
  obtain ⟨catalog, afterCatalog⟩ := pair
  rw [many] at decoded
  simp only at decoded
  cases block : Reader.block 32 afterCatalog with
  | error position =>
    rw [block] at decoded
    cases decoded
  | ok pair =>
  obtain ⟨digest, rest⟩ := pair
  rw [block] at decoded
  simp only at decoded
  by_cases invalid : persistedCatalogValid catalog = false
  · rw [if_pos invalid] at decoded
    cases decoded
  rw [if_neg invalid] at decoded
  by_cases mismatch : configurationDigest catalog ⟨fields.engineCapacity⟩
      fields.semanticsVersion ≠ digest
  · rw [if_pos mismatch] at decoded
    cases decoded
  rw [if_neg mismatch] at decoded
  cases decoded
  rw [Bool.not_eq_false] at checked invalid
  rw [not_not] at magic format marker first semantics mismatch
  exact ⟨length, fields, afterFields, catalog, afterCatalog, digest, rest, rfl, by omega, checked,
    read, fun sized => ⟨sized, magic, format, marker, first, semantics⟩, many, block, invalid,
    mismatch, rfl⟩

/-- The fields of a decoded header are those of the header they stand for. -/
theorem HeaderPrefixFields.Accepted.fields_toHeader {fields : HeaderPrefixFields}
    {catalog : List PersistedInstrumentConfig} (accepted : fields.Accepted)
    (count : catalog.length = fields.catalogCount.toNat) :
    (fields.toHeader catalog).fields (96 + 28 * catalog.length) (28 * catalog.length)
      catalog.length = fields := by
  obtain ⟨⟨catalogLength, headerLength, _⟩, magic, _, marker, _, _⟩ := accepted
  cases fields
  simp only [HeaderPrefixFields.toHeader, LogHeader.fields, HeaderPrefixFields.mk.injEq,
    true_and] at *
  rw [count, ← headerLength, ← catalogLength, UInt32.ofNat_toNat, UInt32.ofNat_toNat,
    UInt32.ofNat_toNat]
  exact ⟨magic.symm, marker.symm, rfl, rfl, rfl⟩

/-- The fields of a header that can be stored. -/
theorem LogHeader.Valid.accepted {header : LogHeader} (valid : header.Valid) :
    (header.fields (96 + 28 * header.catalog.length) (28 * header.catalog.length)
      header.catalog.length).Accepted := by
  have bounded := valid.bounded
  have limit : maxHeaderBytes = 1048576 := rfl
  have word {value : Nat} (small : value < 2 ^ 32) : (UInt32.ofNat value).toNat = value :=
    UInt32.toNat_ofNat_of_lt' small
  refine ⟨⟨?_, ?_, ?_⟩, rfl, valid.format, rfl, valid.first, valid.semantics⟩
  · show (UInt32.ofNat _).toNat = 28 * (UInt32.ofNat _).toNat
    rw [word (by omega), word (by omega)]
  · show (UInt32.ofNat _).toNat = 96 + 28 * (UInt32.ofNat _).toNat
    rw [word (by omega), word (by omega)]
  · show 96 + 28 * (UInt32.ofNat _).toNat ≤ 1024 * 1024
    rw [word (by omega)]
    exact bounded

/-- The bytes of a header that can be stored decode to it. -/
theorem decodeLogHeader_layout {header : LogHeader} (valid : header.Valid)
    (suffix : List UInt8) : decodeLogHeader (header.encoding ++ suffix) = .ok header := by
  have accepted := valid.accepted
  have length := header.encoding_length
  have bounded := valid.bounded
  have limit : maxHeaderBytes = 1048576 := rfl
  have count : (UInt32.ofNat header.catalog.length).toNat = header.catalog.length :=
    UInt32.toNat_ofNat_of_lt' (by unfold UInt32.size; omega)
  have total : (UInt32.ofNat (96 + 28 * header.catalog.length)).toNat =
      96 + 28 * header.catalog.length :=
    UInt32.toNat_ofNat_of_lt' (by unfold UInt32.size; omega)
  have matching : checksumMatches header.encoding = true := withChecksum_matches _
  have layout : header.encoding =
      encodeHeaderFields (header.fields (96 + 28 * header.catalog.length)
        (28 * header.catalog.length) header.catalog.length) ++
      (header.catalog.flatMap encodeCatalogEntry ++
        ((configurationDigest header.catalog header.engineConfig header.semanticsVersion).bytes ++
          encodeU32 (crc32c header.body))) := by
    unfold LogHeader.encoding withChecksum
    conv => lhs; arg 1; unfold LogHeader.body
    rw [List.append_assoc, List.append_assoc]
  have fieldsRead := headerFields_exact.reads (header.fields (96 + 28 * header.catalog.length)
    (28 * header.catalog.length) header.catalog.length) trivial 0
    (header.catalog.flatMap encodeCatalogEntry ++
      ((configurationDigest header.catalog header.engineConfig header.semanticsVersion).bytes ++
        encodeU32 (crc32c header.body)))
  rw [← layout] at fieldsRead
  have inspected : inspectLogHeaderLength (header.encoding ++ suffix) =
      .ok (96 + 28 * header.catalog.length) := by
    rw [layout, List.append_assoc]
    exact inspectLogHeaderLength_eq_ok.mpr ⟨_, _, rfl, accepted.sized, total.symm⟩
  have catalogRead := (many_exact catalogEntry_exact header.catalog.length).reads header.catalog rfl
  have digestRead := (block_exact 32).reads
    (configurationDigest header.catalog header.engineConfig header.semanticsVersion) trivial
  have whole : (header.encoding ++ suffix).take (96 + 28 * header.catalog.length) =
      header.encoding := by
    rw [List.take_append_of_le_length (by omega), List.take_of_length_le (by omega)]
  unfold decodeLogHeader
  rw [inspected]
  simp only [bind, Except.bind]
  rw [if_neg (by rw [List.length_append]; omega), whole, matching, if_neg Bool.noConfusion,
    fieldsRead]
  simp only
  rw [if_neg (not_not.mpr accepted.magic), if_neg (not_not.mpr accepted.format),
    if_neg (not_not.mpr accepted.marker), if_neg (not_not.mpr accepted.first),
    if_neg (not_not.mpr accepted.semantics)]
  have counted : (header.fields (96 + 28 * header.catalog.length) (28 * header.catalog.length)
      header.catalog.length).catalogCount.toNat = header.catalog.length := count
  rw [counted, catalogRead]
  simp only
  rw [digestRead]
  simp only
  have digestIs : configurationDigest header.catalog
      ⟨(header.fields (96 + 28 * header.catalog.length) (28 * header.catalog.length)
        header.catalog.length).engineCapacity⟩ (header.fields (96 + 28 * header.catalog.length)
          (28 * header.catalog.length) header.catalog.length).semanticsVersion =
      configurationDigest header.catalog header.engineConfig header.semanticsVersion := rfl
  rw [valid.catalog, if_neg Bool.noConfusion, if_neg (not_not.mpr digestIs)]
  rfl

/-- A byte string decodes to a header exactly when the header can be stored and the string begins
with its bytes. -/
theorem decodeLogHeader_eq_ok {bytes : List UInt8} {header : LogHeader} :
    decodeLogHeader bytes = .ok header ↔
      header.Valid ∧ ∃ suffix, bytes = header.encoding ++ suffix := by
  constructor
  · intro decoded
    obtain ⟨length, fields, afterFields, catalog, afterCatalog, digest, rest, inspected, inside,
      matching, read, passed, many, block, valid, digestIs, rfl⟩ :=
      decodeLogHeader_inversion decoded
    obtain ⟨front, tail, rfl, sized, rfl⟩ := inspectLogHeaderLength_eq_ok.mp inspected
    have size := encodeHeaderFields_length front
    have header := sized.header
    have whole : (encodeHeaderFields front ++ tail).take front.headerLength.toNat =
        encodeHeaderFields front ++ tail.take (front.headerLength.toNat - 60) := by
      rw [List.take_append, size, List.take_of_length_le (by omega)]
    have again := headerFields_exact.reads front trivial 0
      (tail.take (front.headerLength.toNat - 60))
    rw [← whole, read] at again
    cases again
    have accepted := passed sized
    obtain ⟨count, catalogBytes, _⟩ := (many_exact catalogEntry_exact _).canonical _ _ _ many
    obtain ⟨_, digestBytes, _⟩ := (block_exact 32).canonical _ _ _ block
    simp only at catalogBytes
    rw [digestBytes, ← List.append_assoc] at catalogBytes
    have total : ((encodeHeaderFields fields ++ tail).take fields.headerLength.toNat).length =
        fields.headerLength.toNat := by
      rw [List.length_take]
      omega
    have catalogSize := encodeCatalog_length catalog
    have body : ((encodeHeaderFields fields ++ tail).take fields.headerLength.toNat).take
        (fields.headerLength.toNat - 4) = (fields.toHeader catalog).body := by
      have bodyIs : (fields.toHeader catalog).body = encodeHeaderFields fields ++
          (catalog.flatMap encodeCatalogEntry ++ digest.bytes) := by
        unfold LogHeader.body
        show encodeHeaderFields ((fields.toHeader catalog).fields (96 + 28 * catalog.length)
          (28 * catalog.length) catalog.length) ++ (catalog.flatMap encodeCatalogEntry ++
            (configurationDigest catalog ⟨fields.engineCapacity⟩
              fields.semanticsVersion).bytes) = _
        rw [accepted.fields_toHeader count, digestIs]
      have length : (encodeHeaderFields fields ++
          (catalog.flatMap encodeCatalogEntry ++ digest.bytes)).length =
            fields.headerLength.toNat - 4 := by
        rw [List.length_append, List.length_append, digest.size]
        omega
      rw [whole, catalogBytes, bodyIs, ← List.append_assoc,
        List.take_append_of_le_length (by omega), List.take_of_length_le (by omega)]
    have closed := eq_withChecksum (by omega) matching
    rw [total, body] at closed
    refine ⟨⟨accepted.format, accepted.semantics, accepted.first, valid, ?_⟩,
      (encodeHeaderFields fields ++ tail).drop fields.headerLength.toNat, ?_⟩
    · show 96 + 28 * catalog.length ≤ 1024 * 1024
      have := sized.upper
      omega
    · unfold LogHeader.encoding
      rw [← closed, List.take_append_drop]
  · rintro ⟨valid, suffix, rfl⟩
    exact decodeLogHeader_layout valid suffix

end AtlasLob
