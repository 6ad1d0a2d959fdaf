import AtlasLob.Core.Engine
import AtlasLob.Core.Sha256

/-!
# The command log codec

The bytes of a command log: a header that names the log and its engine configuration, and one
framed record for each command with its outcome. Both end with a CRC-32C of everything before
it. Decoding checks the lengths first, then the checksum, then every field, and names the
category and the byte offset of the first thing it refuses.
-/

namespace AtlasLob

open Binary

/-- `crc32c`: one bit of the division. -/
def crc32cBit (checksum : UInt32) : UInt32 :=
  let mask := 0 - (checksum &&& 1)
  (checksum >>> 1) ^^^ (0x82f63b78 &&& mask)

/-- `crc32c`: one byte. -/
def crc32cByte (checksum : UInt32) (byte : UInt8) : UInt32 :=
  Nat.repeat crc32cBit 8 (checksum ^^^ byte.toUInt32)

/-- `crc32c`. -/
def crc32c (bytes : List UInt8) : UInt32 := bytes.foldl crc32cByte 0xffffffff ^^^ 0xffffffff

/-- `LogErrorCategory`, without `none`. -/
inductive LogErrorCategory
  | truncatedFinalRecord
  | invalidLength
  | excessiveLength
  | unsupportedFormatVersion
  | unsupportedRecordVersion
  | unknownRecordType
  | badHeaderChecksum
  | badRecordChecksum
  | invalidCommandSchema
  | duplicateSequence
  | missingSequence
  | semanticVersionMismatch
  | catalogConfigurationMismatch
  | ioFailure
  deriving DecidableEq, Repr

/-- `std::error_code`: the conditions the code raises itself, and those of the host. -/
inductive SystemError
  | ioError
  | invalidArgument
  | stateNotRecoverable
  | fileExists
  | badFileDescriptor
  | other (code : Int)
  deriving DecidableEq, Repr

/-- `LogError`: what was refused and where. -/
structure LogError where
  category : LogErrorCategory
  byteOffset : Nat
  systemError : Option SystemError
  deriving DecidableEq, Repr

/-- `CodecResult`. -/
abbrev CodecResult := Except LogError

/-- `failure`: refuse with a category at an offset. -/
def codecFailure {Value : Type} (category : LogErrorCategory) (offset : Nat) : CodecResult Value :=
  .error ⟨category, offset, none⟩

/-- The greatest `size_t` of the host. -/
def maxSize : Nat := 2 ^ 64 - 1

/-- `checked_add`. -/
def checkedAdd (left right : Nat) : Option Nat :=
  if right > maxSize - left then none else some (left + right)

/-- `checked_multiply`. -/
def checkedMultiply (left right : Nat) : Option Nat :=
  if left ≠ 0 ∧ right > maxSize / left then none else some (left * right)

/-- `command_log_magic`: `ATLSLG01`. -/
def commandLogMagic : Block 8 := ⟨[0x41, 0x54, 0x4c, 0x53, 0x4c, 0x47, 0x30, 0x31], rfl⟩

/-- `command_log_format_version`. -/
def commandLogFormatVersion : UInt16 := 1

/-- `command_log_record_version`. -/
def commandLogRecordVersion : UInt16 := 1

/-- `command_log_byte_order_marker`. -/
def commandLogByteOrderMarker : UInt32 := 0x01020304

/-- `command_log_first_sequence`. -/
def commandLogFirstSequence : UInt64 := 1

/-- `command_log_header_fixed_prefix_bytes`. -/
def commandLogHeaderFixedPrefixBytes : Nat := 60

/-- `command_log_catalog_entry_bytes`. -/
def commandLogCatalogEntryBytes : Nat := 28

/-- `command_log_header_fixed_bytes`. -/
def commandLogHeaderFixedBytes : Nat := 96

/-- `command_log_record_length_prefix_bytes`. -/
def commandLogRecordLengthPrefixBytes : Nat := 8

/-- `command_log_record_fixed_bytes`. -/
def commandLogRecordFixedBytes : Nat := 66

/-- `CodecLimits::max_header_bytes`, the fixed bound of log headers. -/
def maxHeaderBytes : Nat := 1024 * 1024

/-- `CodecLimits::max_record_bytes`, the fixed bound of log records. -/
def maxRecordBytes : Nat := 64 * 1024

/-- The identity of a log. -/
abbrev LogId := Block 16

/-- `PersistedInstrumentConfig`. -/
structure PersistedInstrumentConfig where
  instrumentId : InstrumentId
  maxOrderQuantity : UInt64
  tickIncrement : PriceTicks
  maxActiveOrders : UInt64
  deriving DecidableEq, Repr

/-- `PersistedEngineConfig`. -/
structure PersistedEngineConfig where
  maxTotalActiveOrders : UInt64
  deriving DecidableEq, Repr

/-- `LogHeader`. -/
structure LogHeader where
  formatVersion : UInt16
  semanticsVersion : UInt16
  logId : LogId
  firstSequence : Sequence
  engineConfig : PersistedEngineConfig
  catalog : List PersistedInstrumentConfig
  deriving DecidableEq

/-- The raw byte of the outcome of a logged command. -/
structure RecordOutcome where
  /-- The stored byte. -/
  code : UInt8
  deriving DecidableEq, Repr

namespace RecordOutcome

/-- The command was accepted. -/
def committed : RecordOutcome := ⟨1⟩

/-- The command was refused. -/
def rejected : RecordOutcome := ⟨2⟩

/-- Only the two named outcomes are valid. -/
def isValid (outcome : RecordOutcome) : Bool := outcome = committed || outcome = rejected

end RecordOutcome

/-- The number of a reason. -/
def RejectReason.code : RejectReason → UInt16
  | .none => 0
  | .invalidOrderId => 1
  | .invalidInstrumentId => 2
  | .invalidQuantity => 3
  | .invalidSide => 4
  | .invalidOrderType => 5
  | .invalidTimeInForce => 6
  | .missingLimitPrice => 7
  | .unexpectedLimitPrice => 8
  | .invalidPrice => 9
  | .invalidOrderTypeTimeInForce => 10
  | .unsupportedTimeInForce => 11
  | .invalidClientId => 12
  | .unknownInstrument => 13
  | .quantityOutOfRange => 14
  | .invalidTick => 15
  | .duplicateOrderId => 16
  | .unknownOrderId => 17
  | .invalidReplacementId => 18
  | .ownershipMismatch => 19
  | .instrumentMismatch => 20
  | .capacityExceeded => 21

/-- The raw number of a logged reason. -/
structure RecordReason where
  /-- The stored number. -/
  code : UInt16
  deriving DecidableEq, Repr

namespace RecordReason

/-- The stored form of a reason. -/
def ofReason (reason : RejectReason) : RecordReason := ⟨reason.code⟩

/-- No reason. -/
def none : RecordReason := ofReason .none

/-- Only the numbers of the named reasons other than `none` are valid. -/
def isValid (reason : RecordReason) : Bool := 1 ≤ reason.code && reason.code ≤ 21

end RecordReason

/-- `CommandRecord`: a command with what came of it. -/
structure CommandRecord where
  recordVersion : UInt16
  command : Command
  sequence : Sequence
  outcome : RecordOutcome
  rejectionReason : RecordReason
  eventCount : UInt64
  eventDigest : Digest256
  deriving DecidableEq

/-- `persisted_catalog_valid`: what the loop requires after the instruments before. -/
def persistedCatalogFrom (previous : InstrumentId) : List PersistedInstrumentConfig → Bool
  | [] => true
  | instrument :: rest =>
    if instrument.instrumentId = 0 ∨ instrument.instrumentId ≤ previous ∨
        instrument.maxOrderQuantity = 0 ∨ instrument.tickIncrement ≤ 0 then false
    else persistedCatalogFrom instrument.instrumentId rest

/-- `persisted_catalog_valid`. -/
def persistedCatalogValid (catalog : List PersistedInstrumentConfig) : Bool :=
  !catalog.isEmpty && persistedCatalogFrom 0 catalog

/-- The loop of `configuration_digest` over the instruments. -/
def hashInstrument (hash : Sha256) (instrument : PersistedInstrumentConfig) : Sha256 :=
  (((hash.update (encodeU32 instrument.instrumentId)).update
    (encodeU64 instrument.maxOrderQuantity)).update
    (encodeU64 instrument.tickIncrement.toUInt64)).update (encodeU64 instrument.maxActiveOrders)

/-- `configuration_digest`, over the prefix `ATLSCF01`. -/
def configurationDigest (canonicalCatalog : List PersistedInstrumentConfig)
    (engineConfig : PersistedEngineConfig) (semanticsVersion : UInt16) : Digest256 :=
  let start := (((Sha256.initial.update [0x41, 0x54, 0x4c, 0x53, 0x43, 0x46, 0x30, 0x31]).update
    (encodeU16 semanticsVersion)).update (encodeU64 engineConfig.maxTotalActiveOrders)).update
    (encodeU64 (UInt64.ofNat canonicalCatalog.length))
  (canonicalCatalog.foldl hashInstrument start).finish

/-- `header_lengths`: what is wrong with the lengths of a header. -/
def headerLengths (headerLength catalogLength catalogCount : Nat) : Option LogErrorCategory :=
  if headerLength < commandLogHeaderFixedBytes ∨
      catalogLength % commandLogCatalogEntryBytes ≠ 0 then some .invalidLength
  else if headerLength > maxHeaderBytes then some .excessiveLength
  else
    match checkedMultiply catalogCount commandLogCatalogEntryBytes with
    | none => some .invalidLength
    | some expectedCatalogLength =>
      match checkedAdd commandLogHeaderFixedBytes expectedCatalogLength with
      | none => some .invalidLength
      | some expectedHeaderLength =>
        if expectedCatalogLength ≠ catalogLength ∨ expectedHeaderLength ≠ headerLength then
          some .invalidLength
        else none

/-- `encode_catalog_entry`. -/
def encodeCatalogEntry (instrument : PersistedInstrumentConfig) : List UInt8 :=
  encodeU32 instrument.instrumentId ++ (encodeU64 instrument.maxOrderQuantity ++
    (encodeI64 instrument.tickIncrement ++ encodeU64 instrument.maxActiveOrders))

/-- `decode_catalog_entry`. -/
def readCatalogEntry : Reader PersistedInstrumentConfig := do
  let instrumentId ← Reader.u32
  let maxOrderQuantity ← Reader.u64
  let tickIncrement ← Reader.i64
  let maxActiveOrders ← Reader.u64
  pure ⟨instrumentId, maxOrderQuantity, tickIncrement, maxActiveOrders⟩

/-- `payload_size`. -/
def payloadSize : CommandType → Nat
  | .newOrder => 36
  | .cancel => 16
  | .replace => 40

/-- The stored fields of a new order. -/
structure NewOrderFields where
  clientId : ClientId
  orderId : OrderId
  instrumentId : InstrumentId
  side : UInt8
  orderType : UInt8
  timeInForce : UInt8
  pricePresent : UInt8
  price : Int64
  quantity : UInt64

/-- The stored fields of an order. -/
def NewOrderFields.ofOrder (order : NewOrder) : NewOrderFields where
  clientId := order.clientId
  orderId := order.orderId
  instrumentId := order.instrumentId
  side := order.side.code
  orderType := order.orderType.code
  timeInForce := order.timeInForce.code
  pricePresent := if order.limitPrice.isSome then 1 else 0
  price := order.limitPrice.getD 0
  quantity := order.quantity

/-- The order its stored fields stand for. -/
def NewOrderFields.order (fields : NewOrderFields) : NewOrder where
  clientId := fields.clientId
  orderId := fields.orderId
  instrumentId := fields.instrumentId
  side := ⟨fields.side⟩
  orderType := ⟨fields.orderType⟩
  timeInForce := ⟨fields.timeInForce⟩
  limitPrice := if fields.pricePresent = 0 then none else some fields.price
  quantity := fields.quantity

/-- `encode_command_payload` for a new order. -/
def encodeNewOrder (fields : NewOrderFields) : List UInt8 :=
  encodeU32 fields.clientId ++ (encodeU64 fields.orderId ++ (encodeU32 fields.instrumentId ++
    (encodeU8 fields.side ++ (encodeU8 fields.orderType ++ (encodeU8 fields.timeInForce ++
      (encodeU8 fields.pricePresent ++ (encodeI64 fields.price ++
        encodeU64 fields.quantity)))))))

/-- `encode_command_payload` for a withdrawal. -/
def encodeCancelOrder (order : CancelOrder) : List UInt8 :=
  encodeU32 order.clientId ++ (encodeU64 order.orderId ++ encodeU32 order.instrumentId)

/-- `encode_command_payload` for an exchange. -/
def encodeReplaceOrder (order : ReplaceOrder) : List UInt8 :=
  encodeU32 order.clientId ++ (encodeU64 order.oldOrderId ++ (encodeU64 order.newOrderId ++
    (encodeU32 order.instrumentId ++ (encodeI64 order.newLimitPrice ++
      encodeU64 order.newQuantity))))

/-- `encode_command_payload`. -/
def encodeCommandPayload : Command → List UInt8
  | .newOrder order => encodeNewOrder (.ofOrder order)
  | .cancel order => encodeCancelOrder order
  | .replace order => encodeReplaceOrder order

/-- The fields `decode_command_payload` reads of a new order. -/
def readNewOrder : Reader NewOrderFields := do
  let clientId ← Reader.u32
  let orderId ← Reader.u64
  let instrumentId ← Reader.u32
  let side ← Reader.u8
  let orderType ← Reader.u8
  let timeInForce ← Reader.u8
  let pricePresent ← Reader.u8
  let price ← Reader.i64
  let quantity ← Reader.u64
  pure ⟨clientId, orderId, instrumentId, side, orderType, timeInForce, pricePresent, price,
    quantity⟩

/-- The fields `decode_command_payload` reads of a withdrawal. -/
def readCancelOrder : Reader CancelOrder := do
  let clientId ← Reader.u32
  let orderId ← Reader.u64
  let instrumentId ← Reader.u32
  pure ⟨clientId, orderId, instrumentId⟩

/-- The fields `decode_command_payload` reads of an exchange. -/
def readReplaceOrder : Reader ReplaceOrder := do
  let clientId ← Reader.u32
  let oldOrderId ← Reader.u64
  let newOrderId ← Reader.u64
  let instrumentId ← Reader.u32
  let newLimitPrice ← Reader.i64
  let newQuantity ← Reader.u64
  pure ⟨clientId, oldOrderId, newOrderId, instrumentId, newLimitPrice, newQuantity⟩

/-- Read all of a payload; a field or a trailing byte out of place is a schema error there. -/
def readPayload {Value : Type} (read : Reader Value) (payload : List UInt8)
    (payloadOffset : Nat) : CodecResult Value :=
  match (do let value ← read; Reader.finish; pure value : Reader Value) ⟨0, payload⟩ with
  | .error position => codecFailure .invalidCommandSchema (payloadOffset + position)
  | .ok (value, _) => .ok value

/-- `decode_command_payload`. -/
def decodeCommandPayload (type : CommandType) (payload : List UInt8) (payloadOffset : Nat) :
    CodecResult Command :=
  match type with
  | .newOrder => do
    let fields ← readPayload readNewOrder payload payloadOffset
    if fields.pricePresent > 1 ∨ (fields.pricePresent = 0 ∧ fields.price ≠ 0) then
      codecFailure .invalidCommandSchema (payloadOffset + 19)
    else pure (.newOrder fields.order)
  | .cancel => do
    let order ← readPayload readCancelOrder payload payloadOffset
    pure (.cancel order)
  | .replace => do
    let order ← readPayload readReplaceOrder payload payloadOffset
    pure (.replace order)

/-- The check of `make_log_header` on the instruments after the ones before. -/
def canonicalCatalogFrom (previous : InstrumentId) : List InstrumentConfig → Bool
  | [] => true
  | instrument :: rest =>
    if instrument.instrumentId = 0 ∨ instrument.instrumentId ≤ previous ∨
        instrument.matching.valid = false then false
    else canonicalCatalogFrom instrument.instrumentId rest

/-- The persisted form of the configuration of an instrument. -/
def PersistedInstrumentConfig.ofConfig (instrument : InstrumentConfig) :
    PersistedInstrumentConfig where
  instrumentId := instrument.instrumentId
  maxOrderQuantity := instrument.matching.maxOrderQuantity
  tickIncrement := instrument.matching.tickIncrement
  maxActiveOrders := instrument.matching.maxActiveOrders

/-- `make_log_header`. Capacities are 64-bit words on both sides, so that every capacity of
the engine fits its persisted form. -/
def makeLogHeader (canonicalCatalog : List InstrumentConfig)
    (engineConfig : MultiInstrumentEngineConfig) (logId : LogId) : CodecResult LogHeader :=
  if canonicalCatalog.isEmpty ∨ canonicalCatalogFrom 0 canonicalCatalog = false then
    codecFailure .catalogConfigurationMismatch 0
  else
    .ok
      { formatVersion := commandLogFormatVersion
        semanticsVersion := atlaslobSemanticsVersion
        logId := logId
        firstSequence := commandLogFirstSequence
        engineConfig := ⟨engineConfig.maxTotalActiveOrders⟩
        catalog := canonicalCatalog.map .ofConfig }

/-- The fixed prefix of a header. -/
structure HeaderPrefixFields where
  magic : Block 8
  formatVersion : UInt16
  semanticsVersion : UInt16
  marker : UInt32
  headerLength : UInt32
  catalogLength : UInt32
  logId : LogId
  firstSequence : UInt64
  engineCapacity : UInt64
  catalogCount : UInt32

/-- The bytes of the fixed prefix of a header. -/
def encodeHeaderFields (fields : HeaderPrefixFields) : List UInt8 :=
  fields.magic.bytes ++ (encodeU16 fields.formatVersion ++ (encodeU16 fields.semanticsVersion ++
    (encodeU32 fields.marker ++ (encodeU32 fields.headerLength ++
      (encodeU32 fields.catalogLength ++ (fields.logId.bytes ++
        (encodeU64 fields.firstSequence ++ (encodeU64 fields.engineCapacity ++
          encodeU32 fields.catalogCount))))))))

/-- The reads of the fixed prefix of a header. -/
def readHeaderFields : Reader HeaderPrefixFields := do
  let magic ← Reader.block 8
  let formatVersion ← Reader.u16
  let semanticsVersion ← Reader.u16
  let marker ← Reader.u32
  let headerLength ← Reader.u32
  let catalogLength ← Reader.u32
  let logId ← Reader.block 16
  let firstSequence ← Reader.u64
  let engineCapacity ← Reader.u64
  let catalogCount ← Reader.u32
  pure ⟨magic, formatVersion, semanticsVersion, marker, headerLength, catalogLength, logId,
    firstSequence, engineCapacity, catalogCount⟩

/-- `inspect_log_header_length`. -/
def inspectLogHeaderLength (fixed : List UInt8) : CodecResult Nat :=
  if fixed.length < commandLogHeaderFixedPrefixBytes then
    codecFailure .invalidLength fixed.length
  else
    match readHeaderFields ⟨0, fixed.take commandLogHeaderFixedPrefixBytes⟩ with
    | .error position => codecFailure .invalidLength position
    | .ok (fields, _) =>
      match headerLengths fields.headerLength.toNat fields.catalogLength.toNat
          fields.catalogCount.toNat with
      | some category => codecFailure category 16
      | none => .ok fields.headerLength.toNat

/-- The two lengths in front of a record. -/
def readRecordLengths : Reader (UInt32 × UInt32) := do
  let totalLength ← Reader.u32
  let payloadLength ← Reader.u32
  pure (totalLength, payloadLength)

/-- `inspect_log_record_length`. -/
def inspectLogRecordLength (lengths : List UInt8) : CodecResult Nat :=
  if lengths.length < commandLogRecordLengthPrefixBytes then
    codecFailure .truncatedFinalRecord lengths.length
  else
    match readRecordLengths ⟨0, lengths.take commandLogRecordLengthPrefixBytes⟩ with
    | .error position => codecFailure .truncatedFinalRecord position
    | .ok ((totalLength, payloadLength), _) =>
      if totalLength.toNat < commandLogRecordFixedBytes then codecFailure .invalidLength 0
      else if totalLength.toNat > maxRecordBytes then codecFailure .excessiveLength 0
      else if totalLength.toNat - commandLogRecordFixedBytes ≠ payloadLength.toNat then
        codecFailure .invalidLength 4
      else .ok totalLength.toNat

/-- Instruments in the order of their identifiers. -/
def sortCatalog (catalog : List PersistedInstrumentConfig) : List PersistedInstrumentConfig :=
  catalog.insertionSort fun left right => left.instrumentId ≤ right.instrumentId

/-- The fixed prefix of the header over a canonical catalog. -/
def LogHeader.fields (header : LogHeader) (headerLength catalogLength catalogCount : Nat) :
    HeaderPrefixFields where
  magic := commandLogMagic
  formatVersion := header.formatVersion
  semanticsVersion := header.semanticsVersion
  marker := commandLogByteOrderMarker
  headerLength := UInt32.ofNat headerLength
  catalogLength := UInt32.ofNat catalogLength
  logId := header.logId
  firstSequence := header.firstSequence
  engineCapacity := header.engineConfig.maxTotalActiveOrders
  catalogCount := UInt32.ofNat catalogCount

/-- Append the checksum of everything before it. -/
def withChecksum (body : List UInt8) : List UInt8 := body ++ encodeU32 (crc32c body)

/-- `encode_log_header`. -/
def encodeLogHeader (header : LogHeader) : CodecResult (List UInt8) :=
  if header.formatVersion ≠ commandLogFormatVersion then
    codecFailure .unsupportedFormatVersion 8
  else if header.semanticsVersion ≠ atlaslobSemanticsVersion then
    codecFailure .semanticVersionMismatch 10
  else if header.firstSequence ≠ commandLogFirstSequence then
    codecFailure .unsupportedFormatVersion 40
  else if header.catalog.length > 2 ^ 32 - 1 then codecFailure .excessiveLength 56
  else
    let canonicalCatalog := sortCatalog header.catalog
    if persistedCatalogValid canonicalCatalog = false then
      codecFailure .catalogConfigurationMismatch 48
    else
      match checkedMultiply canonicalCatalog.length commandLogCatalogEntryBytes with
      | none => codecFailure .excessiveLength 16
      | some catalogLength =>
        match checkedAdd commandLogHeaderFixedBytes catalogLength with
        | none => codecFailure .excessiveLength 16
        | some headerLength =>
          if headerLength > 2 ^ 32 - 1 then codecFailure .excessiveLength 16
          else if headerLength > maxHeaderBytes then codecFailure .excessiveLength 16
          else
            let encoded := withChecksum
              (encodeHeaderFields
                  (header.fields headerLength catalogLength canonicalCatalog.length) ++
                (canonicalCatalog.flatMap encodeCatalogEntry ++
                  (configurationDigest canonicalCatalog header.engineConfig
                    header.semanticsVersion).bytes))
            if encoded.length ≠ headerLength then codecFailure .invalidLength encoded.length
            else .ok encoded

/-- The checksum stored in the last four bytes is that of everything before them. -/
def checksumMatches (encoded : List UInt8) : Bool :=
  match Reader.u32 ⟨0, encoded.drop (encoded.length - 4)⟩ with
  | .error _ => false
  | .ok (storedChecksum, _) => storedChecksum = crc32c (encoded.take (encoded.length - 4))

/-- `decode_log_header`. -/
def decodeLogHeader (bytes : List UInt8) : CodecResult LogHeader := do
  let length ← inspectLogHeaderLength bytes
  if bytes.length < length then codecFailure .invalidLength bytes.length
  else
    let encoded := bytes.take length
    if checksumMatches encoded = false then
      codecFailure .badHeaderChecksum (encoded.length - 4)
    else
      match readHeaderFields ⟨0, encoded⟩ with
      | .error position => codecFailure .invalidLength position
      | .ok (fields, afterFields) =>
        if fields.magic ≠ commandLogMagic then codecFailure .unsupportedFormatVersion 0
        else if fields.formatVersion ≠ commandLogFormatVersion then
          codecFailure .unsupportedFormatVersion 8
        else if fields.marker ≠ commandLogByteOrderMarker then
          codecFailure .unsupportedFormatVersion 12
        else if fields.firstSequence ≠ commandLogFirstSequence then
          codecFailure .unsupportedFormatVersion 40
        else if fields.semanticsVersion ≠ atlaslobSemanticsVersion then
          codecFailure .semanticVersionMismatch 10
        else
          match Reader.many fields.catalogCount.toNat readCatalogEntry afterFields with
          | .error position => codecFailure .catalogConfigurationMismatch position
          | .ok (catalog, afterCatalog) =>
            match Reader.block 32 afterCatalog with
            | .error position => codecFailure .invalidLength position
            | .ok (storedDigest, _) =>
              let engineConfig : PersistedEngineConfig := ⟨fields.engineCapacity⟩
              if persistedCatalogValid catalog = false then
                codecFailure .catalogConfigurationMismatch 60
              else if configurationDigest catalog engineConfig fields.semanticsVersion ≠
                  storedDigest then
                codecFailure .catalogConfigurationMismatch (encoded.length - 36)
              else
                .ok
                  { formatVersion := fields.formatVersion
                    semanticsVersion := fields.semanticsVersion
                    logId := fields.logId
                    firstSequence := fields.firstSequence
                    engineConfig := engineConfig
                    catalog := catalog }

/-- The number of a command type. -/
def CommandType.code : CommandType → UInt8
  | .newOrder => 1
  | .cancel => 2
  | .replace => 3

/-- The command type of a number, if it names one. -/
def CommandType.ofCode (code : UInt8) : Option CommandType :=
  if code = 1 then some .newOrder
  else if code = 2 then some .cancel
  else if code = 3 then some .replace
  else none

/-- The fixed fields of a record. -/
structure RecordFields where
  totalLength : UInt32
  payloadLength : UInt32
  recordVersion : UInt16
  type : UInt8
  outcome : UInt8
  sequence : UInt64
  rejectionReason : UInt16
  eventCount : UInt64
  eventDigest : Digest256

/-- The bytes of the fixed fields of a record. -/
def encodeRecordFields (fields : RecordFields) : List UInt8 :=
  encodeU32 fields.totalLength ++ (encodeU32 fields.payloadLength ++
    (encodeU16 fields.recordVersion ++ (encodeU8 fields.type ++ (encodeU8 fields.outcome ++
      (encodeU64 fields.sequence ++ (encodeU16 fields.rejectionReason ++
        (encodeU64 fields.eventCount ++ fields.eventDigest.bytes)))))))

/-- The reads of the fixed fields of a record. -/
def readRecordFields : Reader RecordFields := do
  let totalLength ← Reader.u32
  let payloadLength ← Reader.u32
  let recordVersion ← Reader.u16
  let type ← Reader.u8
  let outcome ← Reader.u8
  let sequence ← Reader.u64
  let rejectionReason ← Reader.u16
  let eventCount ← Reader.u64
  let eventDigest ← Reader.block 32
  pure ⟨totalLength, payloadLength, recordVersion, type, outcome, sequence, rejectionReason,
    eventCount, eventDigest⟩

/-- Whether an outcome and a reason fit together. -/
def outcomeMatches (outcome : RecordOutcome) (reason : RecordReason) : Bool :=
  !(outcome = .committed && reason ≠ .none) && !(outcome = .rejected && !reason.isValid)

/-- The fixed fields of a record whose payload has a given length. -/
def CommandRecord.fields (record : CommandRecord) (totalLength payloadLength : Nat) :
    RecordFields where
  totalLength := UInt32.ofNat totalLength
  payloadLength := UInt32.ofNat payloadLength
  recordVersion := record.recordVersion
  type := record.command.commandType.code
  outcome := record.outcome.code
  sequence := record.sequence
  rejectionReason := record.rejectionReason.code
  eventCount := record.eventCount
  eventDigest := record.eventDigest

/-- `encode_command_record`. -/
def encodeCommandRecord (record : CommandRecord) : CodecResult (List UInt8) :=
  if record.recordVersion ≠ commandLogRecordVersion then
    codecFailure .unsupportedRecordVersion 8
  else if record.sequence = 0 ∨ record.eventCount = 0 ∨ record.outcome.isValid = false then
    codecFailure .invalidCommandSchema 11
  else if outcomeMatches record.outcome record.rejectionReason = false then
    codecFailure .invalidCommandSchema 20
  else
    let commandPayloadSize := payloadSize record.command.commandType
    match checkedAdd commandLogRecordFixedBytes commandPayloadSize with
    | none => codecFailure .invalidLength 4
    | some totalSize =>
      if commandPayloadSize = 0 ∨ totalSize > 2 ^ 32 - 1 then codecFailure .invalidLength 4
      else if totalSize > maxRecordBytes then codecFailure .excessiveLength 0
      else
        let encoded := withChecksum
          (encodeRecordFields (record.fields totalSize commandPayloadSize) ++
            encodeCommandPayload record.command)
        if encoded.length ≠ totalSize then codecFailure .invalidLength encoded.length
        else .ok encoded

/-- The record its fixed fields and its command stand for. -/
def RecordFields.record (fields : RecordFields) (command : Command) : CommandRecord where
  recordVersion := fields.recordVersion
  command := command
  sequence := fields.sequence
  outcome := ⟨fields.outcome⟩
  rejectionReason := ⟨fields.rejectionReason⟩
  eventCount := fields.eventCount
  eventDigest := fields.eventDigest

/-- `decode_command_record`. -/
def decodeCommandRecord (bytes : List UInt8) : CodecResult CommandRecord := do
  let totalLength ← inspectLogRecordLength bytes
  if bytes.length < totalLength then codecFailure .truncatedFinalRecord bytes.length
  else
    let encoded := bytes.take totalLength
    match readRecordLengths ⟨0, encoded.take commandLogRecordLengthPrefixBytes⟩ with
    | .error position => codecFailure .invalidLength position
    | .ok ((decodedTotalLength, decodedPayloadLength), _) =>
      if checkedAdd commandLogRecordFixedBytes decodedPayloadLength.toNat ≠
          some decodedTotalLength.toNat then codecFailure .invalidLength 4
      else if checksumMatches encoded = false then
        codecFailure .badRecordChecksum (encoded.length - 4)
      else
        match readRecordFields ⟨0, encoded⟩ with
        | .error position => codecFailure .invalidLength position
        | .ok (fields, afterFields) =>
          if fields.recordVersion ≠ commandLogRecordVersion then
            codecFailure .unsupportedRecordVersion 8
          else
            match CommandType.ofCode fields.type with
            | none => codecFailure .unknownRecordType 10
            | some type =>
              if payloadSize type ≠ fields.payloadLength.toNat then
                codecFailure .invalidLength 4
              else if RecordOutcome.isValid ⟨fields.outcome⟩ = false then
                codecFailure .invalidCommandSchema 11
              else if fields.sequence = 0 ∨ fields.eventCount = 0 ∨
                  outcomeMatches ⟨fields.outcome⟩ ⟨fields.rejectionReason⟩ = false then
                codecFailure .invalidCommandSchema 11
              else
                match Reader.block fields.payloadLength.toNat afterFields with
                | .error position => codecFailure .invalidLength position
                | .ok (payload, _) => do
                  let command ← decodeCommandPayload type payload.bytes 62
                  pure (fields.record command)

/-- The configuration of the engine a header describes. -/
structure HostConfiguration where
  engineConfig : MultiInstrumentEngineConfig
  catalog : List InstrumentConfig

/-- The configuration of an instrument from its persisted form. -/
def PersistedInstrumentConfig.config (instrument : PersistedInstrumentConfig) :
    InstrumentConfig where
  instrumentId := instrument.instrumentId
  matching := ⟨instrument.maxOrderQuantity, instrument.tickIncrement, instrument.maxActiveOrders⟩

/-- `host_configuration`. Every persisted capacity is a capacity of a 64-bit host. -/
def hostConfiguration (header : LogHeader) : CodecResult HostConfiguration :=
  if persistedCatalogValid header.catalog = false then
    codecFailure .catalogConfigurationMismatch 60
  else
    .ok
      { engineConfig := ⟨header.engineConfig.maxTotalActiveOrders⟩
        catalog := header.catalog.map PersistedInstrumentConfig.config }

end AtlasLob
