import AtlasLob.Core.CommandLogCodec

/-!
# Canonical digests

`canonical_digest.cpp`: every value is written as one canonical byte stream, which is hashed. A
stream starts with a prefix of its kind, every list is preceded by its length, and an optional
value takes its bytes whether it is there or not. The encoder hands the hash each field in turn;
here the fields of a value are one string, which hashes the same.
-/

namespace AtlasLob

open Binary

/-- `CanonicalEncoder::boolean`. -/
def encodeBoolean (value : Bool) : List UInt8 := encodeU8 (if value then 1 else 0)

/-- The number of items in front of a list. -/
def encodeCount {Item : Type} (items : List Item) : List UInt8 :=
  encodeU64 (UInt64.ofNat items.length)

/-- A list behind its length. -/
def encodeCounted {Item : Type} (encode : Item → List UInt8) (items : List Item) : List UInt8 :=
  encodeCount items ++ items.flatMap encode

/-- `encode_order`. -/
def encodeOrder (order : OrderSnapshot) : List UInt8 :=
  encodeU64 order.orderId ++ (encodeU32 order.clientId ++ (encodeU32 order.instrumentId ++
    (encodeU8 order.side.code ++ (encodeI64 order.price ++ (encodeU64 order.remainingQuantity ++
      encodeU64 order.prioritySequence)))))

/-- `encode_level`. -/
def encodeLevel (level : PriceLevelSnapshot) : List UInt8 :=
  encodeI64 level.price ++ (encodeU64 level.aggregateQuantity ++
    encodeCounted encodeOrder level.orders)

/-- The number of the kind of an event. -/
def EventPayload.typeCode : EventPayload → UInt8
  | .accepted .. => 1
  | .rejected .. => 2
  | .trade .. => 3
  | .rested .. => 4
  | .canceled .. => 5
  | .replaced .. => 6
  | .done .. => 7
  | .bookChanged .. => 8

/-- The number of a reason for leaving. -/
def DoneReason.code : DoneReason → UInt8
  | .filled => 1
  | .iocResidualCanceled => 2
  | .marketExhausted => 3
  | .canceled => 4
  | .replaced => 5
  | .fokUnavailable => 6

/-- `encode_header`. -/
def encodeEventHeader (type : UInt8) (header : EventHeader) : List UInt8 :=
  encodeU8 type ++ (encodeU64 header.commandSequence ++ (encodeU32 header.eventIndex ++
    encodeU32 header.instrumentId))

/-- `encode_optional_order_id`. -/
def encodeOptionalOrderId (orderId : Option OrderId) : List UInt8 :=
  encodeBoolean orderId.isSome ++ encodeU64 (orderId.getD 0)

/-- `encode_optional_level`. -/
def encodeOptionalLevel (level : Option TopOfBookLevel) : List UInt8 :=
  encodeBoolean level.isSome ++ (encodeI64 ((level.map TopOfBookLevel.price).getD 0) ++
    encodeU64 ((level.map TopOfBookLevel.aggregateQuantity).getD 0))

/-- The part of `encode_event` after the header. -/
def encodeEventPayload : EventPayload → List UInt8
  | .accepted commandType => encodeU8 commandType.code
  | .rejected commandType reason orderId =>
    encodeU8 commandType.code ++ (encodeU16 reason.code ++ encodeOptionalOrderId orderId)
  | .trade aggressorOrderId restingOrderId aggressorClientId restingClientId aggressorSide
      executionPrice executionQuantity aggressorRemaining restingRemaining =>
    encodeU64 aggressorOrderId ++ (encodeU64 restingOrderId ++ (encodeU32 aggressorClientId ++
      (encodeU32 restingClientId ++ (encodeU8 aggressorSide.code ++ (encodeI64 executionPrice ++
        (encodeU64 executionQuantity ++ (encodeU64 aggressorRemaining ++
          encodeU64 restingRemaining)))))))
  | .rested orderId clientId side price remainingQuantity =>
    encodeU64 orderId ++ (encodeU32 clientId ++ (encodeU8 side.code ++ (encodeI64 price ++
      encodeU64 remainingQuantity)))
  | .canceled orderId canceledQuantity => encodeU64 orderId ++ encodeU64 canceledQuantity
  | .replaced oldOrderId newOrderId => encodeU64 oldOrderId ++ encodeU64 newOrderId
  | .done orderId reason remainingQuantity =>
    encodeU64 orderId ++ (encodeU8 reason.code ++ encodeU64 remainingQuantity)
  | .bookChanged bestBid bestAsk => encodeOptionalLevel bestBid ++ encodeOptionalLevel bestAsk

/-- `encode_event`. -/
def encodeEvent (event : Event) : List UInt8 :=
  encodeEventHeader event.payload.typeCode event.header ++ encodeEventPayload event.payload

/-- The books of one instrument in the stream of an engine. -/
def encodeInstrument (instrument : InstrumentSnapshot) : List UInt8 :=
  encodeU32 instrument.instrumentId ++ (encodeU64 instrument.activeOrderCount ++
    (encodeCounted encodeLevel instrument.bids ++ encodeCounted encodeLevel instrument.asks))

/-- The limits of one instrument in the stream of an engine. A capacity is a word of the host and
of the stream, so that `canonical_capacity` keeps it. -/
def encodeInstrumentConfig (config : InstrumentConfig) : List UInt8 :=
  encodeU32 config.instrumentId ++ (encodeU64 config.matching.maxOrderQuantity ++
    (encodeI64 config.matching.tickIncrement ++ encodeU64 config.matching.maxActiveOrders))

/-- The stream of `state_digest` of an engine, after its prefix `ATLSME01`. -/
def engineStateBody (snapshot : EngineSnapshot) : List UInt8 :=
  encodeU16 snapshot.semanticsVersion ++ (encodeU64 snapshot.engineConfig.maxTotalActiveOrders ++
    (encodeCounted encodeInstrumentConfig snapshot.catalog ++ (encodeU64 snapshot.lastSequence ++
      (encodeBoolean snapshot.sequenceExhausted ++ (encodeU64 snapshot.activeOrderCount ++
        encodeCounted encodeInstrument snapshot.instruments)))))

/-- `multi_engine_state_prefix`: `ATLSME01`. -/
def multiEngineStatePrefix : List UInt8 := [0x41, 0x54, 0x4c, 0x53, 0x4d, 0x45, 0x30, 0x31]

/-- The stream of `state_digest` of an engine. -/
def engineStateBytes (snapshot : EngineSnapshot) : List UInt8 :=
  multiEngineStatePrefix ++ engineStateBody snapshot

/-- `state_digest` of an engine. -/
def stateDigest (snapshot : EngineSnapshot) : Digest256 := sha256 (engineStateBytes snapshot)

/-- `EventBatch::command_sequence`. -/
def EventBatch.commandSequence (batch : EventBatch) : Sequence :=
  (batch.events.head?.map fun event => event.header.commandSequence).getD 0

/-- `EventBatch::instrument_id`. -/
def EventBatch.instrumentId (batch : EventBatch) : InstrumentId :=
  (batch.events.head?.map fun event => event.header.instrumentId).getD 0

/-- `event_prefix`: `ATLSEV01`. -/
def eventPrefix : List UInt8 := [0x41, 0x54, 0x4c, 0x53, 0x45, 0x56, 0x30, 0x31]

/-- The stream of `event_digest`. -/
def eventBytes (batch : EventBatch) : List UInt8 :=
  eventPrefix ++ (encodeU16 atlaslobSemanticsVersion ++ (encodeU64 batch.commandSequence ++
    (encodeU32 batch.instrumentId ++ encodeCounted encodeEvent batch.events)))

/-- `event_digest`. -/
def eventDigest (batch : EventBatch) : Digest256 := sha256 (eventBytes batch)

end AtlasLob
