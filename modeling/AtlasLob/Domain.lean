import AtlasLob.Library.Word

/-!
# The domain vocabulary

Identifiers, commands and events of the matching engine, with the shape validation that looks
at a command alone. Enumerations that arrive from outside keep their raw byte, because a
command may carry a value outside the enumeration; enumerations the engine only produces are
inductive types.
-/

namespace AtlasLob

/-- A client-chosen order identifier; zero is never valid. -/
abbrev OrderId := UInt64

/-- The owner of an order; zero is never valid. -/
abbrev ClientId := UInt32

/-- The instrument a command is routed to; zero is never valid. -/
abbrev InstrumentId := UInt32

/-- A position in the engine-wide command order; zero means unassigned. -/
abbrev Sequence := UInt64

/-- A signed price in ticks. -/
abbrev PriceTicks := Int64

/-- An order quantity. -/
abbrev Quantity := UInt64

/-- The raw byte of a side. -/
structure Side where
  /-- The submitted byte. -/
  code : UInt8
  deriving DecidableEq, Repr

namespace Side

/-- Bids. -/
def buy : Side := ⟨1⟩

/-- Asks. -/
def sell : Side := ⟨2⟩

/-- Only the two named sides are valid. -/
def isValid (side : Side) : Bool := side = buy || side = sell

/-- The side an aggressor matches against. -/
def opposite (side : Side) : Side := if side = buy then sell else buy

end Side

/-- The raw byte of an order type. -/
structure OrderType where
  /-- The submitted byte. -/
  code : UInt8
  deriving DecidableEq, Repr

namespace OrderType

/-- An order with a limit price. -/
def limit : OrderType := ⟨1⟩

/-- An order that takes any price. -/
def market : OrderType := ⟨2⟩

/-- Only the two named types are valid. -/
def isValid (type : OrderType) : Bool := type = limit || type = market

end OrderType

/-- The raw byte of a time in force. -/
structure TimeInForce where
  /-- The submitted byte. -/
  code : UInt8
  deriving DecidableEq, Repr

namespace TimeInForce

/-- Rest what does not match. -/
def gtc : TimeInForce := ⟨1⟩

/-- Cancel what does not match. -/
def ioc : TimeInForce := ⟨2⟩

/-- All or nothing; named by the vocabulary and refused by validation. -/
def fok : TimeInForce := ⟨3⟩

/-- Only the three named values are valid. -/
def isValid (force : TimeInForce) : Bool := force = gtc || force = ioc || force = fok

end TimeInForce

/-- The kind of a command. -/
inductive CommandType
  /-- Submit an order. -/
  | newOrder
  /-- Withdraw an order. -/
  | cancel
  /-- Exchange an order for another. -/
  | replace
  deriving DecidableEq, Repr

/-- Why an order left the engine. -/
inductive DoneReason
  | filled
  | iocResidualCanceled
  | marketExhausted
  | canceled
  | replaced
  | fokUnavailable
  deriving DecidableEq, Repr

/-- Why a command was refused; `none` stands for acceptance. -/
inductive RejectReason
  | none
  | invalidOrderId
  | invalidInstrumentId
  | invalidQuantity
  | invalidSide
  | invalidOrderType
  | invalidTimeInForce
  | missingLimitPrice
  | unexpectedLimitPrice
  | invalidPrice
  | invalidOrderTypeTimeInForce
  | unsupportedTimeInForce
  | invalidClientId
  | unknownInstrument
  | quantityOutOfRange
  | invalidTick
  | duplicateOrderId
  | unknownOrderId
  | invalidReplacementId
  | ownershipMismatch
  | instrumentMismatch
  | capacityExceeded
  deriving DecidableEq, Repr

/-- A new order. -/
structure NewOrder where
  clientId : ClientId
  orderId : OrderId
  instrumentId : InstrumentId
  side : Side
  orderType : OrderType
  timeInForce : TimeInForce
  /-- Present for limit orders only. -/
  limitPrice : Option PriceTicks
  quantity : Quantity
  deriving DecidableEq, Repr

/-- A withdrawal. -/
structure CancelOrder where
  clientId : ClientId
  orderId : OrderId
  instrumentId : InstrumentId
  deriving DecidableEq, Repr

/-- An exchange of one resting order for a new limit order. -/
structure ReplaceOrder where
  clientId : ClientId
  oldOrderId : OrderId
  newOrderId : OrderId
  instrumentId : InstrumentId
  newLimitPrice : PriceTicks
  newQuantity : Quantity
  deriving DecidableEq, Repr

/-- Everything a client can submit. -/
inductive Command
  /-- Submit an order. -/
  | newOrder (order : NewOrder)
  /-- Withdraw an order. -/
  | cancel (order : CancelOrder)
  /-- Exchange an order. -/
  | replace (order : ReplaceOrder)
  deriving DecidableEq, Repr

namespace Command

/-- The kind of a command. -/
def commandType : Command → CommandType
  | newOrder _ => .newOrder
  | cancel _ => .cancel
  | replace _ => .replace

/-- The instrument a command names. -/
def instrumentId : Command → InstrumentId
  | newOrder order => order.instrumentId
  | cancel order => order.instrumentId
  | replace order => order.instrumentId

end Command

/-- The part every event carries. -/
structure EventHeader where
  /-- The command that produced the event. -/
  commandSequence : Sequence
  /-- The position within the batch. -/
  eventIndex : UInt32
  /-- The instrument the command named. -/
  instrumentId : InstrumentId
  deriving DecidableEq, Repr

/-- The best level of one side. -/
structure TopOfBookLevel where
  price : PriceTicks
  aggregateQuantity : Quantity
  deriving DecidableEq, Repr

/-- The part of an event that depends on its kind. -/
inductive EventPayload
  | accepted (commandType : CommandType)
  | rejected (commandType : CommandType) (reason : RejectReason) (orderId : Option OrderId)
  | trade (aggressorOrderId restingOrderId : OrderId) (aggressorClientId restingClientId : ClientId)
      (aggressorSide : Side) (executionPrice : PriceTicks)
      (executionQuantity aggressorRemaining restingRemaining : Quantity)
  | rested (orderId : OrderId) (clientId : ClientId) (side : Side) (price : PriceTicks)
      (remainingQuantity : Quantity)
  | canceled (orderId : OrderId) (canceledQuantity : Quantity)
  | replaced (oldOrderId newOrderId : OrderId)
  | done (orderId : OrderId) (reason : DoneReason) (remainingQuantity : Quantity)
  | bookChanged (bestBid bestAsk : Option TopOfBookLevel)
  deriving DecidableEq, Repr

namespace EventPayload

/-- Whether a payload reports a refusal. -/
def isRejected : EventPayload → Bool
  | rejected .. => true
  | _ => false

/-- Whether a payload reports an acceptance. -/
def isAccepted : EventPayload → Bool
  | accepted _ => true
  | _ => false

end EventPayload

/-- One event. -/
structure Event where
  header : EventHeader
  payload : EventPayload
  deriving DecidableEq, Repr

/-- What stops a run: a call of `std::terminate`, a thrown exception or an endless loop. -/
inductive Halt
  /-- `std::terminate`. -/
  | terminate
  /-- `std::invalid_argument` with its message. -/
  | invalidArgument (message : String)
  /-- `std::length_error` with its message. -/
  | lengthError (message : String)
  /-- A loop over links that never ends. -/
  | divergence
  /-- A dereferenced pointer to no object. -/
  | dangling
  deriving DecidableEq, Repr

/-- The outcome of code that may halt. -/
abbrev Run := Except Halt

/-- Halt unless a condition holds. -/
def Run.require (condition : Bool) (halt : Halt) : Run Unit :=
  if condition then .ok () else .error halt

@[simp] theorem Run.require_true (halt : Halt) : Run.require true halt = .ok () := rfl

@[simp] theorem Run.pure_eq {α : Type} (value : α) : (pure value : Run α) = .ok value := rfl

@[simp] theorem Run.ok_bind {α β : Type} (value : α) (next : α → Run β) :
    (Except.ok value >>= next) = next value := rfl

@[simp] theorem Run.error_bind {α β : Type} (halt : Halt) (next : α → Run β) :
    (Except.error halt >>= next) = .error halt := rfl

/-- A sequence of actions succeeds exactly when each of them does. -/
theorem Run.bind_eq_ok {α β : Type} {action : Run α} {next : α → Run β} {result : β} :
    (action >>= next) = .ok result ↔ ∃ value, action = .ok value ∧ next value = .ok result := by
  cases action with
  | error halt => simp
  | ok value => simp

namespace EventBatch

/-- The headers of a batch agree with its first one and count up from zero. -/
def headersMatch (sequence : Sequence) (instrument : InstrumentId) :
    Nat → List Event → Except String Unit
  | _, [] => .ok ()
  | index, event :: rest =>
    if event.header.commandSequence ≠ sequence then
      .error "event batch command sequences must match"
    else if event.header.instrumentId ≠ instrument then
      .error "event batch instrument IDs must match"
    else if event.header.eventIndex.toNat ≠ index then
      .error "event batch indices must be contiguous from zero"
    else headersMatch sequence instrument (index + 1) rest

/-- The construction check of a batch, with the message of the exception it throws. -/
def validate : List Event → Except String Unit
  | [] => .error "event batch must contain at least one event"
  | first :: rest =>
    if first.header.commandSequence = 0 then
      .error "event batch command sequence must be nonzero"
    else if first.header.instrumentId = 0 ∧ (rest ≠ [] ∨ first.payload.isRejected = false) then
      .error "zero-instrument event batch must contain exactly one rejection"
    else headersMatch first.header.commandSequence first.header.instrumentId 0 (first :: rest)

end EventBatch

/-- A nonempty run of events of one command that passed the construction check. -/
structure EventBatch where
  /-- The events in order. -/
  events : List Event
  /-- The construction check passed. -/
  valid : EventBatch.validate events = .ok ()
  deriving DecidableEq

namespace EventBatch

/-- Construct a batch or throw. -/
def construct (events : List Event) : Run EventBatch :=
  match checked : validate events with
  | .error message => .error (.invalidArgument message)
  | .ok () => .ok ⟨events, checked⟩

/-- Batches with the same events are the same batch. -/
theorem ext_events {left right : EventBatch} (same : left.events = right.events) :
    left = right := by
  cases left
  cases right
  simp only at same
  subst same
  rfl

/-- A list that passes the check is constructed unchanged. -/
theorem construct_of_valid {events : List Event} (valid : validate events = .ok ()) :
    construct events = .ok ⟨events, valid⟩ := by
  unfold construct
  split
  · next message failed =>
    rw [valid] at failed
    cases failed
  · rfl

/-- Whether the batch reports a refusal. -/
def rejected (batch : EventBatch) : Bool :=
  match batch.events with
  | [] => false
  | first :: _ => first.payload.isRejected

/-- Whether the batch reports an acceptance. -/
def accepted (batch : EventBatch) : Bool :=
  match batch.events with
  | [] => false
  | first :: _ => first.payload.isAccepted

end EventBatch

/-- Give payloads the headers of their positions, counting from a first index. -/
def numberEvents (sequence : Sequence) (instrument : InstrumentId) :
    Nat → List EventPayload → List Event
  | _, [] => []
  | index, payload :: rest =>
    ⟨⟨sequence, UInt32.ofNat index, instrument⟩, payload⟩ ::
      numberEvents sequence instrument (index + 1) rest

@[simp] theorem numberEvents_length (sequence : Sequence) (instrument : InstrumentId) (index : Nat)
    (payloads : List EventPayload) :
    (numberEvents sequence instrument index payloads).length = payloads.length := by
  induction payloads generalizing index with
  | nil => rfl
  | cons payload rest ih => simp [numberEvents, ih]

/-- Numbering a concatenation numbers the second part from where the first one ends. -/
theorem numberEvents_append (sequence : Sequence) (instrument : InstrumentId) (index : Nat)
    (front back : List EventPayload) :
    numberEvents sequence instrument index (front ++ back) =
      numberEvents sequence instrument index front ++
        numberEvents sequence instrument (index + front.length) back := by
  induction front generalizing index with
  | nil => simp [numberEvents]
  | cons payload rest ih =>
    simp only [List.cons_append, numberEvents, ih, List.length_cons]
    rw [show index + 1 + rest.length = index + (rest.length + 1) by omega]

/-- Numbering keeps the payloads. -/
@[simp] theorem numberEvents_payloads (sequence : Sequence) (instrument : InstrumentId)
    (index : Nat) (payloads : List EventPayload) :
    (numberEvents sequence instrument index payloads).map Event.payload = payloads := by
  induction payloads generalizing index with
  | nil => rfl
  | cons payload rest ih => simp [numberEvents, ih]

/-- Numbered events pass the header check as long as their positions fit their index. -/
theorem numberEvents_headersMatch (sequence : Sequence) (instrument : InstrumentId) (index : Nat)
    (payloads : List EventPayload) (fits : index + payloads.length ≤ 2 ^ 32) :
    EventBatch.headersMatch sequence instrument index
      (numberEvents sequence instrument index payloads) = .ok () := by
  induction payloads generalizing index with
  | nil => rfl
  | cons payload rest ih =>
    simp only [List.length_cons] at fits
    have reading : (UInt32.ofNat index).toNat = index :=
      UInt32.toNat_ofNat_of_lt' (by simp [UInt32.size]; omega)
    simp only [numberEvents, EventBatch.headersMatch, ne_eq, not_true_eq_false, ↓reduceIte,
      reading]
    exact ih (index + 1) (by omega)

/-- A numbered, nonempty run of events is a batch unless a zero instrument accepts. -/
theorem numberEvents_valid {sequence : Sequence} {instrument : InstrumentId}
    {first : EventPayload} {rest : List EventPayload} (nonzero : sequence ≠ 0)
    (routed : instrument ≠ 0 ∨ (rest = [] ∧ first.isRejected = true))
    (fits : rest.length + 1 ≤ 2 ^ 32) :
    EventBatch.validate (numberEvents sequence instrument 0 (first :: rest)) = .ok () := by
  have headers := numberEvents_headersMatch sequence instrument 0 (first :: rest)
    (by simpa using fits)
  have tail : numberEvents sequence instrument 1 rest ≠ [] → rest ≠ [] := by
    intro present empty
    exact present (by rw [empty]; rfl)
  rw [numberEvents] at headers ⊢
  simp only [EventBatch.validate, nonzero, ↓reduceIte]
  rw [if_neg]
  · exact headers
  · rintro ⟨zero, others | accepted⟩
    · rcases routed with route | ⟨empty, -⟩
      · exact route zero
      · exact tail others empty
    · rcases routed with route | ⟨-, refused⟩
      · exact route zero
      · rw [refused] at accepted
        cases accepted

/-- Shape validation of a new order. -/
def NewOrder.validate (order : NewOrder) : RejectReason :=
  if order.clientId = 0 then .invalidClientId
  else if order.orderId = 0 then .invalidOrderId
  else if order.instrumentId = 0 then .invalidInstrumentId
  else if order.quantity = 0 then .invalidQuantity
  else if !order.side.isValid then .invalidSide
  else if !order.orderType.isValid then .invalidOrderType
  else if !order.timeInForce.isValid then .invalidTimeInForce
  else if order.timeInForce = .fok then .unsupportedTimeInForce
  else if order.orderType = .limit then
    match order.limitPrice with
    | Option.none => .missingLimitPrice
    | some price => if price ≤ 0 then .invalidPrice else .none
  else if order.orderType = .market then
    if order.limitPrice.isSome then .unexpectedLimitPrice
    else if order.timeInForce ≠ .ioc then .invalidOrderTypeTimeInForce
    else .none
  else .invalidOrderType

/-- Shape validation of a withdrawal. -/
def CancelOrder.validate (order : CancelOrder) : RejectReason :=
  if order.clientId = 0 then .invalidClientId
  else if order.orderId = 0 then .invalidOrderId
  else if order.instrumentId = 0 then .invalidInstrumentId
  else .none

/-- Shape validation of an exchange. -/
def ReplaceOrder.validate (order : ReplaceOrder) : RejectReason :=
  if order.clientId = 0 then .invalidClientId
  else if order.oldOrderId = 0 then .invalidOrderId
  else if order.newOrderId = 0 then .invalidOrderId
  else if order.oldOrderId = order.newOrderId then .invalidReplacementId
  else if order.instrumentId = 0 then .invalidInstrumentId
  else if order.newQuantity = 0 then .invalidQuantity
  else if order.newLimitPrice ≤ 0 then .invalidPrice
  else .none

/-- What an accepted new order guarantees about its fields. -/
structure NewOrder.WellFormed (order : NewOrder) : Prop where
  client : order.clientId ≠ 0
  id : order.orderId ≠ 0
  instrument : order.instrumentId ≠ 0
  quantity : order.quantity ≠ 0
  side : order.side = .buy ∨ order.side = .sell
  /-- A limit order has a positive price; a market order has none and does not rest. -/
  terms : (∃ price, order.orderType = .limit ∧ order.limitPrice = some price ∧ 0 < price ∧
      (order.timeInForce = .gtc ∨ order.timeInForce = .ioc)) ∨
    (order.orderType = .market ∧ order.limitPrice = Option.none ∧ order.timeInForce = .ioc)

/-- A check passes exactly when its condition fails and the later checks pass. -/
theorem RejectReason.refuse_iff {condition : Prop} [Decidable condition]
    {reason later : RejectReason} (concrete : reason ≠ .none) :
    (if condition then reason else later) = .none ↔ ¬ condition ∧ later = .none := by
  by_cases holds : condition
  · simp [holds, concrete]
  · simp [holds]

/-- Shape validation accepts exactly the well-formed orders. -/
theorem NewOrder.validate_eq_none_iff {order : NewOrder} :
    order.validate = .none ↔ order.WellFormed := by
  rw [NewOrder.validate]
  simp only [RejectReason.refuse_iff, ne_eq, reduceCtorEq, not_false_eq_true]
  constructor
  · rintro ⟨client, id, instrument, quantity, side, type, force, fok, terms⟩
    simp only [Side.isValid, Bool.not_eq_eq_eq_not, Bool.not_true, Bool.not_eq_false,
      Bool.or_eq_true, decide_eq_true_eq] at side
    simp only [TimeInForce.isValid, Bool.not_eq_eq_eq_not, Bool.not_true, Bool.not_eq_false,
      Bool.or_eq_true, decide_eq_true_eq, fok, or_false] at force
    refine ⟨client, id, instrument, quantity, side, ?_⟩
    by_cases limit : order.orderType = .limit
    · rw [if_pos limit] at terms
      cases given : order.limitPrice with
      | none => simp [given] at terms
      | some price =>
        rw [given] at terms
        simp only [RejectReason.refuse_iff, ne_eq, reduceCtorEq, not_false_eq_true, and_true]
          at terms
        exact Or.inl ⟨price, limit, rfl, by grind, force⟩
    · rw [if_neg limit] at terms
      by_cases market : order.orderType = .market
      · rw [if_pos market] at terms
        simp only [RejectReason.refuse_iff, reduceCtorEq, not_false_eq_true, and_true,
          Option.not_isSome_iff_eq_none, Decidable.not_not, ne_eq] at terms
        exact Or.inr ⟨market, terms⟩
      · simp [market] at terms
  · rintro ⟨client, id, instrument, quantity, side, terms⟩
    have validSide : order.side.isValid = true := by
      simpa [Side.isValid] using side
    refine ⟨client, id, instrument, quantity, by simp [validSide], ?_⟩
    rcases terms with ⟨price, limit, given, positive, force⟩ | ⟨market, absent, force⟩
    · have above : ¬ price ≤ 0 := by grind
      rw [limit, given]
      rcases force with gtc | ioc
      · rw [gtc]
        exact ⟨by decide, by decide, by decide, by simp [above]⟩
      · rw [ioc]
        exact ⟨by decide, by decide, by decide, by simp [above]⟩
    · rw [market, absent, force]
      decide

/-- What an accepted withdrawal guarantees about its fields. -/
structure CancelOrder.WellFormed (order : CancelOrder) : Prop where
  client : order.clientId ≠ 0
  id : order.orderId ≠ 0
  instrument : order.instrumentId ≠ 0

/-- Shape validation accepts exactly the well-formed withdrawals. -/
theorem CancelOrder.validate_eq_none_iff {order : CancelOrder} :
    order.validate = .none ↔ order.WellFormed := by
  constructor
  · intro accepted
    unfold CancelOrder.validate at accepted
    split_ifs at accepted with client id instrument
    exact ⟨client, id, instrument⟩
  · rintro ⟨client, id, instrument⟩
    simp [CancelOrder.validate, client, id, instrument]

/-- What an accepted exchange guarantees about its fields. -/
structure ReplaceOrder.WellFormed (order : ReplaceOrder) : Prop where
  client : order.clientId ≠ 0
  oldId : order.oldOrderId ≠ 0
  newId : order.newOrderId ≠ 0
  distinct : order.oldOrderId ≠ order.newOrderId
  instrument : order.instrumentId ≠ 0
  quantity : order.newQuantity ≠ 0
  price : 0 < order.newLimitPrice

/-- Shape validation accepts exactly the well-formed exchanges. -/
theorem ReplaceOrder.validate_eq_none_iff {order : ReplaceOrder} :
    order.validate = .none ↔ order.WellFormed := by
  constructor
  · intro accepted
    unfold ReplaceOrder.validate at accepted
    split_ifs at accepted with client oldId newId distinct instrument quantity price
    exact ⟨client, oldId, newId, distinct, instrument, quantity, by grind⟩
  · rintro ⟨client, oldId, newId, distinct, instrument, quantity, price⟩
    have above : ¬ order.newLimitPrice ≤ 0 := by grind
    rw [ReplaceOrder.validate, if_neg client, if_neg oldId, if_neg newId, if_neg distinct,
      if_neg instrument, if_neg quantity, if_neg above]

end AtlasLob
