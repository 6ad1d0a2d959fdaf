import AtlasLob.Spec.Market

/-!
# Following the events

What a consumer of the event stream does with its own copy of the books: a trade takes the traded
quantity from the resting order, a cancellation removes its order, a rested order goes behind
everything at its price with the sequence of its command, and every other event is only read.
-/

namespace AtlasLob

open PriceLevel

/-- Remove the order of an ID. -/
def dropOrder (orderId : OrderId) (order : OrderNodeSpec) : Option OrderNodeSpec :=
  if order.orderId = orderId then none else some order

/-- What one payload does to the followed book of its instrument. -/
def Ladder.follow (instrument : InstrumentId) (sequence : Sequence) (ladder : Ladder) :
    EventPayload → Ladder
  | .trade _ restingOrderId _ _ _ _ executed _ _ => ladder.revise (reduceBy restingOrderId executed)
  | .canceled orderId _ => ladder.revise (dropOrder orderId)
  | .rested orderId clientId side price remaining =>
    ladder.join ⟨orderId, clientId, instrument, side, price, remaining, sequence⟩
  | _ => ladder

/-- The followed books of every instrument. -/
abbrev Books := List (InstrumentId × Ladder)

/-- What one event does to the followed books. -/
def Books.follow (books : Books) (event : Event) : Books :=
  books.map fun entry =>
    if entry.1 = event.header.instrumentId then
      (entry.1, entry.2.follow entry.1 event.header.commandSequence event.payload)
    else entry

/-- An order of a snapshot. -/
def OrderSnapshot.order (order : OrderSnapshot) : OrderNodeSpec :=
  ⟨order.orderId, order.clientId, order.instrumentId, order.side, order.price,
    order.remainingQuantity, order.prioritySequence⟩

/-- A side of a snapshot. -/
def levelsOf (levels : List PriceLevelSnapshot) : Levels :=
  levels.map fun level => (level.price, level.orders.map OrderSnapshot.order)

/-- The books of a snapshot. -/
def EngineSnapshot.books (image : EngineSnapshot) : Books :=
  image.instruments.map fun book => (book.instrumentId, ⟨levelsOf book.bids, levelsOf book.asks⟩)

/-- The ID and the quantity a command submits. -/
def Command.submission : Command → Option (OrderId × Quantity)
  | .newOrder order => some (order.orderId, order.quantity)
  | .cancel _ => none
  | .replace order => some (order.newOrderId, order.newQuantity)

/-- The quantity that one payload reports as executed by an aggressor. -/
def EventPayload.executedBy (orderId : OrderId) : EventPayload → Nat
  | .trade aggressorOrderId _ _ _ _ _ executed _ _ =>
    if aggressorOrderId = orderId then executed.toNat else 0
  | _ => 0

/-- The quantity that one payload reports as rested or discarded of an order. -/
def EventPayload.residualOf (orderId : OrderId) : EventPayload → Nat
  | .rested restedId _ _ _ remaining => if restedId = orderId then remaining.toNat else 0
  | .done doneId _ remaining => if doneId = orderId then remaining.toNat else 0
  | _ => 0

/-- What events report as executed by an aggressor. -/
def executedBy (orderId : OrderId) (events : List Event) : Nat :=
  (events.map fun event => event.payload.executedBy orderId).sum

/-- What events report as rested or discarded of an order. -/
def residualOf (orderId : OrderId) (events : List Event) : Nat :=
  (events.map fun event => event.payload.residualOf orderId).sum

/-- The events of a result, none for a failure. -/
def EngineResult.events : EngineResult → List Event
  | success batch => batch.events
  | failure _ => []

end AtlasLob
