import AtlasLob.Core.Executor

/-!
# The multi-instrument engine

The engine routes a command to the book of its instrument, keeps one directory of active orders
and one of their priorities over all books, and issues one sequence of commands. A command is
first prepared, which stages everything it needs, and then committed once or abandoned.
-/

namespace AtlasLob

/-- What the directory knows about an active order. -/
structure Identity where
  instrumentId : InstrumentId
  clientId : ClientId
  prioritySequence : Sequence
  deriving DecidableEq, Repr

/-- The active orders of every book. -/
abbrev ActiveOrderDirectory := Std.ExtTreeMap OrderId Identity compare

/-- The order that holds each active priority. -/
abbrev ActivePriorityDirectory := Std.ExtTreeMap Sequence OrderId compare

/-- One instrument of a catalog. -/
structure InstrumentConfig where
  instrumentId : InstrumentId
  matching : MatchingEngineConfig
  deriving DecidableEq, Repr

/-- The limits of the whole engine. -/
structure MultiInstrumentEngineConfig where
  maxTotalActiveOrders : UInt64
  deriving DecidableEq, Repr

/-- Why a command yields no batch. -/
inductive EngineError
  | sequenceExhausted
  | internalFailure
  deriving DecidableEq, Repr

/-- The outcome of a command. -/
inductive EngineResult
  | success (batch : EventBatch)
  | failure (error : EngineError)
  deriving DecidableEq

namespace EngineResult

/-- The batch of an outcome. -/
def batch : EngineResult → Option EventBatch
  | success batch => some batch
  | failure _ => none

end EngineResult

/-- One configured book with its executor. -/
structure BookEntry where
  config : InstrumentConfig
  executor : CommandExecutor

namespace BookEntry

/-- The book of an entry. -/
def book (entry : BookEntry) : InstrumentBook := entry.executor.book

/-- An entry with an empty book. Every instrument has a book of its own, so the instrument tells the
books of an engine apart. -/
def create (config : InstrumentConfig) : Run BookEntry := do
  let book ← InstrumentBook.create config.instrumentId
  let executor ← CommandExecutor.create config.instrumentId.toNat book config.matching
  return ⟨config, executor⟩

end BookEntry

/-- Instruments in ascending order of their IDs. -/
def instrumentBefore (left right : InstrumentId) : Bool := left < right

/-- An order that leaves the directory. -/
structure IdentityRemoval where
  orderId : OrderId
  identity : Identity
  deriving DecidableEq, Repr

/-- A command with everything the engine needs to publish it. -/
structure PreparedMultiInstrumentCommand where
  /-- Whether it holds the lease of the engine. -/
  owned : Bool
  command : Command
  sequence : Sequence
  immediateResult : Option EngineResult
  /-- The prepared command of the book it was routed to. -/
  bookPreparation : Option (InstrumentId × PreparedCommandExecution)
  removals : List IdentityRemoval
  addition : Option (OrderId × Identity)
  priorityAddition : Option (Sequence × OrderId)
  publishesSequence : Bool
  consumed : Bool

namespace PreparedMultiInstrumentCommand

/-- A command that failed before anything was staged. -/
def failed (command : Command) (error : EngineError) : PreparedMultiInstrumentCommand :=
  ⟨false, command, 0, some (.failure error), none, [], none, none, false, false⟩

/-- A refused command. -/
def refused (command : Command) (sequence : Sequence) (batch : EventBatch) :
    PreparedMultiInstrumentCommand :=
  ⟨true, command, sequence, some (.success batch), none, [], none, none, true, false⟩

/-- A command that its book prepared. -/
def staged (command : Command) (sequence : Sequence) (instrument : InstrumentId)
    (prepared : PreparedCommandExecution) (removals : List IdentityRemoval)
    (addition : Option (OrderId × Identity)) (priorityAddition : Option (Sequence × OrderId)) :
    PreparedMultiInstrumentCommand :=
  ⟨true, command, sequence, none, some (instrument, prepared), removals, addition,
    priorityAddition, true, false⟩

/-- The batch of a command that was not consumed. -/
def batch (prepared : PreparedMultiInstrumentCommand) : Option EventBatch :=
  if prepared.consumed then none
  else
    match prepared.immediateResult with
    | some result => result.batch
    | none => prepared.bookPreparation.bind fun staged => staged.2.batch

/-- Why there is no batch; `none` when there is one. -/
def error (prepared : PreparedMultiInstrumentCommand) : Option EngineError :=
  if prepared.consumed then some .internalFailure
  else
    match prepared.immediateResult with
    | some (.failure error) => some error
    | some (.success _) => none
    | none =>
      match prepared.bookPreparation with
      | none => none
      | some (_, staged) =>
        if staged.hasValue then none
        else
          match staged.result with
          | .error (.admissionFailure .sequenceExhausted) => some .sequenceExhausted
          | _ => some .internalFailure

/-- What is left after a commit or an abandonment. -/
def consume (prepared : PreparedMultiInstrumentCommand) : PreparedMultiInstrumentCommand :=
  { prepared with
    owned := false, bookPreparation := none, addition := none, priorityAddition := none,
    consumed := true }

/-- How often an order is removed. -/
def removalCount (prepared : PreparedMultiInstrumentCommand) (orderId : OrderId) : Nat :=
  prepared.removals.countP fun removal => removal.orderId = orderId

end PreparedMultiInstrumentCommand

/-- The engine. -/
structure MultiInstrumentEngine where
  config : MultiInstrumentEngineConfig
  /-- The configured books in ascending order of their instruments. -/
  books : List (InstrumentId × BookEntry)
  activeOrders : ActiveOrderDirectory
  activePriorities : ActivePriorityDirectory
  sequencer : CommandSequencer
  preparationActive : Bool

/-- One resting order of a snapshot. -/
structure OrderSnapshot where
  orderId : OrderId
  clientId : ClientId
  instrumentId : InstrumentId
  side : Side
  price : PriceTicks
  remainingQuantity : Quantity
  prioritySequence : Sequence
  deriving DecidableEq, Repr

/-- One level of a snapshot. -/
structure PriceLevelSnapshot where
  price : PriceTicks
  aggregateQuantity : Quantity
  orders : List OrderSnapshot
  deriving DecidableEq, Repr

/-- One book of a snapshot. -/
structure InstrumentSnapshot where
  instrumentId : InstrumentId
  activeOrderCount : UInt64
  bids : List PriceLevelSnapshot
  asks : List PriceLevelSnapshot
  deriving DecidableEq, Repr

/-- The version of the matching semantics. -/
def atlaslobSemanticsVersion : UInt16 := 6

/-- Everything an engine is made of, without its indexes. -/
structure EngineSnapshot where
  semanticsVersion : UInt16
  engineConfig : MultiInstrumentEngineConfig
  catalog : List InstrumentConfig
  lastSequence : Sequence
  sequenceExhausted : Bool
  activeOrderCount : UInt64
  instruments : List InstrumentSnapshot
  deriving DecidableEq, Repr

/-- The snapshot of a resting order. -/
def snapshotOrder (node : OrderNodeSpec) : OrderSnapshot :=
  ⟨node.orderId, node.clientId, node.instrumentId, node.side, node.price, node.remainingQuantity,
    node.prioritySequence⟩

/-- The snapshot of one side. -/
def snapshotSide (levels : List (PriceLevel × List OrderNodeSpec)) : List PriceLevelSnapshot :=
  levels.map fun level => ⟨level.1.price, level.1.aggregateQuantity, level.2.map snapshotOrder⟩

/-- The snapshot of one book. -/
def snapshotBook (instrument : InstrumentId) (book : InstrumentBook) : InstrumentSnapshot :=
  ⟨instrument, UInt64.ofNat book.activeOrderCount, snapshotSide (book.levels .buy),
    snapshotSide (book.levels .sell)⟩

namespace MultiInstrumentEngine

section Construction

/-- Add one instrument of a catalog, or throw. -/
def addInstrument (books : List (InstrumentId × BookEntry)) (instrument : InstrumentConfig) :
    Run (List (InstrumentId × BookEntry)) := do
  if instrument.instrumentId = 0 then
    .error (.invalidArgument "instrument IDs must be nonzero")
  if !instrument.matching.valid then
    .error (.invalidArgument "instrument configuration is invalid")
  if (SortedMap.find? instrument.instrumentId books).isSome then
    .error (.invalidArgument "instrument IDs must be unique")
  let entry ← BookEntry.create instrument
  return SortedMap.insert instrumentBefore instrument.instrumentId entry books

/-- Add the instruments of a catalog one after another. -/
def addInstruments (books : List (InstrumentId × BookEntry)) :
    List InstrumentConfig → Run (List (InstrumentId × BookEntry))
  | [] => .ok books
  | instrument :: rest => do
    let next ← addInstrument books instrument
    addInstruments next rest

/-- An engine with empty books, or throw. -/
def create (catalog : List InstrumentConfig) (config : MultiInstrumentEngineConfig) :
    Run MultiInstrumentEngine := do
  if catalog.isEmpty then
    .error (.invalidArgument "MultiInstrumentEngine requires a nonempty catalog")
  if 2 ^ 32 - 1 < catalog.length then
    .error (.invalidArgument "instrument catalog is too large")
  let books ← addInstruments [] catalog
  return ⟨config, books, ∅, ∅, .initial, false⟩

end Construction

/-- The book of an instrument. -/
def findBook (engine : MultiInstrumentEngine) (instrument : InstrumentId) : Option BookEntry :=
  SortedMap.find? instrument engine.books

/-- Exchange the executor of an instrument. -/
def setExecutor (engine : MultiInstrumentEngine) (instrument : InstrumentId) (entry : BookEntry)
    (executor : CommandExecutor) : MultiInstrumentEngine :=
  { engine with
    books := SortedMap.set instrument { entry with executor := executor } engine.books }

/-- Whether no sequence is left. -/
def unavailableSequence (engine : MultiInstrumentEngine) : Bool :=
  engine.sequencer.exhausted || engine.sequencer.nextSequence = 0

/-- Issue the reserved sequence. -/
def publishSequence (engine : MultiInstrumentEngine) (expected : Sequence) :
    Run MultiInstrumentEngine :=
  match engine.sequencer.issue with
  | (sequencer, some issued) =>
    if issued = expected then .ok { engine with sequencer := sequencer } else .error .terminate
  | (_, none) => .error .terminate

section Validation

variable (checks : Bool)

/-- Whether a book can take a command. -/
def targetReady (entry : BookEntry) : Run Bool := do
  if !(← entry.book.checkedInvariants checks) then return false
  return !entry.book.hasPendingPreparation

/-- The refusals of a new order by its book's limits and the directory. -/
def validateNew (engine : MultiInstrumentEngine) (order : NewOrder) (entry : BookEntry) :
    ValidationDecision :=
  if entry.config.matching.maxOrderQuantity < order.quantity then
    .reject .quantityOutOfRange order.orderId
  else if order.orderType = .limit && order.limitPrice.any
      (fun price => !isTickAligned price entry.config.matching.tickIncrement) then
    .reject .invalidTick order.orderId
  else if engine.activeOrders.contains order.orderId then .reject .duplicateOrderId order.orderId
  else .accept

/-- The refusals that compare a command with the directory's entry of the order it names. -/
def validateIdentity (engine : MultiInstrumentEngine) (clientId : ClientId)
    (instrumentId : InstrumentId) (orderId : OrderId) : ValidationDecision :=
  match engine.activeOrders[orderId]? with
  | none => .reject .unknownOrderId orderId
  | some identity =>
    if identity.clientId ≠ clientId then .reject .ownershipMismatch orderId
    else if identity.instrumentId ≠ instrumentId then .reject .instrumentMismatch orderId
    else .accept

/-- The refusals of an exchange by its book's limits and the directory. -/
def validateReplace (engine : MultiInstrumentEngine) (order : ReplaceOrder) (entry : BookEntry) :
    ValidationDecision :=
  if entry.config.matching.maxOrderQuantity < order.newQuantity then
    .reject .quantityOutOfRange order.newOrderId
  else if !isTickAligned order.newLimitPrice entry.config.matching.tickIncrement then
    .reject .invalidTick order.newOrderId
  else
    let owner := engine.validateIdentity order.clientId order.instrumentId order.oldOrderId
    if !owner.accepted then owner
    else if engine.activeOrders.contains order.newOrderId then
      .reject .invalidReplacementId order.newOrderId
    else .accept

/-- The shape refusal of a command. -/
def shapeDecision : Command → ValidationDecision
  | .newOrder order => .reject order.validate order.orderId
  | .cancel order => .reject order.validate order.orderId
  | .replace order => .reject order.validate (replacementRelevantId order order.validate)

/-- The order an unknown instrument is reported about. -/
def routedOrderId : Command → OrderId
  | .newOrder order => order.orderId
  | .cancel order => order.orderId
  | .replace order => order.oldOrderId

/-- The refusals of a command by its book's limits and the directory. -/
def validateRouted (engine : MultiInstrumentEngine) (command : Command) (entry : BookEntry) :
    ValidationDecision :=
  match command with
  | .newOrder order => engine.validateNew order entry
  | .cancel order => engine.validateIdentity order.clientId order.instrumentId order.orderId
  | .replace order => engine.validateReplace order entry

/-- Validate a command and find its book. A book that is not ready postpones the refusal. -/
def validate (engine : MultiInstrumentEngine) (command : Command) :
    Run (ValidationDecision × Option BookEntry) := do
  if !(shapeDecision command).accepted then return (shapeDecision command, none)
  match engine.findBook command.instrumentId with
  | none => return (.reject .unknownInstrument (routedOrderId command), none)
  | some entry =>
    if !(← targetReady checks entry) then return (.accept, some entry)
    return (engine.validateRouted command entry, some entry)

/-- Whether a validated command has a book that is ready for it. -/
def validTarget : Option BookEntry → Run Bool
  | none => .ok false
  | some entry => targetReady checks entry

/-- Whether a plan respects the limits of its book and of the engine. -/
def withinCapacities (engine : MultiInstrumentEngine) (plan : MatchPlan) (entry : BookEntry)
    (removesExisting : Bool) : Bool :=
  withinLimit (projectActiveOrderCount plan entry.book.activeOrderCount removesExisting)
      entry.config.matching.maxActiveOrders &&
    withinLimit (projectActiveOrderCount plan engine.activeOrders.size removesExisting)
      engine.config.maxTotalActiveOrders

/-- Whether the directories know a resting order as it is. -/
def identityHolds (engine : MultiInstrumentEngine) (lastSequence : Sequence)
    (instrument : InstrumentId) (node : OrderNodeSpec) : Bool :=
  node.instrumentId = instrument && node.prioritySequence ≠ 0 &&
    node.prioritySequence ≤ lastSequence &&
    engine.activeOrders[node.orderId]? =
      some ⟨instrument, node.clientId, node.prioritySequence⟩ &&
    engine.activePriorities[node.prioritySequence]? = some node.orderId

/-- Whether the directories know the orders of a side. -/
def verifySide (engine : MultiInstrumentEngine) (lastSequence : Sequence)
    (instrument : InstrumentId) (levels : List (PriceLevel × List OrderNodeSpec)) : Bool :=
  levels.all fun level => level.2.all (engine.identityHolds lastSequence instrument)

/-- Check the books one after another and add up their orders; `none` is a failed check. -/
def verifyBooks (engine : MultiInstrumentEngine) (lastSequence : Sequence) :
    Nat → List (InstrumentId × BookEntry) → Run (Option Nat)
  | total, [] => .ok (some total)
  | total, (instrument, entry) :: rest => do
    if entry.config.instrumentId ≠ instrument || !entry.config.matching.valid then return none
    if (← entry.book.validateInvariants) ≠ .none then return none
    if entry.book.hasPendingPreparation && !engine.preparationActive then return none
    if entry.config.matching.maxActiveOrders.toNat < entry.book.activeOrderCount then return none
    if 2 ^ 64 - 1 - total < entry.book.activeOrderCount then return none
    if !engine.verifySide lastSequence instrument (entry.book.levels .buy) ||
        !engine.verifySide lastSequence instrument (entry.book.levels .sell) then return none
    verifyBooks engine lastSequence (total + entry.book.activeOrderCount) rest

/-- Whether a directory entry describes a resting order. -/
def directoryHolds (engine : MultiInstrumentEngine) (entry : OrderId × Identity) : Bool :=
  match (engine.findBook entry.2.instrumentId).bind fun target => target.book.find entry.1 with
  | none => false
  | some node =>
    node.clientId = entry.2.clientId && node.instrumentId = entry.2.instrumentId &&
      node.prioritySequence = entry.2.prioritySequence &&
      engine.activePriorities[entry.2.prioritySequence]? = some entry.1

/-- Whether a priority entry describes a directory entry. -/
def priorityHolds (engine : MultiInstrumentEngine) (entry : Sequence × OrderId) : Bool :=
  entry.1 ≠ 0 &&
    (engine.activeOrders[entry.2]?).any fun identity => identity.prioritySequence = entry.1

/-- The full validation of an engine. -/
def validateInvariants (engine : MultiInstrumentEngine) : Run Bool := do
  if engine.sequencer.exhausted ≠ decide (engine.sequencer.nextSequence = 0) then return false
  match ← engine.verifyBooks (snapshotLastSequence engine.sequencer) 0 engine.books with
  | none => return false
  | some total =>
    if total ≠ engine.activeOrders.size || total ≠ engine.activePriorities.size ||
        engine.config.maxTotalActiveOrders.toNat < total then return false
    return engine.activeOrders.toList.all engine.directoryHolds &&
      engine.activePriorities.toList.all engine.priorityHolds

end Validation

section Preparation

variable (checks : Bool)

/-- The batch of a refusal. -/
def rejectionBatch (sequence : Sequence) (command : Command) (decision : ValidationDecision) :
    Run EventBatch :=
  EventBatch.construct [⟨⟨sequence, 0, command.instrumentId⟩,
    .rejected command.commandType decision.reason decision.relevantOrderId⟩]

/-- The identities of orders that leave; `none` when one is missing. -/
def collectRemovals (engine : MultiInstrumentEngine) :
    List OrderId → Option (List IdentityRemoval)
  | [] => some []
  | orderId :: rest =>
    match engine.activeOrders[orderId]?, collectRemovals engine rest with
    | some identity, some removals => some (⟨orderId, identity⟩ :: removals)
    | _, _ => none

/-- The orders a plan fills. -/
def filledOrders (plan : MatchPlan) : List OrderId :=
  (plan.trades.filter fun trade => trade.restingRemainingAfter = 0).map
    PlannedTrade.restingOrderId

/-- Whether a book refused for its own limits. -/
def isExecutorCapacityRejection (prepared : PreparedCommandExecution) (commandType : CommandType)
    (orderId : OrderId) : Bool :=
  match prepared.batch with
  | none => false
  | some batch =>
    match batch.events with
    | [⟨_, .rejected kind .capacityExceeded refused⟩] =>
      kind = commandType && refused = some orderId
    | _ => false

/-- Let the book of a command prepare it, and drop a preparation that failed. -/
def prepareBook (engine : MultiInstrumentEngine) (entry : BookEntry) (command : Command)
    (sequence : Sequence) : Run (MultiInstrumentEngine × PreparedCommandExecution) := do
  let (executor, prepared) ← entry.executor.prepareAt checks command sequence
  return (engine.setExecutor command.instrumentId entry executor, prepared)

/-- The end of a book's preparation that is not used. -/
def dropPreparation (engine : MultiInstrumentEngine) (instrument : InstrumentId)
    (prepared : PreparedCommandExecution) : Run MultiInstrumentEngine :=
  match engine.findBook instrument with
  | none => .error .dangling
  | some entry => do
    let (executor, _) ← entry.executor.abandon checks prepared
    return engine.setExecutor instrument entry executor

/-- Prepare an aggressor: a new order, or the new order of an exchange. -/
def prepareAggressor (engine : MultiInstrumentEngine) (command : Command) (sequence : Sequence)
    (entry : BookEntry) (order : NewOrder) (clientId : ClientId) (removed : Option OrderId) :
    Run (MultiInstrumentEngine × PreparedMultiInstrumentCommand) := do
  let active := { engine with preparationActive := true }
  match ← planMatches checks order entry.book with
  | .error _ => return (engine, .failed command .internalFailure)
  | .ok plan =>
  if !engine.withinCapacities plan entry removed.isSome then
    let batch ← rejectionBatch sequence command (.reject .capacityExceeded order.orderId)
    return (active, .refused command sequence batch)
  match engine.collectRemovals (removed.toList ++ filledOrders plan) with
  | none => return (engine, .failed command .internalFailure)
  | some removals =>
  let rests : Bool := plan.residualDisposition = .rest
  if rests && Word.atMax64 engine.activeOrders.size then
    return (engine, .failed command .internalFailure)
  let addition := if rests then
    some (order.orderId, (⟨command.instrumentId, clientId, sequence⟩ : Identity)) else none
  let priorityAddition := if rests then some (sequence, order.orderId) else none
  let (next, prepared) ← active.prepareBook checks entry command sequence
  if !prepared.hasValue then
    let dropped ← next.dropPreparation checks command.instrumentId prepared
    return ({ dropped with preparationActive := false }, .failed command .internalFailure)
  if prepared.rejected then
    if !isExecutorCapacityRejection prepared command.commandType order.orderId then
      let dropped ← next.dropPreparation checks command.instrumentId prepared
      return ({ dropped with preparationActive := false }, .failed command .internalFailure)
    return (next, .staged command sequence command.instrumentId prepared [] none none)
  return (next, .staged command sequence command.instrumentId prepared removals addition
    priorityAddition)

/-- Prepare a withdrawal. -/
def prepareWithdrawal (engine : MultiInstrumentEngine) (command : Command) (sequence : Sequence)
    (entry : BookEntry) (orderId : OrderId) :
    Run (MultiInstrumentEngine × PreparedMultiInstrumentCommand) := do
  let active := { engine with preparationActive := true }
  match engine.collectRemovals [orderId] with
  | none => return (engine, .failed command .internalFailure)
  | some removals =>
  let (next, prepared) ← active.prepareBook checks entry command sequence
  if !prepared.hasValue || prepared.rejected then
    let dropped ← next.dropPreparation checks command.instrumentId prepared
    return ({ dropped with preparationActive := false }, .failed command .internalFailure)
  return (next, .staged command sequence command.instrumentId prepared removals none none)

/-- Prepare a validated command. -/
def prepareRouted (engine : MultiInstrumentEngine) (command : Command) (sequence : Sequence)
    (entry : BookEntry) : Run (MultiInstrumentEngine × PreparedMultiInstrumentCommand) :=
  match command with
  | .newOrder order =>
    engine.prepareAggressor checks command sequence entry order order.clientId none
  | .cancel order => engine.prepareWithdrawal checks command sequence entry order.orderId
  | .replace order =>
    match entry.book.find order.oldOrderId with
    | none => .ok (engine, .failed command .internalFailure)
    | some old =>
      engine.prepareAggressor checks command sequence entry
        (CommandExecutor.replacementOf old order) order.clientId (some order.oldOrderId)

/-- Prepare a command. -/
def prepareState (engine : MultiInstrumentEngine) (command : Command) :
    Run (MultiInstrumentEngine × PreparedMultiInstrumentCommand) := do
  if engine.preparationActive then return (engine, .failed command .internalFailure)
  if engine.unavailableSequence then return (engine, .failed command .sequenceExhausted)
  let sequence := engine.sequencer.nextSequence
  let (decision, target) ← engine.validate checks command
  if !(← validTarget checks target) && decision.accepted then
    return (engine, .failed command .internalFailure)
  if !decision.accepted then
    let batch ← rejectionBatch sequence command decision
    return ({ engine with preparationActive := true }, .refused command sequence batch)
  match target with
  | none => return (engine, .failed command .internalFailure)
  | some entry => engine.prepareRouted checks command sequence entry

end Preparation

section Publication

/-- Whether a removal names an active order as the directories know it, once, and not the order
that is added. -/
def removalHolds (engine : MultiInstrumentEngine) (addition : Option (OrderId × Identity)) :
    List IdentityRemoval → List IdentityRemoval → Bool
  | _, [] => true
  | earlier, removal :: rest =>
    removal.orderId ≠ 0 && engine.activeOrders[removal.orderId]? = some removal.identity &&
      engine.activePriorities[removal.identity.prioritySequence]? = some removal.orderId &&
      !(earlier.any fun other => other.orderId = removal.orderId) &&
      !(addition.any fun added => added.1 = removal.orderId) &&
      removalHolds engine addition (earlier ++ [removal]) rest

/-- Whether a filled resting order is removed, once and as the event names it. -/
def tradeRemoved (prepared : PreparedMultiInstrumentCommand) (header : EventHeader)
    (restingOrderId : OrderId) (restingClientId : ClientId) : Bool :=
  prepared.removalCount restingOrderId = 1 &&
    prepared.removals.all fun removal => !(removal.orderId = restingOrderId &&
      (removal.identity.instrumentId ≠ header.instrumentId ||
        removal.identity.clientId ≠ restingClientId))

/-- Whether a rested order is the one that is added and the one the command submits. -/
def restedAdded (prepared : PreparedMultiInstrumentCommand) (header : EventHeader)
    (orderId : OrderId) (clientId : ClientId) : Bool :=
  prepared.addition = some (orderId, ⟨header.instrumentId, clientId, header.commandSequence⟩) &&
    prepared.priorityAddition = some (header.commandSequence, orderId) &&
    match prepared.command with
    | .newOrder order => orderId = order.orderId && clientId = order.clientId &&
        header.instrumentId = order.instrumentId
    | .replace order => orderId = order.newOrderId && clientId = order.clientId &&
        header.instrumentId = order.instrumentId
    | .cancel _ => false

/-- Compare the events with the identities that change and count the rested orders; `none` is a
mismatch. -/
def eventsAgree (prepared : PreparedMultiInstrumentCommand) : Nat → List Event → Option Nat
  | rested, [] => some rested
  | rested, ⟨header, payload⟩ :: rest =>
    match payload with
    | .trade _ restingOrderId _ restingClientId _ _ _ _ restingRemaining =>
      if restingRemaining = 0 && !tradeRemoved prepared header restingOrderId restingClientId then
        none
      else eventsAgree prepared rested rest
    | .rested orderId clientId _ _ _ =>
      if rested + 1 ≠ 1 || !restedAdded prepared header orderId clientId then none
      else eventsAgree prepared (rested + 1) rest
    | _ => eventsAgree prepared rested rest

/-- Whether an event fills an order. -/
def fillsOrder (orderId : OrderId) (event : Event) : Bool :=
  match event.payload with
  | .trade _ restingOrderId _ _ _ _ _ _ restingRemaining =>
    restingRemaining = 0 && restingOrderId = orderId
  | _ => false

/-- Whether a command itself removes an order. -/
def commandRemoves (command : Command) (removal : IdentityRemoval) : Bool :=
  match command with
  | .newOrder _ => false
  | .cancel order => removal.orderId = order.orderId &&
      removal.identity.instrumentId = order.instrumentId &&
      removal.identity.clientId = order.clientId
  | .replace order => removal.orderId = order.oldOrderId &&
      removal.identity.instrumentId = order.instrumentId &&
      removal.identity.clientId = order.clientId

/-- The order a command must remove. -/
def mandatoryRemoval : Command → Option OrderId
  | .newOrder _ => none
  | .cancel order => some order.orderId
  | .replace order => some order.oldOrderId

/-- Whether the identities that change are exactly those the events report. -/
def identityDeltaValid (engine : MultiInstrumentEngine)
    (prepared : PreparedMultiInstrumentCommand) (batch : EventBatch) : Bool :=
  batch.accepted &&
    removalHolds engine prepared.addition [] prepared.removals &&
    match eventsAgree prepared 0 batch.events with
    | none => false
    | some rested =>
      prepared.addition.isNone = decide (rested = 0) &&
        prepared.priorityAddition.isNone = prepared.addition.isNone &&
        !(prepared.addition.any fun added => engine.activeOrders.contains added.1) &&
        !(prepared.addition.isSome && prepared.priorityAddition.any fun added =>
          engine.activePriorities.contains added.1) &&
        prepared.removals.all (fun removal => commandRemoves prepared.command removal ||
          batch.events.any (fillsOrder removal.orderId)) &&
        (mandatoryRemoval prepared.command).all fun orderId => prepared.removalCount orderId = 1

/-- Add an identity to the directories, or terminate. -/
def addIdentity (engine : MultiInstrumentEngine) (addition : Option (OrderId × Identity))
    (priorityAddition : Option (Sequence × OrderId)) : Run MultiInstrumentEngine :=
  match addition, priorityAddition with
  | none, none => .ok engine
  | some (orderId, identity), some (sequence, holder) =>
    if engine.activeOrders.contains orderId || engine.activePriorities.contains sequence then
      .error .terminate
    else .ok { engine with
      activeOrders := engine.activeOrders.insert orderId identity,
      activePriorities := engine.activePriorities.insert sequence holder }
  | _, _ => .error .terminate

/-- Remove identities from the directories, or terminate. -/
def removeIdentities (engine : MultiInstrumentEngine) :
    List IdentityRemoval → Run MultiInstrumentEngine
  | [] => .ok engine
  | removal :: rest =>
    if !engine.activeOrders.contains removal.orderId ||
        engine.activePriorities[removal.identity.prioritySequence]? ≠ some removal.orderId then
      .error .terminate
    else removeIdentities { engine with
      activeOrders := engine.activeOrders.erase removal.orderId,
      activePriorities := engine.activePriorities.erase removal.identity.prioritySequence } rest

variable (checks : Bool)

/-- Give the lease of the engine back, and whether the engine is valid then. -/
def releaseOwner (engine : MultiInstrumentEngine) (prepared : PreparedMultiInstrumentCommand) :
    Run (MultiInstrumentEngine × Bool) :=
  if !prepared.owned then .ok (engine, true)
  else if !engine.preparationActive then .error .terminate
  else do
    let released := { engine with preparationActive := false }
    if checks then return (released, ← released.validateInvariants)
    return (released, true)

/-- Commit what the book prepared. -/
def commitBook (engine : MultiInstrumentEngine) (instrument : InstrumentId)
    (prepared : PreparedCommandExecution) :
    Run (MultiInstrumentEngine × CommandExecutionResult) :=
  match engine.findBook instrument with
  | none => .error .dangling
  | some entry => do
    let (executor, _, result) ← entry.executor.commit checks prepared
    return (engine.setExecutor instrument entry executor, result)

/-- The last steps of every publication. -/
def publish (engine : MultiInstrumentEngine) (prepared : PreparedMultiInstrumentCommand)
    (batch : EventBatch) :
    Run (MultiInstrumentEngine × PreparedMultiInstrumentCommand × EngineResult) := do
  let published ← engine.publishSequence prepared.sequence
  let (released, valid) ← published.releaseOwner checks prepared
  if !valid then .error .terminate
  return (released, prepared.consume, .success batch)

/-- Publish a command that its book prepared. -/
def commitStaged (engine : MultiInstrumentEngine) (prepared : PreparedMultiInstrumentCommand)
    (instrument : InstrumentId) (staged : PreparedCommandExecution) (batch : EventBatch) :
    Run (MultiInstrumentEngine × PreparedMultiInstrumentCommand × EngineResult) := do
  if !prepared.publishesSequence then .error .terminate
  if batch.rejected then
    if !prepared.removals.isEmpty || prepared.addition.isSome ||
        prepared.priorityAddition.isSome then .error .terminate
    match ← engine.commitBook checks instrument staged with
    | (_, .error _) => .error .terminate
    | (settled, .ok published) =>
      if !published.rejected then .error .terminate
      settled.publish checks prepared published
  else
    if !engine.identityDeltaValid prepared batch then .error .terminate
    let added ← engine.addIdentity prepared.addition prepared.priorityAddition
    let removed ← added.removeIdentities prepared.removals
    match ← removed.commitBook checks instrument staged with
    | (_, .error _) => .error .terminate
    | (settled, .ok published) =>
      if published.rejected then .error .terminate
      settled.publish checks prepared published

/-- Publish a prepared command once. -/
def commit (engine : MultiInstrumentEngine) (prepared : PreparedMultiInstrumentCommand) :
    Run (MultiInstrumentEngine × PreparedMultiInstrumentCommand × EngineResult) :=
  if prepared.consumed then .ok (engine, prepared, .failure .internalFailure)
  else if !prepared.owned then
    .ok (engine, prepared.consume, prepared.immediateResult.getD (.failure .internalFailure))
  else
    match prepared.immediateResult with
    | some (.failure _) => .error .terminate
    | some (.success batch) =>
      if !prepared.publishesSequence then .error .terminate
      else engine.publish checks prepared batch
    | none =>
      match prepared.bookPreparation with
      | none => .error .terminate
      | some (instrument, staged) =>
        match staged.batch with
        | none => .error .terminate
        | some batch => engine.commitStaged checks prepared instrument staged batch

/-- Drop a prepared command. -/
def abandon (engine : MultiInstrumentEngine) (prepared : PreparedMultiInstrumentCommand) :
    Run (MultiInstrumentEngine × PreparedMultiInstrumentCommand) := do
  if prepared.consumed then return (engine, prepared)
  let dropped ← match prepared.bookPreparation with
    | none => pure engine
    | some (instrument, staged) => engine.dropPreparation checks instrument staged
  let (released, _) ← dropped.releaseOwner checks prepared
  return (released, prepared.consume)

/-- Execute a command: prepare it and publish it. -/
def execute (engine : MultiInstrumentEngine) (command : Command) :
    Run (MultiInstrumentEngine × EngineResult) := do
  let (next, prepared) ← engine.prepareState checks command
  let (settled, _, result) ← next.commit checks prepared
  return (settled, result)

/-- Execute commands one after another. -/
def run (engine : MultiInstrumentEngine) :
    List Command → Run (MultiInstrumentEngine × List EngineResult)
  | [] => .ok (engine, [])
  | command :: rest => do
    let (next, result) ← engine.execute checks command
    let (last, results) ← run next rest
    return (last, result :: results)

end Publication

/-- The snapshot of the whole engine; an invalid engine terminates. -/
def snapshot (engine : MultiInstrumentEngine) : Run EngineSnapshot := do
  if !(← engine.validateInvariants) then .error .terminate
  return ⟨atlaslobSemanticsVersion, engine.config, engine.books.map fun entry => entry.2.config,
    snapshotLastSequence engine.sequencer, engine.sequencer.exhausted,
    UInt64.ofNat engine.activeOrders.size,
    engine.books.map fun entry => snapshotBook entry.1 entry.2.book⟩

end MultiInstrumentEngine

end AtlasLob
