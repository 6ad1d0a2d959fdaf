import AtlasLob.Core.MatchPlan

/-!
# Executing a command against one book

An executor admits a command, plans it, projects its consequences, stages the residual and
builds the complete event batch before it touches the visible book. The prepared command is
then committed once or abandoned.
-/

namespace AtlasLob

/-- The command counter; an exhausted counter has no next sequence. -/
structure CommandSequencer where
  nextSequence : Sequence
  exhausted : Bool
  deriving DecidableEq, Repr

namespace CommandSequencer

/-- The counter before the first command. -/
def initial : CommandSequencer := ⟨1, false⟩

/-- Issue the next sequence, if there is one. -/
def issue (sequencer : CommandSequencer) : CommandSequencer × Option Sequence :=
  if sequencer.exhausted then (sequencer, none)
  else if sequencer.nextSequence = Word.max64 then (⟨0, true⟩, some sequencer.nextSequence)
  else (⟨sequencer.nextSequence + 1, false⟩, some sequencer.nextSequence)

end CommandSequencer

/-- The last published sequence. -/
def snapshotLastSequence (sequencer : CommandSequencer) : Sequence :=
  if sequencer.exhausted then Word.max64 else sequencer.nextSequence - 1

/-- The limits of one instrument. -/
structure MatchingEngineConfig where
  maxOrderQuantity : Quantity
  tickIncrement : PriceTicks
  maxActiveOrders : UInt64
  deriving DecidableEq, Repr

/-- Whether limits can be used. -/
def MatchingEngineConfig.valid (config : MatchingEngineConfig) : Bool :=
  config.maxOrderQuantity ≠ 0 && 0 < config.tickIncrement

/-- The limits an executor enforces. -/
abbrev ExecutionPolicy := MatchingEngineConfig

/-- Whether a price is a multiple of the tick. -/
def isTickAligned (price tickIncrement : PriceTicks) : Bool := price % tickIncrement = 0

/-- An order ID worth reporting. -/
def nonzero (orderId : OrderId) : Option OrderId := if orderId = 0 then none else some orderId

/-- The outcome of a validation: a reason, `none` on acceptance, and the order it is about. -/
structure ValidationDecision where
  reason : RejectReason
  relevantOrderId : Option OrderId
  deriving DecidableEq, Repr

namespace ValidationDecision

/-- Acceptance. -/
def accept : ValidationDecision := ⟨.none, none⟩

/-- A refusal about an order. -/
def reject (reason : RejectReason) (orderId : OrderId) : ValidationDecision :=
  ⟨reason, nonzero orderId⟩

/-- Whether a decision accepts. -/
def accepted (decision : ValidationDecision) : Bool := decision.reason = .none

end ValidationDecision

/-- The order a shape refusal of an exchange is about. -/
def replacementRelevantId (order : ReplaceOrder) (reason : RejectReason) : OrderId :=
  match reason with
  | .invalidOrderId => if order.oldOrderId = 0 then order.oldOrderId else order.newOrderId
  | .invalidReplacementId | .invalidQuantity | .invalidPrice => order.newOrderId
  | _ => order.oldOrderId

/-- Why a command was not admitted. -/
inductive CommandAdmissionError
  | sequenceExhausted
  | invalidPolicy
  | bookInvariantViolation
  | invalidSequence
  deriving DecidableEq, Repr

section Admission

variable (checks : Bool)

/-- The checks every admission starts with. -/
def admissionPreflight (book : InstrumentBook) (policy : ExecutionPolicy) :
    Run (Option CommandAdmissionError) := do
  if !policy.valid then return some .invalidPolicy
  if !(← book.checkedInvariants checks) then return some .bookInvariantViolation
  return none

/-- The refusals of a new order against one book. -/
def NewOrder.validateState (order : NewOrder) (book : InstrumentBook) (policy : ExecutionPolicy) :
    ValidationDecision :=
  if order.validate ≠ .none then .reject order.validate order.orderId
  else if order.instrumentId ≠ book.instrumentId then .reject .unknownInstrument order.orderId
  else if policy.maxOrderQuantity < order.quantity then .reject .quantityOutOfRange order.orderId
  else if order.orderType = .limit &&
      order.limitPrice.any (fun price => !isTickAligned price policy.tickIncrement) then
    .reject .invalidTick order.orderId
  else if (book.find order.orderId).isSome then .reject .duplicateOrderId order.orderId
  else .accept

/-- The refusals that compare a command with the resting order it names. -/
def validateOwner (resting : Option OrderNodeSpec) (clientId : ClientId)
    (instrumentId : InstrumentId) (orderId : OrderId) : ValidationDecision :=
  match resting with
  | none => .reject .unknownOrderId orderId
  | some node =>
    if node.clientId ≠ clientId then .reject .ownershipMismatch orderId
    else if node.instrumentId ≠ instrumentId then .reject .instrumentMismatch orderId
    else .accept

/-- The refusals of a withdrawal against one book. -/
def CancelOrder.validateState (order : CancelOrder) (book : InstrumentBook) :
    ValidationDecision :=
  if order.validate ≠ .none then .reject order.validate order.orderId
  else if order.instrumentId ≠ book.instrumentId then .reject .unknownInstrument order.orderId
  else validateOwner (book.find order.orderId) order.clientId order.instrumentId order.orderId

/-- The refusals of an exchange against one book. -/
def ReplaceOrder.validateState (order : ReplaceOrder) (book : InstrumentBook)
    (policy : ExecutionPolicy) : ValidationDecision :=
  if order.validate ≠ .none then
    .reject order.validate (replacementRelevantId order order.validate)
  else if order.instrumentId ≠ book.instrumentId then .reject .unknownInstrument order.oldOrderId
  else if policy.maxOrderQuantity < order.newQuantity then
    .reject .quantityOutOfRange order.newOrderId
  else if !isTickAligned order.newLimitPrice policy.tickIncrement then
    .reject .invalidTick order.newOrderId
  else
    let owner := validateOwner (book.find order.oldOrderId) order.clientId order.instrumentId
      order.oldOrderId
    if !owner.accepted then owner
    else if (book.find order.newOrderId).isSome then
      .reject .invalidReplacementId order.newOrderId
    else .accept

/-- The refusals of a command against one book. -/
def Command.validateState (command : Command) (book : InstrumentBook) (policy : ExecutionPolicy) :
    ValidationDecision :=
  match command with
  | .newOrder order => order.validateState book policy
  | .cancel order => order.validateState book
  | .replace order => order.validateState book policy

/-- Admit a command at a sequence reserved elsewhere. -/
def Command.admitAt (command : Command) (book : InstrumentBook) (policy : ExecutionPolicy)
    (sequence : Sequence) : Run (Except CommandAdmissionError ValidationDecision) := do
  if sequence = 0 then return .error .invalidSequence
  match ← admissionPreflight checks book policy with
  | some error => return .error error
  | none => return .ok (command.validateState book policy)

end Admission

/-- Why a batch was not built. -/
inductive EventBatchBuilderError
  | capacityOverflow
  | capacityUnderfill
  | builderFinished
  | invalidZeroInstrumentBatch
  deriving DecidableEq, Repr

/-- A batch under construction, with a fixed number of slots. -/
structure EventBatchBuilder where
  commandSequence : Sequence
  instrumentId : InstrumentId
  /-- The number of slots. -/
  slots : Nat
  /-- The events appended so far. -/
  events : List Event
  error : Option EventBatchBuilderError
  finished : Bool

namespace EventBatchBuilder

/-- Start a batch, or throw. -/
def create (commandSequence : Sequence) (instrumentId : InstrumentId) (expected : Nat) :
    Run EventBatchBuilder :=
  if commandSequence = 0 then
    .error (.invalidArgument "event batch builder command sequence must be nonzero")
  else if expected = 0 then
    .error (.invalidArgument "event batch builder requires at least one event slot")
  else if instrumentId = 0 ∧ expected ≠ 1 then
    .error (.invalidArgument "zero-instrument event batch builder requires exactly one event slot")
  else if 2 ^ 32 - 1 < expected - 1 then
    .error (.lengthError "event batch builder event count exceeds index range")
  else .ok ⟨commandSequence, instrumentId, expected, [], none, false⟩

/-- Append one event with the header of its position. -/
def append (builder : EventBatchBuilder) (payload : EventPayload) :
    EventBatchBuilder × Option EventBatchBuilderError :=
  if builder.finished then (builder, some .builderFinished)
  else if builder.error.isSome then (builder, builder.error)
  else if builder.events.length = builder.slots then
    ({ builder with error := some .capacityOverflow }, some .capacityOverflow)
  else if builder.instrumentId = 0 ∧ (builder.slots ≠ 1 ∨ payload.isRejected = false) then
    ({ builder with error := some .invalidZeroInstrumentBatch }, some .invalidZeroInstrumentBatch)
  else
    ({ builder with events := builder.events ++ [⟨⟨builder.commandSequence,
        UInt32.ofNat builder.events.length, builder.instrumentId⟩, payload⟩] }, none)

/-- Append events until one is refused. -/
def appendAll (builder : EventBatchBuilder) :
    List EventPayload → EventBatchBuilder × Option EventBatchBuilderError
  | [] => (builder, none)
  | payload :: rest =>
    match builder.append payload with
    | (next, none) => next.appendAll rest
    | (next, some error) => (next, some error)

/-- Close a batch whose slots are all filled. A batch that its own check refuses terminates. -/
def finish (builder : EventBatchBuilder) : Run (Except EventBatchBuilderError EventBatch) :=
  if builder.finished then .ok (.error .builderFinished)
  else
    match builder.error with
    | some error => .ok (.error error)
    | none =>
      if builder.events.length ≠ builder.slots then .ok (.error .capacityUnderfill)
      else
        match EventBatch.construct builder.events with
        | .error _ => .error .terminate
        | .ok batch => .ok (.ok batch)

end EventBatchBuilder

/-- Why a plan could not be bound to the book. -/
inductive PassiveBindingError
  | invalidPlan
  | bookMismatch
  | quantityChainMismatch
  deriving DecidableEq, Repr

/-- Why a command was not executed. -/
inductive CommandExecutionError
  | admissionFailure (error : CommandAdmissionError)
  | matchPlanFailure (error : MatchPlanError)
  | activeOrderProjectionFailure (error : ActiveOrderProjectionError)
  | passiveBindingFailure (error : PassiveBindingError)
  | topOfBookProjectionFailure (error : ExecutionProjectionError)
  | residualPreparationFailure (error : Option InstrumentBookError)
  | eventCountOverflow
  | eventBatchFailure (error : EventBatchBuilderError)
  | bookMutationFailure (error : PrevalidatedBatchError)
  | preparationInProgress
  deriving DecidableEq, Repr

/-- The batch of a command, or why there is none. -/
abbrev CommandExecutionResult := Except CommandExecutionError EventBatch

/-- Whether a planned execution is the next one against a node. -/
def plannedTradeMatches (trade : PlannedTrade) (node : OrderNodeSpec) (before : Quantity) : Bool :=
  trade = MatchPlan.plannedTrade before node

/-- The reduction of a node by a planned execution. -/
def boundReduction (trade : PlannedTrade) (node : OrderNodeSpec) : PrevalidatedBookReduction where
  node := node.orderId
  orderId := node.orderId
  clientId := node.clientId
  side := node.side
  price := node.price
  remainingBefore := node.remainingQuantity
  reduction := trade.executionQuantity
  remainingAfter := trade.restingRemainingAfter
  prioritySequence := node.prioritySequence

/-- Where the binding of a plan stands. -/
structure PlanBinding where
  remaining : Quantity
  trades : List PlannedTrade
  reductions : List PrevalidatedBookReduction

/-- Bind the executions within one level. -/
def bindLevel (book : InstrumentBook) :
    PlanBinding → List OrderNodeSpec → Except PassiveBindingError PlanBinding
  | binding, [] => .ok binding
  | binding, node :: rest =>
    if binding.remaining = 0 then .ok binding
    else
      match binding.trades with
      | [] => .error .invalidPlan
      | trade :: later =>
        if book.findNode trade.restingOrderId ≠ some node.orderId ||
            !plannedTradeMatches trade node binding.remaining then .error .bookMismatch
        else bindLevel book ⟨trade.aggressorRemaining, later,
          binding.reductions ++ [boundReduction trade node]⟩ rest

/-- Bind the executions against the levels of a side. -/
def bindLevels (book : InstrumentBook) (order : NewOrder) :
    PlanBinding → List (PriceLevel × List OrderNodeSpec) → Except PassiveBindingError PlanBinding
  | binding, [] => .ok binding
  | binding, (level, nodes) :: rest =>
    if !order.crosses level.price || binding.remaining = 0 then .ok binding
    else
      match bindLevel book binding nodes with
      | .error error => .error error
      | .ok next => bindLevels book order next rest

/-- Bind a plan to the side it was made for. -/
def bindSide (order : NewOrder) (plan : MatchPlan) (book : InstrumentBook) (opposite : Side) :
    Except PassiveBindingError (List PrevalidatedBookReduction) :=
  match bindLevels book order ⟨order.quantity, plan.trades, []⟩ (book.levels opposite) with
  | .error error => .error error
  | .ok binding =>
    if !binding.trades.isEmpty then .error .invalidPlan
    else if binding.remaining ≠ plan.residualQuantity then .error .quantityChainMismatch
    else if plan.residualDisposition ≠ classifyResidual order plan.residualQuantity then
      .error .invalidPlan
    else .ok binding.reductions

/-- Bind a plan to the nodes it reduces. -/
def bindMatchPlan (order : NewOrder) (plan : MatchPlan) (book : InstrumentBook) :
    Except PassiveBindingError (List PrevalidatedBookReduction) :=
  if !order.side.isValid || order.quantity = 0 then .error .invalidPlan
  else bindSide order plan book order.side.opposite

/-- The number of events of a plan, if it can be indexed. -/
def checkedEventCount (fixedCount tradeCount : Nat) (bookChanged : Bool) : Option Nat :=
  let fixed := fixedCount + (if bookChanged then 1 else 0)
  if 2 ^ 64 - 1 - fixed < tradeCount then none
  else if tradeCount + fixed = 0 then none
  else if tradeCount + fixed - 1 ≤ 2 ^ 32 - 1 then some (tradeCount + fixed)
  else none

/-- The batch of a refusal. -/
def makeRejection (sequence : Sequence) (instrumentId : InstrumentId) (commandType : CommandType)
    (decision : ValidationDecision) : Run CommandExecutionResult := do
  let builder ← EventBatchBuilder.create sequence instrumentId 1
  match builder.append (.rejected commandType decision.reason decision.relevantOrderId) with
  | (_, some error) => return .error (.eventBatchFailure error)
  | (filled, none) =>
    match ← filled.finish with
    | .error error => return .error (.eventBatchFailure error)
    | .ok batch => return .ok batch

/-- Whether a residual does not fit its level. -/
def isRepresentationalCapacity (status : Option InstrumentBookError) : Bool :=
  status = some (.priceLevelFailure .aggregateOverflow) ||
    status = some (.priceLevelFailure .orderCountOverflow)

/-- The residual a plan rests. -/
def projectedResidual (order : NewOrder) (plan : MatchPlan) :
    Run (Option ProjectedRestingResidual) :=
  if plan.residualDisposition ≠ .rest then .ok none
  else
    match order.limitPrice with
    | none => .error .terminate
    | some price => .ok (some ⟨price, plan.residualQuantity⟩)

/-- Why an order that does not rest is done. -/
def doneReason : ResidualDisposition → Run DoneReason
  | .filled => .ok .filled
  | .iocCanceled => .ok .iocResidualCanceled
  | .marketExhausted => .ok .marketExhausted
  | .rest => .error .terminate

/-- The event of a planned execution. -/
def tradePayload (order : NewOrder) (trade : PlannedTrade) : EventPayload :=
  .trade order.orderId trade.restingOrderId order.clientId trade.restingClientId order.side
    trade.executionPrice trade.executionQuantity trade.aggressorRemaining
    trade.restingRemainingAfter

/-- The event of what is left of an order. -/
def residualPayload (order : NewOrder) (plan : MatchPlan) : Run EventPayload :=
  if plan.residualDisposition = .rest then
    match order.limitPrice with
    | none => .error .terminate
    | some price =>
      .ok (.rested order.orderId order.clientId order.side price plan.residualQuantity)
  else do
    let reason ← doneReason plan.residualDisposition
    return .done order.orderId reason plan.residualQuantity

/-- The event of a changed top. -/
def bookChangedPayloads (top : TopOfBookSnapshot) (bookChanged : Bool) : List EventPayload :=
  if bookChanged then [.bookChanged top.bestBid top.bestAsk] else []

/-- The events of a plan after its opening ones. -/
def planPayloads (opening : List EventPayload) (order : NewOrder) (plan : MatchPlan)
    (top : TopOfBookSnapshot) (bookChanged : Bool) : Run (List EventPayload) := do
  let closing ← residualPayload order plan
  return opening ++ plan.trades.map (tradePayload order) ++ [closing] ++
    bookChangedPayloads top bookChanged

/-- The opening events of a new order. -/
def newOpening : List EventPayload := [.accepted .newOrder]

/-- The opening events of an exchange. -/
def replaceOpening (oldOrderId newOrderId : OrderId) (oldRemaining : Quantity) :
    List EventPayload :=
  [.accepted .replace, .replaced oldOrderId newOrderId, .canceled oldOrderId oldRemaining,
    .done oldOrderId .replaced oldRemaining]

/-- How a prepared command changes its book. -/
inductive MutationKind
  | none
  | batch
  | replace
  deriving DecidableEq, Repr

/-- A command with everything its commit needs. -/
structure PreparedCommandExecution where
  /-- Whether it holds the lease of its executor. -/
  leased : Bool
  result : CommandExecutionResult
  passiveReductions : List PrevalidatedBookReduction
  primaryReduction : Option PrevalidatedBookReduction
  preparedRest : Option PreparedRest
  projectedTop : TopOfBookSnapshot
  mutation : MutationKind
  consumed : Bool

namespace PreparedCommandExecution

/-- A command that changes nothing. -/
def immediate (result : CommandExecutionResult) : PreparedCommandExecution :=
  ⟨false, result, [], none, none, ⟨none, none⟩, .none, false⟩

/-- The batch of a command that was not consumed. -/
def batch (prepared : PreparedCommandExecution) : Option EventBatch :=
  if prepared.consumed then none else prepared.result.toOption

/-- Whether there is a batch. -/
def hasValue (prepared : PreparedCommandExecution) : Bool := prepared.batch.isSome

/-- Whether the batch is a refusal. -/
def rejected (prepared : PreparedCommandExecution) : Bool := prepared.batch.any EventBatch.rejected

/-- Whether the batch is an acceptance. -/
def committed (prepared : PreparedCommandExecution) : Bool :=
  prepared.hasValue && !prepared.rejected

/-- What is left after a commit or an abandonment. -/
def consume (prepared : PreparedCommandExecution) : PreparedCommandExecution :=
  { prepared with preparedRest := none, mutation := .none, consumed := true, leased := false }

end PreparedCommandExecution

/-- A book with the executor that owns its lease. -/
structure CommandExecutor where
  /-- Where the book lives. -/
  address : BookRef
  book : InstrumentBook
  policy : ExecutionPolicy
  sequencer : CommandSequencer
  preparationActive : Bool

namespace CommandExecutor

variable (checks : Bool)

/-- Attach an executor to an empty book. -/
def create (address : BookRef) (book : InstrumentBook) (policy : ExecutionPolicy) :
    Run CommandExecutor := do
  if !policy.valid then
    .error (.invalidArgument "CommandAdmission requires a valid execution policy")
  if (← book.validateInvariants) ≠ .none then
    .error (.invalidArgument "CommandExecutor requires a valid initial book")
  if book.hasPendingPreparation then
    .error (.invalidArgument "CommandExecutor cannot attach during a pending book preparation")
  if book.activeOrderCount ≠ 0 then
    .error (.invalidArgument "default CommandExecutor sequencing requires an empty initial book")
  return ⟨address, book, policy, .initial, false⟩

/-- The end of a guard: a residual that was not published is rolled back. -/
def dropRest (address : BookRef) (book : InstrumentBook) :
    Option PreparedRest → Run InstrumentBook
  | none => .ok book
  | some prepared => book.rollback checks address prepared

/-- How far a preparation came before it stages anything. -/
inductive Assessment
  | failed (error : CommandExecutionError)
  /-- A limit stands against the command. -/
  | refused
  | planned (plan : MatchPlan) (reductions : List PrevalidatedBookReduction)
      (residual : Option ProjectedRestingResidual) (top : TopOfBookSnapshot)

/-- The projection of an aggressor: an exchange also removes the order it replaces. -/
def projectTop (book : InstrumentBook) (order : NewOrder) (replaced : Option OrderNodeSpec)
    (plan : MatchPlan) (residual : Option ProjectedRestingResidual) :
    Run (Except ExecutionProjectionError TopOfBookSnapshot) :=
  match replaced with
  | none => projectNewTopOfBook checks book order.side plan residual
  | some old =>
    projectReplaceTopOfBook checks book (makeCancelProjectionTarget old) order plan residual

/-- Plan an aggressor and project its consequences without a change. -/
def assess (book : InstrumentBook) (policy : ExecutionPolicy) (order : NewOrder)
    (replaced : Option OrderNodeSpec) : Run Assessment := do
  match ← planMatches checks order book with
  | .error (error, _) => return .failed (.matchPlanFailure error)
  | .ok plan =>
  match projectActiveOrderCount plan book.activeOrderCount replaced.isSome with
  | .error error => return .failed (.activeOrderProjectionFailure error)
  | .ok count =>
  if policy.maxActiveOrders.toNat < count then return .refused
  match bindMatchPlan order plan book with
  | .error error => return .failed (.passiveBindingFailure error)
  | .ok reductions =>
  let residual ← projectedResidual order plan
  match ← projectTop checks book order replaced plan residual with
  | .error .aggregateOverflow => return .refused
  | .error error => return .failed (.topOfBookProjectionFailure error)
  | .ok top => return .planned plan reductions residual top

/-- Stage the residual of an aggressor. -/
def stageResidual (address : BookRef) (book : InstrumentBook) (sequence : Sequence)
    (order : NewOrder) (replaced : Option OrderNodeSpec)
    (residual : Option ProjectedRestingResidual) : Run (InstrumentBook × Option PreparedRest) :=
  match residual with
  | none => .ok (book, none)
  | some rested => do
    let spec : OrderNodeSpec := ⟨order.orderId, order.clientId, order.instrumentId, order.side,
      rested.price, rested.quantity, sequence⟩
    let (next, prepared) ← match replaced with
      | none => book.prepareRest checks address spec
      | some old => book.prepareReplaceRest checks address spec old.orderId
    return (next, some prepared)

/-- Build the batch of a planned aggressor. -/
def buildBatch (sequence : Sequence) (order : NewOrder) (opening : List EventPayload)
    (fixedCount : Nat) (plan : MatchPlan) (top : TopOfBookSnapshot) (bookChanged : Bool) :
    Run CommandExecutionResult := do
  match checkedEventCount fixedCount plan.trades.length bookChanged with
  | none => return .error .eventCountOverflow
  | some eventCount =>
    let builder ← EventBatchBuilder.create sequence order.instrumentId eventCount
    let payloads ← planPayloads opening order plan top bookChanged
    match builder.appendAll payloads with
    | (_, some error) => return .error (.eventBatchFailure error)
    | (filled, none) =>
      match ← filled.finish with
      | .error error => return .error (.eventBatchFailure error)
      | .ok batch => return .ok batch

/-- The reduction that takes all of a resting order. -/
def wholeReduction (node : OrderNodeSpec) : PrevalidatedBookReduction :=
  ⟨node.orderId, node.orderId, node.clientId, node.side, node.price, node.remainingQuantity,
    node.remainingQuantity, 0, node.prioritySequence⟩

/-- Prepare an aggressor: a new order, or the new order of an exchange. -/
def prepareAggressor (executor : CommandExecutor) (sequence : Sequence)
    (commandType : CommandType) (order : NewOrder) (replaced : Option OrderNodeSpec)
    (opening : List EventPayload) (fixedCount : Nat) :
    Run (CommandExecutor × PreparedCommandExecution) := do
  let refuse : Run CommandExecutionResult := makeRejection sequence order.instrumentId commandType
    ⟨.capacityExceeded, some order.orderId⟩
  let before := snapshotTopOfBook executor.book
  match ← assess checks executor.book executor.policy order replaced with
  | .failed error => return (executor, .immediate (.error error))
  | .refused => return (executor, .immediate (← refuse))
  | .planned plan reductions residual top =>
  let (book, rest) ← stageResidual checks executor.address executor.book sequence order
    replaced residual
  if rest.any fun prepared => !prepared.hasValue then
    let status := rest.bind PreparedRest.status
    if isRepresentationalCapacity status then
      return ({ executor with book := book }, .immediate (← refuse))
    return ({ executor with book := book },
      .immediate (.error (.residualPreparationFailure status)))
  match ← buildBatch sequence order opening fixedCount plan top (before ≠ top) with
  | .error error =>
    -- The guard of the staged residual goes out of scope here.
    let restored ← dropRest checks executor.address book rest
    return ({ executor with book := restored }, .immediate (.error error))
  | .ok batch =>
    return ({ executor with book := book },
      ⟨false, .ok batch, reductions, replaced.map wholeReduction, rest, top,
        if replaced.isSome then .replace else .batch, false⟩)

/-- Prepare an admitted new order. -/
def prepareNew (executor : CommandExecutor) (order : NewOrder) (sequence : Sequence) :
    Run (CommandExecutor × PreparedCommandExecution) :=
  executor.prepareAggressor checks sequence .newOrder order none newOpening 2

/-- Prepare an admitted withdrawal. -/
def prepareCancel (executor : CommandExecutor) (order : CancelOrder) (sequence : Sequence) :
    Run (CommandExecutor × PreparedCommandExecution) := do
  let before := snapshotTopOfBook executor.book
  match executor.book.find order.orderId with
  | none => return (executor, .immediate (.error (.passiveBindingFailure .bookMismatch)))
  | some node =>
  if node.clientId ≠ order.clientId || node.instrumentId ≠ order.instrumentId then
    return (executor, .immediate (.error (.passiveBindingFailure .bookMismatch)))
  match ← projectCancelTopOfBook checks executor.book (makeCancelProjectionTarget node) with
  | .error error => return (executor, .immediate (.error (.topOfBookProjectionFailure error)))
  | .ok top =>
  let bookChanged : Bool := before ≠ top
  let builder ← EventBatchBuilder.create sequence order.instrumentId
    (3 + (if bookChanged then 1 else 0))
  match builder.appendAll ([.accepted .cancel, .canceled order.orderId node.remainingQuantity,
      .done order.orderId .canceled node.remainingQuantity] ++
        bookChangedPayloads top bookChanged) with
  | (_, some error) => return (executor, .immediate (.error (.eventBatchFailure error)))
  | (filled, none) =>
    match ← filled.finish with
    | .error error => return (executor, .immediate (.error (.eventBatchFailure error)))
    | .ok batch =>
      return (executor, ⟨false, .ok batch, [], some (wholeReduction node), none, top, .batch,
        false⟩)

/-- The new order of an exchange. -/
def replacementOf (old : OrderNodeSpec) (order : ReplaceOrder) : NewOrder :=
  ⟨old.clientId, order.newOrderId, old.instrumentId, old.side, .limit, .gtc,
    some order.newLimitPrice, order.newQuantity⟩

/-- Prepare an admitted exchange. -/
def prepareReplace (executor : CommandExecutor) (order : ReplaceOrder) (sequence : Sequence) :
    Run (CommandExecutor × PreparedCommandExecution) :=
  match executor.book.find order.oldOrderId with
  | none => .ok (executor, .immediate (.error (.passiveBindingFailure .bookMismatch)))
  | some old =>
    if old.clientId ≠ order.clientId || old.instrumentId ≠ order.instrumentId ||
        (executor.book.find order.newOrderId).isSome then
      .ok (executor, .immediate (.error (.passiveBindingFailure .bookMismatch)))
    else executor.prepareAggressor checks sequence .replace (replacementOf old order) (some old)
      (replaceOpening order.oldOrderId order.newOrderId old.remainingQuantity) 5

/-- Prepare an admitted command. -/
def prepareAdmitted (executor : CommandExecutor) (command : Command) (sequence : Sequence) :
    Run (CommandExecutor × PreparedCommandExecution) :=
  match command with
  | .newOrder order => executor.prepareNew checks order sequence
  | .cancel order => executor.prepareCancel checks order sequence
  | .replace order => executor.prepareReplace checks order sequence

/-- Prepare a command at a sequence reserved elsewhere; the result holds the executor's lease. -/
def prepareAt (executor : CommandExecutor) (command : Command) (sequence : Sequence) :
    Run (CommandExecutor × PreparedCommandExecution) := do
  if executor.preparationActive then
    return (executor, .immediate (.error .preparationInProgress))
  let (next, prepared) ← match ← command.admitAt checks executor.book executor.policy sequence with
    | .error error => pure (executor, .immediate (.error (.admissionFailure error)))
    | .ok decision =>
      if !decision.accepted then do
        let result ← makeRejection sequence command.instrumentId command.commandType decision
        pure (executor, .immediate result)
      else executor.prepareAdmitted checks command sequence
  return ({ next with preparationActive := true }, { prepared with leased := true })

/-- Give the lease back. -/
def releaseLease (executor : CommandExecutor) (prepared : PreparedCommandExecution) :
    Run CommandExecutor :=
  if !prepared.leased then .ok executor
  else if !executor.preparationActive then .error .terminate
  else .ok { executor with preparationActive := false }

/-- Drop a prepared command without applying it. -/
def abandon (executor : CommandExecutor) (prepared : PreparedCommandExecution) :
    Run (CommandExecutor × PreparedCommandExecution) := do
  let book ← dropRest checks executor.address executor.book prepared.preparedRest
  let released ← { executor with book := book }.releaseLease prepared
  return (released, prepared.consume)

/-- Apply the mutation of a prepared command. -/
def mutate (address : BookRef) (book : InstrumentBook) (prepared : PreparedCommandExecution) :
    Run InstrumentBook.BatchResult :=
  match prepared.result, prepared.mutation, prepared.primaryReduction with
  | .ok _, .replace, some old => book.applyPrevalidatedReplaceBatch checks address old
      prepared.passiveReductions prepared.preparedRest
  | .ok _, .batch, some only =>
    book.applyPrevalidatedBatch checks address [only] prepared.preparedRest
  | .ok _, .batch, none =>
    book.applyPrevalidatedBatch checks address prepared.passiveReductions prepared.preparedRest
  | _, _, _ => .ok ⟨book, prepared.preparedRest, some ⟨.preparationMismatch, 0⟩⟩

/-- Apply a prepared command once. -/
def commit (executor : CommandExecutor) (prepared : PreparedCommandExecution) :
    Run (CommandExecutor × PreparedCommandExecution × CommandExecutionResult) := do
  if prepared.consumed then
    return (executor, prepared, .error (.bookMutationFailure .preparationMismatch))
  if prepared.mutation = .none then
    let released ← executor.releaseLease prepared
    return (released, prepared.consume, prepared.result)
  let applied ← mutate checks executor.address executor.book prepared
  match applied.failure with
  | some failure =>
    let book ← dropRest checks executor.address applied.book applied.preparedRest
    let released ← { executor with book := book }.releaseLease prepared
    return (released, prepared.consume, .error (.bookMutationFailure failure.error))
  | none =>
    if snapshotTopOfBook applied.book ≠ prepared.projectedTop then .error .terminate
    let settled ← dropRest checks executor.address applied.book applied.preparedRest
    let released ← { executor with book := settled }.releaseLease prepared
    return (released, prepared.consume, prepared.result)

end CommandExecutor

end AtlasLob
