import AtlasLob.Core.InstrumentBook

/-!
# Planning matches

A plan walks the opposite side of a book without changing it and lists the executions of an
order, the quantity left over and what becomes of it. The projections of the number of resting
orders and of the top of the book read a plan, again without touching the book.
-/

namespace AtlasLob

/-- What becomes of the quantity a plan leaves over. -/
inductive ResidualDisposition
  | rest
  | filled
  | iocCanceled
  | marketExhausted
  deriving DecidableEq, Repr

/-- One planned execution. -/
structure PlannedTrade where
  restingOrderId : OrderId
  restingClientId : ClientId
  executionPrice : PriceTicks
  executionQuantity : Quantity
  aggressorRemaining : Quantity
  restingRemainingBefore : Quantity
  restingRemainingAfter : Quantity
  expectedRestingPriority : Sequence
  deriving DecidableEq, Repr

/-- The executions of an order and what is left of it. -/
structure MatchPlan where
  trades : List PlannedTrade
  residualQuantity : Quantity
  residualDisposition : ResidualDisposition
  deriving DecidableEq, Repr

/-- Why no plan was made. -/
inductive MatchPlanError
  | invalidRequest
  | instrumentMismatch
  | duplicateOrderId
  | bookInvariantViolation
  deriving DecidableEq, Repr

/-- Whether an order trades at a resting price. Only a market order has no price. -/
def NewOrder.crosses (order : NewOrder) (restingPrice : PriceTicks) : Bool :=
  if order.orderType = .market then true
  else
    match order.limitPrice with
    | none => false
    | some limit => if order.side = .buy then restingPrice ≤ limit else limit ≤ restingPrice

namespace MatchPlan

/-- Count the executions within one level. -/
def countLevel : Quantity → Nat → List OrderNodeSpec → Run (Quantity × Nat)
  | residual, count, [] => .ok (residual, count)
  | residual, count, node :: rest =>
    if residual = 0 then .ok (residual, count)
    else if Word.atMax64 count then .error .terminate
    else countLevel (residual - min residual node.remainingQuantity) (count + 1) rest

/-- Count the executions of an order against the levels of a side. -/
def countTrades (order : NewOrder) :
    Quantity → Nat → List (PriceLevel × List OrderNodeSpec) → Run Nat
  | _, count, [] => .ok count
  | residual, count, (level, nodes) :: rest =>
    if !order.crosses level.price then .ok count
    else do
      let (left, counted) ← countLevel residual count nodes
      if left = 0 then return counted
      countTrades order left counted rest

/-- The execution of a quantity against a node. -/
def plannedTrade (residual : Quantity) (node : OrderNodeSpec) : PlannedTrade where
  restingOrderId := node.orderId
  restingClientId := node.clientId
  executionPrice := node.price
  executionQuantity := min residual node.remainingQuantity
  aggressorRemaining := residual - min residual node.remainingQuantity
  restingRemainingBefore := node.remainingQuantity
  restingRemainingAfter := node.remainingQuantity - min residual node.remainingQuantity
  expectedRestingPriority := node.prioritySequence

/-- Append the executions within one level. -/
def populateLevel : Quantity → List PlannedTrade → List OrderNodeSpec →
    Quantity × List PlannedTrade
  | residual, trades, [] => (residual, trades)
  | residual, trades, node :: rest =>
    if residual = 0 then (residual, trades)
    else populateLevel (residual - min residual node.remainingQuantity)
      (trades ++ [plannedTrade residual node]) rest

/-- Append the executions of an order against the levels of a side. -/
def populateTrades (order : NewOrder) :
    Quantity → List PlannedTrade → List (PriceLevel × List OrderNodeSpec) →
      Quantity × List PlannedTrade
  | residual, trades, [] => (residual, trades)
  | residual, trades, (level, nodes) :: rest =>
    if !order.crosses level.price then (residual, trades)
    else
      let step := populateLevel residual trades nodes
      if step.1 = 0 then step else populateTrades order step.1 step.2 rest

end MatchPlan

/-- What becomes of the quantity left over from an order. -/
def classifyResidual (order : NewOrder) (residual : Quantity) : ResidualDisposition :=
  if residual = 0 then .filled
  else if order.orderType = .market then .marketExhausted
  else if order.timeInForce = .ioc then .iocCanceled
  else .rest

/-- Plan the executions of an order against a book. -/
def planMatches (checks : Bool) (order : NewOrder) (book : InstrumentBook) :
    Run (Except (MatchPlanError × RejectReason) MatchPlan) := do
  if order.validate ≠ .none then return .error (.invalidRequest, order.validate)
  if order.instrumentId ≠ book.instrumentId then
    return .error (.instrumentMismatch, .unknownInstrument)
  if !(← book.checkedInvariants checks) then return .error (.bookInvariantViolation, .none)
  if (book.find order.orderId).isSome then
    return .error (.duplicateOrderId, .duplicateOrderId)
  let levels := book.levels order.side.opposite
  let count ← MatchPlan.countTrades order order.quantity 0 levels
  let populated := MatchPlan.populateTrades order order.quantity [] levels
  if populated.2.length ≠ count then .error .terminate
  return .ok ⟨populated.2, populated.1, classifyResidual order populated.1⟩

/-- Why the number of resting orders could not be projected. -/
inductive ActiveOrderProjectionError
  | invalidPlan
  | countUnderflow
  | countOverflow
  deriving DecidableEq, Repr

/-- Whether a disposition agrees with the quantity left over. -/
def MatchPlan.residualAgrees (plan : MatchPlan) : Bool :=
  match plan.residualDisposition with
  | .filled => plan.residualQuantity = 0
  | .rest | .iocCanceled | .marketExhausted => plan.residualQuantity ≠ 0

/-- Count the resting orders a plan fills. -/
def countFilled : Nat → List PlannedTrade → Except ActiveOrderProjectionError Nat
  | filled, [] => .ok filled
  | filled, trade :: rest =>
    if trade.executionQuantity = 0 || trade.restingRemainingBefore < trade.executionQuantity ||
        trade.restingRemainingAfter ≠ trade.restingRemainingBefore - trade.executionQuantity then
      .error .invalidPlan
    else if trade.restingRemainingAfter = 0 then
      if Word.atMax64 filled then .error .countOverflow else countFilled (filled + 1) rest
    else countFilled filled rest

/-- The number of resting orders after a plan. -/
def projectActiveOrderCount (plan : MatchPlan) (current : Nat) (removesExisting : Bool) :
    Except ActiveOrderProjectionError Nat := do
  if !plan.residualAgrees then .error .invalidPlan
  let filled ← countFilled 0 plan.trades
  if removesExisting && Word.atMax64 filled then .error .countOverflow
  let leaving := if removesExisting then filled + 1 else filled
  if current < leaving then .error .countUnderflow
  if plan.residualDisposition = .rest then
    if Word.atMax64 (current - leaving) then .error .countOverflow
    return current - leaving + 1
  return current - leaving

/-- Whether a projected number of orders stays within a limit. -/
def withinLimit (projection : Except ActiveOrderProjectionError Nat) (maximum : UInt64) : Bool :=
  match projection with
  | .ok count => count ≤ maximum.toNat
  | .error _ => false

/-- The best level of each side. -/
structure TopOfBookSnapshot where
  bestBid : Option TopOfBookLevel
  bestAsk : Option TopOfBookLevel
  deriving DecidableEq, Repr

namespace TopOfBookSnapshot

/-- The best level of one side. -/
def side (top : TopOfBookSnapshot) (side : Side) : Option TopOfBookLevel :=
  if side = .buy then top.bestBid else top.bestAsk

/-- Replace the best level of one side. -/
def setSide (top : TopOfBookSnapshot) (side : Side) (best : Option TopOfBookLevel) :
    TopOfBookSnapshot :=
  if side = .buy then { top with bestBid := best } else { top with bestAsk := best }

/-- Whether the best bid reaches the best ask. -/
def isCrossed (top : TopOfBookSnapshot) : Bool :=
  match top.bestBid, top.bestAsk with
  | some bid, some ask => ask.price ≤ bid.price
  | _, _ => false

end TopOfBookSnapshot

/-- The visible part of a level. -/
def snapshotLevel (level : PriceLevel) : TopOfBookLevel := ⟨level.price, level.aggregateQuantity⟩

/-- The top of a book. -/
def snapshotTopOfBook (book : InstrumentBook) : TopOfBookSnapshot :=
  ⟨(book.bestLevel .buy).map snapshotLevel, (book.bestLevel .sell).map snapshotLevel⟩

/-- Why the top of the book could not be projected. -/
inductive ExecutionProjectionError
  | invalidSide
  | invalidPlan
  | invalidRestingResidual
  | bookInvariantViolation
  | planBookMismatch
  | cancelTargetMismatch
  | aggregateOverflow
  | aggregateUnderflow
  | crossedBook
  | replacementOrderMismatch
  deriving DecidableEq, Repr

/-- A residual that will rest. -/
structure ProjectedRestingResidual where
  price : PriceTicks
  quantity : Quantity
  deriving DecidableEq, Repr

/-- The value of an order that will leave. -/
structure CancelProjectionTarget where
  orderId : OrderId
  side : Side
  price : PriceTicks
  remainingQuantity : Quantity
  prioritySequence : Sequence
  deriving DecidableEq, Repr

/-- The target of a resting order. -/
def makeCancelProjectionTarget (node : OrderNodeSpec) : CancelProjectionTarget :=
  ⟨node.orderId, node.side, node.price, node.remainingQuantity, node.prioritySequence⟩

namespace MatchPlan

/-- Whether a planned execution is inconsistent in itself. -/
def malformed (trade : PlannedTrade) : Bool :=
  trade.restingOrderId = 0 || trade.restingClientId = 0 || trade.executionPrice ≤ 0 ||
    trade.executionQuantity = 0 || trade.restingRemainingBefore = 0 ||
    trade.expectedRestingPriority = 0 ||
    trade.restingRemainingBefore < trade.executionQuantity ||
    trade.restingRemainingAfter ≠ trade.restingRemainingBefore - trade.executionQuantity ||
    (trade.restingRemainingAfter ≠ 0 && trade.aggressorRemaining ≠ 0)

/-- Whether the trades of a plan chain their quantities. -/
def validTrades : Option Quantity → List PlannedTrade → Option (Option Quantity)
  | previous, [] => some previous
  | previous, trade :: rest =>
    if malformed trade then none
    else
      match Word.checkedAdd trade.executionQuantity trade.aggressorRemaining with
      | none => none
      | some before =>
        if previous.any fun remaining => remaining ≠ before then none
        else validTrades (some trade.aggressorRemaining) rest

/-- Whether a plan is consistent in itself. -/
def validShape (plan : MatchPlan) : Bool :=
  plan.residualAgrees && !(plan.residualDisposition = .filled && plan.trades.isEmpty) &&
    match validTrades none plan.trades with
    | none => false
    | some none => true
    | some (some remaining) => remaining = plan.residualQuantity

/-- Whether the residual given to a projection is the plan's. -/
def validRestingResidual (plan : MatchPlan) (residual : Option ProjectedRestingResidual) : Bool :=
  if plan.residualDisposition ≠ .rest then residual.isNone
  else
    match residual with
    | none => false
    | some rested => 0 < rested.price && rested.quantity = plan.residualQuantity

/-- The quantity a plan starts from, unless it overflows. -/
def initialQuantity (plan : MatchPlan) : Option Quantity :=
  match plan.trades with
  | [] => some plan.residualQuantity
  | trade :: _ => Word.checkedAdd trade.executionQuantity trade.aggressorRemaining

/-- Whether a plan is one of a resting limit order. -/
def validForOrder (plan : MatchPlan) (order : NewOrder) : Bool :=
  plan.validShape && plan.initialQuantity = some order.quantity &&
    plan.trades.all (fun trade => order.crosses trade.executionPrice) &&
    plan.residualDisposition = (if plan.residualQuantity = 0 then .filled else .rest)

end MatchPlan

/-- Whether a replacement order fits the order it replaces. -/
def validReplaceOrder (book : InstrumentBook) (target : CancelProjectionTarget)
    (replacement : NewOrder) : Bool :=
  match book.find target.orderId with
  | none => false
  | some old =>
    replacement.validate = .none && replacement.instrumentId = book.instrumentId &&
      replacement.orderType = .limit && replacement.timeInForce = .gtc &&
      replacement.limitPrice.isSome && replacement.clientId = old.clientId &&
      replacement.side = target.side && replacement.orderId ≠ target.orderId &&
      (book.find replacement.orderId).isNone

/-- Whether a target still describes a resting order. -/
def matchesCancelTarget (book : InstrumentBook) (target : CancelProjectionTarget) : Bool :=
  if target.orderId = 0 || target.price ≤ 0 || target.remainingQuantity = 0 ||
      target.prioritySequence = 0 then false
  else
    match book.find target.orderId with
    | none => false
    | some node =>
      node.side = target.side && node.price = target.price &&
        node.remainingQuantity = target.remainingQuantity &&
        node.prioritySequence = target.prioritySequence

/-- Whether a planned execution is against a node of a level. -/
def matchesTrade (trade : PlannedTrade) (level : PriceLevel) (node : OrderNodeSpec) : Bool :=
  trade.restingOrderId = node.orderId && trade.restingClientId = node.clientId &&
    trade.executionPrice = level.price && trade.executionPrice = node.price &&
    trade.restingRemainingBefore = node.remainingQuantity &&
    trade.expectedRestingPriority = node.prioritySequence

/-- Where the projection of one level ends. -/
inductive LevelProjection
  /-- The level stays, with what is left of it. -/
  | remains (best : TopOfBookLevel)
  /-- Every order of the level is taken. -/
  | passed (trades : List PlannedTrade) (reduction : Quantity)
  deriving DecidableEq, Repr

/-- A level that stays after a reduction. -/
def remainingLevel (level : PriceLevel) (reduction : Quantity) :
    Except ExecutionProjectionError LevelProjection :=
  match Word.checkedSubtract level.aggregateQuantity reduction with
  | none => .error .aggregateUnderflow
  | some after =>
    if after = 0 then .error .planBookMismatch else .ok (.remains ⟨level.price, after⟩)

/-- What one execution adds to the reduction of its level. -/
def projectTrade (level : PriceLevel) (reduction : Quantity) (trade : PlannedTrade)
    (node : OrderNodeSpec) : Except ExecutionProjectionError Quantity :=
  if !matchesTrade trade level node then .error .planBookMismatch
  else
    match Word.checkedAdd reduction trade.executionQuantity with
    | none => .error .aggregateOverflow
    | some reduced =>
      if level.aggregateQuantity < reduced then .error .aggregateUnderflow else .ok reduced

/-- The level an execution leaves, which must be the last one. -/
def projectLast (level : PriceLevel) (reduction : Quantity) (trades : List PlannedTrade) :
    Except ExecutionProjectionError LevelProjection :=
  if !trades.isEmpty then .error .invalidPlan else remainingLevel level reduction

/-- Project the executions within one level. -/
def projectLevel (level : PriceLevel) : Quantity → List PlannedTrade → List OrderNodeSpec →
    Except ExecutionProjectionError LevelProjection
  | reduction, trades, [] => .ok (.passed trades reduction)
  | reduction, [], _ :: _ => remainingLevel level reduction
  | reduction, trade :: trades, node :: rest =>
    match projectTrade level reduction trade node with
    | .error error => .error error
    | .ok reduced =>
      if trade.restingRemainingAfter ≠ 0 then projectLast level reduced trades
      else projectLevel level reduced trades rest

/-- The best level of a side after a plan's executions. -/
def projectSideAfterTrades : List PlannedTrade → List (PriceLevel × List OrderNodeSpec) →
    Except ExecutionProjectionError (Option TopOfBookLevel)
  | trades, [] => if trades.isEmpty then .ok none else .error .planBookMismatch
  | trades, (level, nodes) :: rest =>
    match projectLevel level 0 trades nodes with
    | .error error => .error error
    | .ok (.remains best) => .ok (some best)
    | .ok (.passed trades reduction) =>
      match Word.checkedSubtract level.aggregateQuantity reduction with
      | none => .error .aggregateUnderflow
      | some after =>
        if after ≠ 0 then .error .planBookMismatch else projectSideAfterTrades trades rest

/-- The sum of a level once a residual rests on it. -/
def restedAggregate (existing : Option PriceLevel) (quantity : Quantity) :
    Except ExecutionProjectionError Quantity :=
  match existing with
  | none => .ok quantity
  | some level =>
    match Word.checkedAdd level.aggregateQuantity quantity with
    | none => .error .aggregateOverflow
    | some aggregate => .ok aggregate

/-- The level of a residual unless the best one is better. -/
def preferLevel (side : Side) (rested : TopOfBookLevel) (best : Option TopOfBookLevel) :
    TopOfBookLevel :=
  match best with
  | none => rested
  | some current =>
    if bestPriceFirst side rested.price current.price || rested.price = current.price then rested
    else current

/-- The best level of a side once a residual rests on it. -/
def applyRestingResidual (book : InstrumentBook) (side : Side)
    (residual : ProjectedRestingResidual) (best : Option TopOfBookLevel) :
    Except ExecutionProjectionError (Option TopOfBookLevel) :=
  match restedAggregate (book.findLevel side residual.price) residual.quantity with
  | .error error => .error error
  | .ok aggregate => .ok (some (preferLevel side ⟨residual.price, aggregate⟩ best))

/-- What a replacement leaves of one level. -/
def replacedAggregate (target : CancelProjectionTarget) (oldAfter : Quantity)
    (residual : Option (PriceTicks × Quantity)) (level : PriceLevel) : Quantity :=
  match residual with
  | some (price, residualAfter) =>
    if level.price = price then residualAfter
    else if level.price = target.price then oldAfter
    else level.aggregateQuantity
  | none => if level.price = target.price then oldAfter else level.aggregateQuantity

/-- The first level of a side that a replacement leaves. -/
def firstReplaced (book : InstrumentBook) (side : Side) (target : CancelProjectionTarget)
    (oldAfter : Quantity) (residual : Option (PriceTicks × Quantity)) : Option TopOfBookLevel :=
  ((book.side side).find? fun entry =>
      replacedAggregate target oldAfter residual entry.2 ≠ 0).map fun entry =>
    ⟨entry.2.price, replacedAggregate target oldAfter residual entry.2⟩

/-- The sum of a residual's level before it rests and after the target has left. -/
def replacedBefore (book : InstrumentBook) (side : Side) (target : CancelProjectionTarget)
    (oldAfter : Quantity) (price : PriceTicks) : Quantity :=
  if price = target.price then oldAfter
  else ((book.findLevel side price).map PriceLevel.aggregateQuantity).getD 0

/-- The better of the first level left and a level that a residual opens. -/
def openedLevel (book : InstrumentBook) (side : Side) (rested : TopOfBookLevel)
    (best : Option TopOfBookLevel) : Option TopOfBookLevel :=
  if (book.findLevel side rested.price).isNone &&
      best.all fun current => bestPriceFirst side rested.price current.price then some rested
  else best

/-- The best level of a side once an order has left it and a residual may rest on it. -/
def projectSideAfterReplace (book : InstrumentBook) (side : Side)
    (target : CancelProjectionTarget) (residual : Option ProjectedRestingResidual) :
    Except ExecutionProjectionError (Option TopOfBookLevel) :=
  match book.findLevel side target.price with
  | none => .error .cancelTargetMismatch
  | some oldLevel =>
    match Word.checkedSubtract oldLevel.aggregateQuantity target.remainingQuantity with
    | none => .error .aggregateUnderflow
    | some oldAfter =>
      match residual with
      | none => .ok (firstReplaced book side target oldAfter none)
      | some rested =>
        match Word.checkedAdd (replacedBefore book side target oldAfter rested.price)
            rested.quantity with
        | none => .error .aggregateOverflow
        | some after => .ok (openedLevel book side ⟨rested.price, after⟩
            (firstReplaced book side target oldAfter (some (rested.price, after))))

/-- The best level of a side once an order has left it. -/
def projectSideAfterCancel (book : InstrumentBook) (side : Side)
    (target : CancelProjectionTarget) (best : Option TopOfBookLevel) :
    Except ExecutionProjectionError (Option TopOfBookLevel) :=
  match book.findLevel side target.price with
  | none => .error .cancelTargetMismatch
  | some level =>
    match Word.checkedSubtract level.aggregateQuantity target.remainingQuantity with
    | none => .error .aggregateUnderflow
    | some after =>
      match best with
      | none => .ok none
      | some current =>
        if current.price ≠ target.price then .ok (some current)
        else if after ≠ 0 then .ok (some ⟨current.price, after⟩)
        else
          match book.side side with
          | [] => .error .cancelTargetMismatch
          | (_, first) :: rest =>
            if first.price ≠ target.price then .error .cancelTargetMismatch
            else .ok (rest.head?.map fun entry => snapshotLevel entry.2)

section Projections

variable (checks : Bool)

/-- The top of a book after a new order. -/
def projectNewTopOfBook (book : InstrumentBook) (aggressorSide : Side) (plan : MatchPlan)
    (residual : Option ProjectedRestingResidual) :
    Run (Except ExecutionProjectionError TopOfBookSnapshot) := do
  if !aggressorSide.isValid then return .error .invalidSide
  if !(← book.checkedInvariants checks) then return .error .bookInvariantViolation
  if !plan.validShape then return .error .invalidPlan
  if !plan.validRestingResidual residual then return .error .invalidRestingResidual
  let top := snapshotTopOfBook book
  return do
    let passive ← projectSideAfterTrades plan.trades (book.levels aggressorSide.opposite)
    let traded := top.setSide aggressorSide.opposite passive
    let projected ← match residual with
      | none => pure traded
      | some rested => do
        let own ← applyRestingResidual book aggressorSide rested (traded.side aggressorSide)
        pure (traded.setSide aggressorSide own)
    if projected.isCrossed then .error .crossedBook
    return projected

/-- The top of a book after a withdrawal. -/
def projectCancelTopOfBook (book : InstrumentBook) (target : CancelProjectionTarget) :
    Run (Except ExecutionProjectionError TopOfBookSnapshot) := do
  if !target.side.isValid then return .error .invalidSide
  if !(← book.checkedInvariants checks) then return .error .bookInvariantViolation
  if !matchesCancelTarget book target then return .error .cancelTargetMismatch
  let top := snapshotTopOfBook book
  return do
    let own ← projectSideAfterCancel book target.side target (top.side target.side)
    return top.setSide target.side own

/-- The top of a book after an exchange. -/
def projectReplaceTopOfBook (book : InstrumentBook) (target : CancelProjectionTarget)
    (replacement : NewOrder) (plan : MatchPlan) (residual : Option ProjectedRestingResidual) :
    Run (Except ExecutionProjectionError TopOfBookSnapshot) := do
  if !target.side.isValid || !replacement.side.isValid then return .error .invalidSide
  if !(← book.checkedInvariants checks) then return .error .bookInvariantViolation
  if !matchesCancelTarget book target then return .error .cancelTargetMismatch
  if !validReplaceOrder book target replacement then return .error .replacementOrderMismatch
  if !plan.validForOrder replacement then return .error .invalidPlan
  if !plan.validRestingResidual residual ||
      residual.any (fun rested => some rested.price ≠ replacement.limitPrice) then
    return .error .invalidRestingResidual
  let top := snapshotTopOfBook book
  return do
    let passive ← projectSideAfterTrades plan.trades (book.levels replacement.side.opposite)
    let own ← projectSideAfterReplace book replacement.side target residual
    let projected := (top.setSide replacement.side.opposite passive).setSide replacement.side own
    if projected.isCrossed then .error .crossedBook
    return projected

end Projections

end AtlasLob
