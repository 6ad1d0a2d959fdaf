import AtlasLob.Core.Engine
import AtlasLob.Spec.Matching

/-!
# The market

What the engine is for. A market is a ladder for each instrument and one command counter; a
command is judged once and either refused, or changes one ladder and reports the change. Nothing
here plans, projects, stages or indexes.
-/

namespace AtlasLob

open PriceLevel

namespace Ladder

/-- The best level of a side. -/
def best (levels : Levels) : Option TopOfBookLevel :=
  levels.head?.map fun entry => ⟨entry.1, aggregate entry.2⟩

/-- The top of a ladder. -/
def top (ladder : Ladder) : TopOfBookSnapshot := ⟨best ladder.bids, best ladder.asks⟩

/-- The orders an aggressor can reach. -/
def reach (ladder : Ladder) (order : NewOrder) : List OrderNodeSpec :=
  eligible order.crosses (ladder.side order.side.opposite)

/-- The executions of an aggressor. -/
def fills (ladder : Ladder) (order : NewOrder) : List Fill :=
  fillQueue order.quantity (ladder.reach order)

/-- What is left of an aggressor. -/
def left (ladder : Ladder) (order : NewOrder) : Quantity :=
  residual order.quantity (ladder.reach order)

/-- What becomes of it. -/
def disposition (ladder : Ladder) (order : NewOrder) : ResidualDisposition :=
  classifyResidual order (ladder.left order)

/-- The ladder without the executed quantities and the order an exchange removes. -/
def struck (ladder : Ladder) (order : NewOrder) (replaced : Option OrderNodeSpec) : Ladder :=
  ladder.revise (settle ((replaced.map removalOf).toList ++ ladder.fills order))

/-- The order that rests what is left. -/
def rested (ladder : Ladder) (order : NewOrder) (sequence : Sequence) : OrderNodeSpec :=
  ⟨order.orderId, order.clientId, order.instrumentId, order.side, order.limitPrice.getD 0,
    ladder.left order, sequence⟩

/-- The ladder after an aggressor. -/
def after (ladder : Ladder) (order : NewOrder) (replaced : Option OrderNodeSpec)
    (sequence : Sequence) : Ladder :=
  if ladder.disposition order = .rest then
    (ladder.struck order replaced).join (ladder.rested order sequence)
  else ladder.struck order replaced

/-- Whether the level of the residual would exceed a word. -/
def overflows (ladder : Ladder) (order : NewOrder) (replaced : Option OrderNodeSpec) : Bool :=
  ladder.disposition order = .rest &&
    2 ^ 64 ≤ total (((ladder.struck order replaced).side order.side).queueAt
      (order.limitPrice.getD 0)) + (ladder.left order).toNat

/-- The report of one execution. -/
def tradeEvent (order : NewOrder) (fill : Fill) : EventPayload :=
  .trade order.orderId fill.order.orderId order.clientId fill.order.clientId order.side
    fill.order.price fill.executed fill.aggressorRemaining
    (fill.order.remainingQuantity - fill.executed)

/-- The report of what is left of an aggressor. -/
def closingEvent (ladder : Ladder) (order : NewOrder) : EventPayload :=
  match ladder.disposition order with
  | .rest => .rested order.orderId order.clientId order.side (order.limitPrice.getD 0)
      (ladder.left order)
  | .filled => .done order.orderId .filled (ladder.left order)
  | .iocCanceled => .done order.orderId .iocResidualCanceled (ladder.left order)
  | .marketExhausted => .done order.orderId .marketExhausted (ladder.left order)

/-- The report of a changed top. -/
def changeEvents (before after : Ladder) : List EventPayload :=
  if before.top = after.top then [] else [.bookChanged after.top.bestBid after.top.bestAsk]

/-- The report of an aggressor. -/
def report (ladder : Ladder) (order : NewOrder) (replaced : Option OrderNodeSpec)
    (sequence : Sequence) (opening : List EventPayload) : List EventPayload :=
  opening ++ (ladder.fills order).map (tradeEvent order) ++ [ladder.closingEvent order] ++
    changeEvents ladder (ladder.after order replaced sequence)

/-- The ladder after a withdrawal. -/
def without (ladder : Ladder) (old : OrderNodeSpec) : Ladder :=
  ladder.revise (settle [removalOf old])

/-- The report of a withdrawal. -/
def withdrawalReport (ladder : Ladder) (old : OrderNodeSpec) : List EventPayload :=
  [.accepted .cancel, .canceled old.orderId old.remainingQuantity,
    .done old.orderId .canceled old.remainingQuantity] ++ changeEvents ladder (ladder.without old)

end Ladder

/-- One instrument: its limits and its ladder. -/
structure Desk where
  config : InstrumentConfig
  ladder : Ladder
  deriving DecidableEq

/-- Every instrument with one command counter. -/
structure Market where
  config : MultiInstrumentEngineConfig
  /-- The desks in ascending order of their instruments. -/
  books : List (InstrumentId × Desk)
  sequencer : CommandSequencer
  deriving DecidableEq

/-- What becomes of a command: a refusal, or a new ladder for its instrument with a report. -/
inductive Verdict
  | refuse (decision : ValidationDecision)
  | accept (ladder : Ladder) (report : List EventPayload)
  deriving DecidableEq

namespace Market

/-- Every resting order. -/
def orders (market : Market) : List OrderNodeSpec :=
  market.books.flatMap fun entry => entry.2.ladder.orders

/-- The resting order of an ID. -/
def find (market : Market) (orderId : OrderId) : Option OrderNodeSpec :=
  market.orders.find? fun order => order.orderId = orderId

/-- The desk of an instrument. -/
def desk (market : Market) (instrument : InstrumentId) : Option Desk :=
  SortedMap.find? instrument market.books

/-- Exchange the ladder of an instrument. -/
def setLadder (market : Market) (instrument : InstrumentId) (desk : Desk) (ladder : Ladder) :
    Market :=
  { market with books := SortedMap.set instrument { desk with ladder := ladder } market.books }

/-- Issue one sequence. -/
def advance (market : Market) : Market := { market with sequencer := market.sequencer.issue.1 }

/-- The refusals of a command by its desk's limits and the resting orders. -/
def decision (market : Market) (command : Command) (desk : Desk) : ValidationDecision :=
  match command with
  | .newOrder order =>
    if desk.config.matching.maxOrderQuantity < order.quantity then
      .reject .quantityOutOfRange order.orderId
    else if order.orderType = .limit && order.limitPrice.any
        (fun price => !isTickAligned price desk.config.matching.tickIncrement) then
      .reject .invalidTick order.orderId
    else if (market.find order.orderId).isSome then .reject .duplicateOrderId order.orderId
    else .accept
  | .cancel order =>
    validateOwner (market.find order.orderId) order.clientId order.instrumentId order.orderId
  | .replace order =>
    if desk.config.matching.maxOrderQuantity < order.newQuantity then
      .reject .quantityOutOfRange order.newOrderId
    else if !isTickAligned order.newLimitPrice desk.config.matching.tickIncrement then
      .reject .invalidTick order.newOrderId
    else
      let owner := validateOwner (market.find order.oldOrderId) order.clientId order.instrumentId
        order.oldOrderId
      if !owner.accepted then owner
      else if (market.find order.newOrderId).isSome then
        .reject .invalidReplacementId order.newOrderId
      else .accept

/-- Whether a ladder would break a limit of its desk or of the market. -/
def exceeds (market : Market) (desk : Desk) (ladder : Ladder) : Bool :=
  desk.config.matching.maxActiveOrders.toNat < ladder.orders.length ||
    market.config.maxTotalActiveOrders.toNat + desk.ladder.orders.length <
      market.orders.length + ladder.orders.length

/-- The verdict on an aggressor. -/
def judgeAggressor (market : Market) (desk : Desk) (order : NewOrder)
    (replaced : Option OrderNodeSpec) (opening : List EventPayload) : Verdict :=
  let sequence := market.sequencer.nextSequence
  if market.exceeds desk (desk.ladder.after order replaced sequence) ||
      desk.ladder.overflows order replaced then
    .refuse (.reject .capacityExceeded order.orderId)
  else .accept (desk.ladder.after order replaced sequence)
    (desk.ladder.report order replaced sequence opening)

/-- The verdict on a command that its desk does not refuse. -/
def judgeAdmitted (market : Market) (command : Command) (desk : Desk) : Verdict :=
  match command with
  | .newOrder order => market.judgeAggressor desk order none newOpening
  | .cancel order =>
    match desk.ladder.find order.orderId with
    | none => .refuse (.reject .unknownOrderId order.orderId)
    | some old => .accept (desk.ladder.without old) (desk.ladder.withdrawalReport old)
  | .replace order =>
    match desk.ladder.find order.oldOrderId with
    | none => .refuse (.reject .unknownOrderId order.oldOrderId)
    | some old =>
      market.judgeAggressor desk (CommandExecutor.replacementOf old order) (some old)
        (replaceOpening order.oldOrderId order.newOrderId old.remainingQuantity)

/-- The verdict on a command at a desk. -/
def judgeAt (market : Market) (command : Command) (desk : Desk) : Verdict :=
  if !(market.decision command desk).accepted then .refuse (market.decision command desk)
  else market.judgeAdmitted command desk

/-- The verdict on a command. -/
def judge (market : Market) (command : Command) : Verdict :=
  if !(MultiInstrumentEngine.shapeDecision command).accepted then
    .refuse (MultiInstrumentEngine.shapeDecision command)
  else
    match market.desk command.instrumentId with
    | none => .refuse (.reject .unknownInstrument (MultiInstrumentEngine.routedOrderId command))
    | some desk => market.judgeAt command desk

/-- The events of a command, or why there are none. -/
abbrev Reply := Except EngineError (List Event)

/-- The events of a refusal. -/
def refusal (sequence : Sequence) (command : Command) (decision : ValidationDecision) :
    List Event :=
  numberEvents sequence command.instrumentId 0
    [.rejected command.commandType decision.reason decision.relevantOrderId]

/-- Exchange the ladder of a command's instrument. -/
def withLadder (market : Market) (instrument : InstrumentId) (ladder : Ladder) : Market :=
  match market.desk instrument with
  | none => market
  | some desk => market.setLadder instrument desk ladder

/-- Execute a command. A report too long for its event indices leaves the market as it is. -/
def step (market : Market) (command : Command) : Market × Reply :=
  if market.sequencer.exhausted then (market, .error .sequenceExhausted)
  else
    match market.judge command with
    | .refuse decision =>
      (market.advance, .ok (refusal market.sequencer.nextSequence command decision))
    | .accept ladder report =>
      if 2 ^ 32 < report.length then (market, .error .internalFailure)
      else ((market.withLadder command.instrumentId ladder).advance,
        .ok (numberEvents market.sequencer.nextSequence command.instrumentId 0 report))

/-- Execute commands one after another. -/
def run (market : Market) : List Command → Market × List Reply
  | [] => (market, [])
  | command :: rest =>
    let next := market.step command
    let later := run next.1 rest
    (later.1, next.2 :: later.2)

/-- Open a desk for every instrument of a catalog. -/
def openingBooks (books : List (InstrumentId × Desk)) :
    List InstrumentConfig → List (InstrumentId × Desk)
  | [] => books
  | instrument :: rest => openingBooks
      (SortedMap.insert instrumentBefore instrument.instrumentId ⟨instrument, .empty⟩ books) rest

/-- The market of a catalog before the first command. -/
def opening (catalog : List InstrumentConfig) (config : MultiInstrumentEngineConfig) : Market where
  config := config
  books := openingBooks [] catalog
  sequencer := .initial

/-- The snapshot of one side. -/
def snapshotLevels (levels : Levels) : List PriceLevelSnapshot :=
  levels.map fun entry => ⟨entry.1, aggregate entry.2, entry.2.map snapshotOrder⟩

/-- The snapshot of one desk. -/
def snapshotDesk (instrument : InstrumentId) (desk : Desk) : InstrumentSnapshot :=
  ⟨instrument, UInt64.ofNat desk.ladder.orders.length, snapshotLevels desk.ladder.bids,
    snapshotLevels desk.ladder.asks⟩

/-- The snapshot of a market. -/
def snapshot (market : Market) : EngineSnapshot where
  semanticsVersion := atlaslobSemanticsVersion
  engineConfig := market.config
  catalog := market.books.map fun entry => entry.2.config
  lastSequence := snapshotLastSequence market.sequencer
  sequenceExhausted := market.sequencer.exhausted
  activeOrderCount := UInt64.ofNat market.orders.length
  instruments := market.books.map fun entry => snapshotDesk entry.1 entry.2

end Market

end AtlasLob
