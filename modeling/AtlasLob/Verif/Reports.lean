import AtlasLob.Spec.Outcome
import AtlasLob.Verif.Runs
import AtlasLob.Verif.PriceTime

/-!
# What a batch reports

Every batch of a reached engine has one of four shapes. The trades of an aggressor count its
quantity down to what the closing event reports, a change of the top is reported exactly when the
book's own top changes, and the batch has as many events as were reserved for it before the first
one was appended.
-/

namespace AtlasLob

open PriceLevel

/-- The trades of an aggressor, from a quantity down to what is left of it: every trade but the
last takes all of its resting order. -/
inductive TradeRun (order : NewOrder) : Quantity → List EventPayload → Quantity → Prop
  | settled (quantity : Quantity) : TradeRun order quantity [] quantity
  | traded {quantity executed restingRemaining left : Quantity} {restingId : OrderId}
      {restingClient : ClientId} {price : PriceTicks} {later : List EventPayload}
      (positive : executed ≠ 0) (covered : executed ≤ quantity)
      (whole : later = [] ∨ restingRemaining = 0)
      (rest : TradeRun order (quantity - executed) later left) :
      TradeRun order quantity
        (.trade order.orderId restingId order.clientId restingClient order.side price executed
          (quantity - executed) restingRemaining :: later) left

/-- The event that closes an aggressor reports what is left of it. -/
inductive Closes (order : NewOrder) (left : Quantity) : EventPayload → Prop
  | rested {price : PriceTicks} (limit : order.limitPrice = some price) (remains : left ≠ 0) :
      Closes order left (.rested order.orderId order.clientId order.side price left)
  | done {reason : DoneReason} (filled : reason = .filled ↔ left = 0) :
      Closes order left (.done order.orderId reason left)

/-- The event of a changed top, and none for an unchanged one. -/
def topEvents (before after : TopOfBookSnapshot) : List EventPayload :=
  if before = after then [] else [.bookChanged after.bestBid after.bestAsk]

variable (checks : Bool)

/-- The payloads a book reports for a command, with the number of events reserved for them. -/
inductive Reported (book : Option InstrumentBook) : Command → List EventPayload → Nat → Prop
  | rejected (command : Command) (reason : RejectReason) (orderId : Option OrderId) :
      Reported book command [.rejected command.commandType reason orderId] 1
  | new {order : NewOrder} {target : InstrumentBook} {plan : MatchPlan} {reserved : Nat}
      {residual : Option ProjectedRestingResidual} {top : TopOfBookSnapshot}
      {trades : List EventPayload} {closing : EventPayload} (found : book = some target)
      (planned : planMatches checks order target = .ok (.ok plan))
      (projects : projectedResidual order plan = .ok residual)
      (projected : CommandExecutor.projectTop checks target order none plan residual =
        .ok (.ok top))
      (counted : checkedEventCount 2 plan.trades.length (snapshotTopOfBook target ≠ top) =
        some reserved)
      (runs : TradeRun order order.quantity trades plan.residualQuantity)
      (closes : Closes order plan.residualQuantity closing) :
      Reported book (.newOrder order) ([.accepted .newOrder] ++ trades ++ [closing] ++
        topEvents (snapshotTopOfBook target) top) reserved
  | cancel {order : CancelOrder} {target : InstrumentBook} {old : OrderNodeSpec}
      {top : TopOfBookSnapshot} (found : book = some target)
      (rests : target.find order.orderId = some old)
      (projected : projectCancelTopOfBook checks target (makeCancelProjectionTarget old) =
        .ok (.ok top)) :
      Reported book (.cancel order) ([.accepted .cancel,
        .canceled order.orderId old.remainingQuantity,
        .done order.orderId .canceled old.remainingQuantity] ++
          topEvents (snapshotTopOfBook target) top)
        (3 + if snapshotTopOfBook target ≠ top then 1 else 0)
  | replace {order : ReplaceOrder} {target : InstrumentBook} {old : OrderNodeSpec}
      {plan : MatchPlan} {reserved : Nat} {residual : Option ProjectedRestingResidual}
      {top : TopOfBookSnapshot} {trades : List EventPayload} {closing : EventPayload}
      (found : book = some target) (rests : target.find order.oldOrderId = some old)
      (planned : planMatches checks (CommandExecutor.replacementOf old order) target =
        .ok (.ok plan))
      (projects : projectedResidual (CommandExecutor.replacementOf old order) plan = .ok residual)
      (projected : CommandExecutor.projectTop checks target
        (CommandExecutor.replacementOf old order) (some old) plan residual = .ok (.ok top))
      (counted : checkedEventCount 5 plan.trades.length (snapshotTopOfBook target ≠ top) =
        some reserved)
      (runs : TradeRun (CommandExecutor.replacementOf old order) order.newQuantity trades
        plan.residualQuantity)
      (closes : Closes (CommandExecutor.replacementOf old order) plan.residualQuantity closing) :
      Reported book (.replace order) ([.accepted .replace,
        .replaced order.oldOrderId order.newOrderId,
        .canceled order.oldOrderId old.remainingQuantity,
        .done order.oldOrderId .replaced old.remainingQuantity] ++ trades ++ [closing] ++
          topEvents (snapshotTopOfBook target) top) reserved

/-- The executions of a queue count the quantity down. -/
theorem tradeRun_fillQueue (order : NewOrder) {quantity : Quantity} {orders : List OrderNodeSpec}
    (unfilled : ∀ resting ∈ orders, resting.remainingQuantity ≠ 0) :
    TradeRun order quantity ((fillQueue quantity orders).map (Ladder.tradeEvent order))
      (residual quantity orders) := by
  induction orders generalizing quantity with
  | nil => exact .settled quantity
  | cons resting rest ih =>
    have unspent : ∀ other ∈ rest, other.remainingQuantity ≠ 0 :=
      fun other inside => unfilled other (List.mem_cons_of_mem _ inside)
    have later := @ih (quantity - min quantity resting.remainingQuantity) unspent
    rw [fillQueue, residual]
    by_cases zero : quantity = 0
    · subst zero
      have none : (0 : Quantity) - min 0 resting.remainingQuantity = 0 := by
        rw [Word.eq_zero_iff, Word.toNat_sub_min]
        simp
      rw [if_pos rfl, none, residual_zero]
      exact .settled 0
    · rw [if_neg zero, List.map_cons]
      refine .traded (Word.min_ne_zero zero (unfilled resting (by simp))) ?_ ?_ later
      · rw [UInt64.le_iff_toNat_le, Word.toNat_min]
        omega
      · by_cases left : quantity - min quantity resting.remainingQuantity = 0
        · rw [left, fillQueue_zero]
          exact Or.inl rfl
        · exact Or.inr (covered_of_left left)

namespace Aggresses

variable {instrument : InstrumentId} {ladder : Ladder} {order : NewOrder}
  {replaced : Option OrderNodeSpec} {sequence : Sequence}

/-- The closing event of an aggressor reports what is left of it. -/
theorem closes (aggresses : Aggresses instrument ladder order replaced sequence) :
    Closes order (ladder.left order) (ladder.closingEvent order) := by
  rw [Ladder.closingEvent]
  cases disposed : ladder.disposition order with
  | rest =>
    obtain ⟨unfilled, price, -, given, -⟩ := aggresses.rest_terms disposed
    simp only [given, Option.getD_some]
    exact .rested given unfilled
  | filled =>
    refine .done ⟨fun _ => ?_, fun _ => rfl⟩
    by_contra remains
    rw [Ladder.disposition, classifyResidual, if_neg remains] at disposed
    split_ifs at disposed
  | iocCanceled =>
    refine .done (iff_of_false (by decide) fun zero => ?_)
    rw [Ladder.disposition, classifyResidual, if_pos zero] at disposed
    cases disposed
  | marketExhausted =>
    refine .done (iff_of_false (by decide) fun zero => ?_)
    rw [Ladder.disposition, classifyResidual, if_pos zero] at disposed
    cases disposed

/-- The trades of an aggressor count its quantity down. -/
theorem tradeRun (aggresses : Aggresses instrument ladder order replaced sequence) :
    TradeRun order order.quantity ((ladder.fills order).map (Ladder.tradeEvent order))
      (ladder.left order) :=
  tradeRun_fillQueue order fun _ inside => aggresses.toMeets.unfilled (mem_reach inside)

end Aggresses

namespace Represents

variable {instrument : InstrumentId} {book : InstrumentBook} {ladder : Ladder} {order : NewOrder}
  {replaced : Option OrderNodeSpec} {sequence : Sequence}

/-- The reported top of a changed ladder. -/
theorem topEvents (represents : Represents instrument book ladder none) (after : Ladder) :
    AtlasLob.topEvents (AtlasLob.snapshotTopOfBook book) after.top =
      Ladder.changeEvents ladder after := by
  rw [AtlasLob.topEvents, represents.snapshotTopOfBook, Ladder.changeEvents]

/-- The events reserved for an aggressor are those of its report. -/
theorem reservedCount (represents : Represents instrument book ladder none)
    {opening : List EventPayload} (small : opening.length + 1 < 2 ^ 32)
    (short : (ladder.report order replaced sequence opening).length ≤ 2 ^ 32) :
    checkedEventCount (opening.length + 1) (planOf ladder order).trades.length
        (AtlasLob.snapshotTopOfBook book ≠ (ladder.after order replaced sequence).top) =
      some (ladder.report order replaced sequence opening).length := by
  rw [Aggresses.report_length] at short ⊢
  rw [represents.snapshotTopOfBook, checkedEventCount_eq _ _ (by omega) small,
    if_neg (Nat.not_lt.mpr short)]

/-- A new order that is not refused is reported. -/
theorem reported_aggressor (represents : Represents instrument book ladder none)
    {command : Command} {opening : List EventPayload}
    (submits : Submits command order replaced opening)
    (aggresses : Aggresses instrument ladder order replaced sequence)
    (fits : ladder.overflows order replaced = false)
    (short : (ladder.report order replaced sequence opening).length ≤ 2 ^ 32) :
    Reported checks (some book) command (ladder.report order replaced sequence opening)
      (ladder.report order replaced sequence opening).length := by
  have top := represents.projectTop checks aggresses
  rw [fits, if_neg Bool.false_ne_true] at top
  have plan := represents.planMatches checks aggresses.toMeets
  have runs := aggresses.tradeRun
  have closes := aggresses.closes
  have residual := aggresses.projectedResidual
  have left := planOf_residualQuantity ladder order
  rw [← left] at runs closes
  have shape : ladder.report order replaced sequence opening = opening ++
      (ladder.fills order).map (Ladder.tradeEvent order) ++ [ladder.closingEvent order] ++
        AtlasLob.topEvents (AtlasLob.snapshotTopOfBook book)
          (ladder.after order replaced sequence).top := by
    rw [represents.topEvents, Ladder.report]
  cases submits with
  | new =>
    have counted := represents.reservedCount (by decide) short
    rw [shape] at counted ⊢
    exact .new rfl plan residual top counted runs closes
  | exchange exchanged old named owned routed =>
    have rests : book.find exchanged.oldOrderId = some old := by
      rw [represents.find]
      exact aggresses.valid.find_eq_some_iff.mpr ⟨(aggresses.replaces old rfl).1, named⟩
    have small : (replaceOpening exchanged.oldOrderId exchanged.newOrderId
        old.remainingQuantity).length + 1 < 2 ^ 32 := by
      rw [replaceOpening]
      simp
    have counted := represents.reservedCount small short
    rw [shape] at counted ⊢
    exact .replace rfl rests plan residual top counted runs closes

/-- A withdrawal is reported. -/
theorem reported_withdrawal (represents : Represents instrument book ladder none)
    {order : CancelOrder} {old : OrderNodeSpec} (member : old ∈ ladder.orders)
    (named : old.orderId = order.orderId) :
    Reported checks (some book) (.cancel order) (ladder.withdrawalReport old)
      (ladder.withdrawalReport old).length := by
  have rests : book.find order.orderId = some old := by
    rw [represents.find]
    exact represents.valid.find_eq_some_iff.mpr ⟨member, named⟩
  have top := represents.projectCancelTopOfBook checks member
  have shape : ladder.withdrawalReport old = [.accepted .cancel,
      .canceled order.orderId old.remainingQuantity,
      .done order.orderId .canceled old.remainingQuantity] ++
        AtlasLob.topEvents (AtlasLob.snapshotTopOfBook book) (ladder.without old).top := by
    rw [represents.topEvents, Ladder.withdrawalReport, named]
  have counted : (ladder.withdrawalReport old).length =
      3 + if AtlasLob.snapshotTopOfBook book ≠ (ladder.without old).top then 1 else 0 := by
    rw [shape, AtlasLob.topEvents]
    by_cases same : AtlasLob.snapshotTopOfBook book = (ladder.without old).top
    · simp [same]
    · simp [same]
  rw [counted, shape]
  exact .cancel rfl rests top

end Represents

/-- Numbered events carry their own positions. -/
theorem numberEvents_header {sequence : Sequence} {instrument : InstrumentId}
    {payloads : List EventPayload} {first index : Nat} {event : Event}
    (fits : first + payloads.length ≤ 2 ^ 32)
    (found : (numberEvents sequence instrument first payloads)[index]? = some event) :
    event.header.commandSequence = sequence ∧ event.header.instrumentId = instrument ∧
      event.header.eventIndex.toNat = first + index := by
  induction payloads generalizing first index with
  | nil => cases found
  | cons payload rest ih =>
    rw [List.length_cons] at fits
    cases index with
    | zero =>
      rw [numberEvents, List.getElem?_cons_zero, Option.some.injEq] at found
      subst found
      exact ⟨rfl, rfl, UInt32.toNat_ofNat_of_lt' (by simp [UInt32.size]; omega)⟩
    | succ index =>
      rw [numberEvents, List.getElem?_cons_succ] at found
      obtain ⟨issued, routed, position⟩ := ih (by omega) found
      exact ⟨issued, routed, by omega⟩

/-- What a batch reports: its payloads have one of the four shapes, as many of them as were
reserved, and its headers count the positions of one command. -/
structure BatchReports (engine : MultiInstrumentEngine) (command : Command) (batch : EventBatch) :
    Prop where
  shape : Reported checks ((engine.findBook command.instrumentId).map BookEntry.book) command
    (batch.events.map Event.payload) batch.events.length
  headers : ∀ (index : Nat) (event : Event), batch.events[index]? = some event →
    event.header.commandSequence = engine.sequencer.nextSequence ∧
      event.header.instrumentId = command.instrumentId ∧
      event.header.eventIndex.toNat = index

namespace Stands

variable {engine : MultiInstrumentEngine} {market : Market} {command : Command}

/-- A batch of numbered payloads reports them. -/
theorem batchReports (stands : Stands engine market false none) {batch : EventBatch}
    {payloads : List EventPayload} (events : batch.events = numberEvents
      market.sequencer.nextSequence command.instrumentId 0 payloads)
    (fits : payloads.length ≤ 2 ^ 32)
    (shape : Reported checks ((engine.findBook command.instrumentId).map BookEntry.book) command
      payloads payloads.length) : BatchReports checks engine command batch where
  shape := by
    rw [events, numberEvents_payloads, numberEvents_length]
    exact shape
  headers index event found := by
    rw [events] at found
    have header := numberEvents_header (by omega) found
    rw [Nat.zero_add] at header
    rw [stands.sequencer]
    exact header

/-- What a reply of the market reports. -/
theorem reports (stands : Stands engine market false none) {after : Market}
    {events : List Event} {batch : EventBatch} (outcome : Outcome market command after (.ok events))
    (same : batch.events = events) : BatchReports checks engine command batch := by
  cases outcome with
  | refused unspent judged =>
    exact stands.batchReports checks same (by simp) (.rejected command _ _)
  | aggressor unspent found submits aggresses fresh fits judged short =>
    obtain ⟨entry, book, agrees⟩ := stands.findBook found
    refine stands.batchReports checks same short ?_
    rw [book]
    exact Represents.reported_aggressor checks agrees.represents submits aggresses fits short
  | withdrawal withdraws unspent found member named owned judged =>
    obtain ⟨entry, book, agrees⟩ := stands.findBook found
    have few := withdrawalReport_length
    refine stands.batchReports checks same (le_trans (few _ _) (by decide)) ?_
    subst withdraws
    rw [book]
    exact Represents.reported_withdrawal checks agrees.represents member named

end Stands

variable {catalog : List InstrumentConfig} {config : MultiInstrumentEngineConfig}
  {engine : MultiInstrumentEngine}

/-- Every command on a reached engine reports a batch of its shape, unless the counter is spent or
the trades of its plan cannot be indexed. -/
theorem execute_reports (reaches : Reaches checks catalog config engine) (command : Command) :
    ∃ next result, engine.execute checks command = .ok (next, result) ∧
      ((∃ batch, result = .success batch ∧ BatchReports checks engine command batch) ∨
        (engine.sequencer.exhausted = true ∧ result = .failure .sequenceExhausted) ∨
        (¬ PlanFits checks engine command ∧ result = .failure .internalFailure)) := by
  obtain ⟨commands, stands⟩ := reaches.stands
  obtain ⟨next, result, executed, -, replied⟩ := stands.execute checks command
  refine ⟨next, result, executed, ?_⟩
  have outcome := stands.valid.outcome command
  rw [← replied] at outcome
  cases result with
  | success batch => exact Or.inl ⟨batch, rfl, stands.reports checks outcome rfl⟩
  | failure error =>
    right
    rw [EngineResult.reply] at replied outcome
    generalize (((Market.opening catalog config).run commands).1.step command).1 = after at outcome
    cases outcome with
    | spent spent => exact Or.inl ⟨stands.sequencer ▸ spent, rfl⟩
    | overlong unspent =>
      refine Or.inr ⟨fun fits => ?_, rfl⟩
      obtain ⟨events, ok, -⟩ := stands.step_replies checks unspent fits
      rw [← replied] at ok
      cases ok

/-- Every command of the session reports a batch of its shape: two submissions that rest, one that
trades, an exchange and a withdrawal. -/
theorem execute_reports_session :
    sessionReports.length = 5 ∧ ∀ count < 5, ∃ engine results command next batch,
      sessionCommands[count]? = some command ∧
      (singleEngine ⟨1, ⟨100, 5, 3⟩⟩ ⟨2⟩).run true (sessionCommands.take count) =
        .ok (engine, results) ∧
      engine.execute true command = .ok (next, .success batch) ∧
      sessionReports[count]? = some batch.events ∧ BatchReports true engine command batch := by
  refine ⟨rfl, fun count inside => ?_⟩
  obtain ⟨engine, results, command, next, batch, named, ran, reaches, stands, executed, reported⟩ :=
    session_step inside
  obtain ⟨unspent, fits⟩ := session_moderate inside stands command
  obtain ⟨again, result, executes, cases⟩ := execute_reports true reaches command
  rw [executed, Except.ok.injEq, Prod.mk.injEq] at executes
  obtain ⟨rfl, rfl⟩ := executes
  rcases cases with ⟨other, same, reports⟩ | ⟨spent, -⟩ | ⟨long, -⟩
  · rw [EngineResult.success.injEq] at same
    subst same
    exact ⟨engine, results, command, next, batch, named, ran, executed, reported, reports⟩
  · rw [unspent] at spent
    cases spent
  · exact absurd fits long

/-- The top a command's projection predicts from the book before it. -/
def ProjectsTop (book : InstrumentBook) (command : Command) (top : TopOfBookSnapshot) : Prop :=
  match command with
  | .newOrder order => ∃ plan residual, planMatches checks order book = .ok (.ok plan) ∧
      projectedResidual order plan = .ok residual ∧
      projectNewTopOfBook checks book order.side plan residual = .ok (.ok top)
  | .cancel order => ∃ old, book.find order.orderId = some old ∧
      projectCancelTopOfBook checks book (makeCancelProjectionTarget old) = .ok (.ok top)
  | .replace order => ∃ old plan residual, book.find order.oldOrderId = some old ∧
      planMatches checks (CommandExecutor.replacementOf old order) book = .ok (.ok plan) ∧
      projectedResidual (CommandExecutor.replacementOf old order) plan = .ok residual ∧
      projectReplaceTopOfBook checks book (makeCancelProjectionTarget old)
        (CommandExecutor.replacementOf old order) plan residual = .ok (.ok top)

/-- How the top of a book changes with an accepted command: the change is reported exactly when
there is one, with the top after it, which is the projected one. -/
structure TopReported (before after : InstrumentBook) (command : Command) (batch : EventBatch) :
    Prop where
  reported : ∀ bid ask, .bookChanged bid ask ∈ batch.events.map Event.payload ↔
    snapshotTopOfBook before ≠ snapshotTopOfBook after ∧ ⟨bid, ask⟩ = snapshotTopOfBook after
  predicted : ProjectsTop checks before command (snapshotTopOfBook after)

/-- The events of a changed top. -/
theorem mem_changeEvents {before after : Ladder} {bid ask : Option TopOfBookLevel} :
    .bookChanged bid ask ∈ Ladder.changeEvents before after ↔
      before.top ≠ after.top ∧ ⟨bid, ask⟩ = after.top := by
  rw [Ladder.changeEvents]
  by_cases same : before.top = after.top
  · simp [same]
  · rw [if_neg same, List.mem_singleton, EventPayload.bookChanged.injEq]
    constructor
    · rintro ⟨rfl, rfl⟩
      exact ⟨same, rfl⟩
    · rintro ⟨-, top⟩
      rw [← top]
      exact ⟨rfl, rfl⟩

/-- An aggressor reports a changed top only at the end. -/
theorem Submits.mem_report {command : Command} {order : NewOrder} {replaced : Option OrderNodeSpec}
    {opening : List EventPayload} (submits : Submits command order replaced opening)
    (ladder : Ladder) (sequence : Sequence) {bid ask : Option TopOfBookLevel} :
    .bookChanged bid ask ∈ ladder.report order replaced sequence opening ↔
      ladder.top ≠ (ladder.after order replaced sequence).top ∧
        ⟨bid, ask⟩ = (ladder.after order replaced sequence).top := by
  have opens : .bookChanged bid ask ∉ opening := by
    cases submits <;> simp [newOpening, replaceOpening]
  have trades : .bookChanged bid ask ∉ (ladder.fills order).map (Ladder.tradeEvent order) := by
    simp [Ladder.tradeEvent]
  have closes : .bookChanged bid ask ≠ ladder.closingEvent order := by
    rw [Ladder.closingEvent]
    cases ladder.disposition order <;> simp
  rw [Ladder.report, List.mem_append, List.mem_append, List.mem_append, List.mem_singleton,
    mem_changeEvents]
  simp only [opens, trades, closes, false_or]

/-- So does a withdrawal. -/
theorem mem_withdrawalReport (ladder : Ladder) (old : OrderNodeSpec)
    {bid ask : Option TopOfBookLevel} :
    .bookChanged bid ask ∈ ladder.withdrawalReport old ↔
      ladder.top ≠ (ladder.without old).top ∧ ⟨bid, ask⟩ = (ladder.without old).top := by
  rw [Ladder.withdrawalReport, List.mem_append, mem_changeEvents]
  simp

/-- The desk of an exchanged ladder. -/
theorem Market.desk_setLadder {market : Market} {instrument : InstrumentId} {desk : Desk}
    (found : market.desk instrument = some desk) (ladder : Ladder) :
    (market.setLadder instrument desk ladder).advance.desk instrument =
      some { desk with ladder := ladder } := by
  rw [Market.desk, Market.advance, Market.setLadder, SortedMap.find?_set found, if_pos rfl]

namespace Stands

variable {engine next : MultiInstrumentEngine} {market : Market} {command : Command}

/-- The books before and after an exchanged ladder. -/
theorem findBooks (stands : Stands engine market false none) {desk : Desk} {ladder : Ladder}
    (found : market.desk command.instrumentId = some desk)
    (changed : Stands next (market.setLadder command.instrumentId desk ladder).advance false none) :
    ∃ entry settled, engine.findBook command.instrumentId = some entry ∧
      next.findBook command.instrumentId = some settled ∧
      Represents command.instrumentId entry.book desk.ladder none ∧
      Represents command.instrumentId settled.book ladder none := by
  obtain ⟨entry, book, agrees⟩ := stands.findBook found
  obtain ⟨settled, later, holds⟩ := changed.findBook (Market.desk_setLadder found ladder)
  exact ⟨entry, settled, book, later, agrees.represents, holds.represents⟩

/-- How an accepted command reports the top. -/
theorem topReported (stands : Stands engine market false none) {after : Market}
    {events : List Event} {batch : EventBatch} (outcome : Outcome market command after (.ok events))
    (changed : Stands next after false none) (same : batch.events = events)
    (accepted : batch.accepted = true) :
    ∃ entry settled, engine.findBook command.instrumentId = some entry ∧
      next.findBook command.instrumentId = some settled ∧
      TopReported checks entry.book settled.book command batch := by
  cases outcome with
  | refused unspent judged =>
    rw [EventBatch.accepted, same] at accepted
    cases accepted
  | aggressor unspent found submits aggresses fresh fits judged short =>
    obtain ⟨entry, settled, book, later, before, holds⟩ := stands.findBooks found changed
    refine ⟨entry, settled, book, later, ?_, ?_⟩
    · intro bid ask
      rw [same, numberEvents_payloads, submits.mem_report, before.snapshotTopOfBook,
        holds.snapshotTopOfBook]
    · have top := before.projectTop checks aggresses
      rw [fits, if_neg Bool.false_ne_true] at top
      have plan := before.planMatches checks aggresses.toMeets
      have residual := aggresses.projectedResidual
      rw [holds.snapshotTopOfBook]
      cases submits with
      | new => exact ⟨_, _, plan, residual, top⟩
      | exchange exchanged old named owned routed =>
        refine ⟨old, _, _, ?_, plan, residual, top⟩
        rw [before.find]
        exact aggresses.valid.find_eq_some_iff.mpr ⟨(aggresses.replaces old rfl).1, named⟩
  | withdrawal withdraws unspent found member named owned judged =>
    obtain ⟨entry, settled, book, later, before, holds⟩ := stands.findBooks found changed
    refine ⟨entry, settled, book, later, ?_, ?_⟩
    · intro bid ask
      rw [same, numberEvents_payloads, mem_withdrawalReport, before.snapshotTopOfBook,
        holds.snapshotTopOfBook]
    · subst withdraws
      rw [holds.snapshotTopOfBook]
      refine ⟨_, ?_, before.projectCancelTopOfBook checks member⟩
      rw [before.find]
      exact before.valid.find_eq_some_iff.mpr ⟨member, named⟩

end Stands

/-- An accepted command on a reached engine reports a changed top exactly when the top of its book
changes, and reports and projects the top the book then has. -/
theorem execute_topReported (reaches : Reaches checks catalog config engine) {command : Command}
    {next : MultiInstrumentEngine} {batch : EventBatch}
    (executed : engine.execute checks command = .ok (next, .success batch))
    (accepted : batch.accepted = true) :
    ∃ entry settled, engine.findBook command.instrumentId = some entry ∧
      next.findBook command.instrumentId = some settled ∧
      TopReported checks entry.book settled.book command batch := by
  obtain ⟨commands, stands⟩ := reaches.stands
  obtain ⟨again, result, ran, changed, replied⟩ := stands.execute checks command
  rw [executed, Except.ok.injEq, Prod.mk.injEq] at ran
  obtain ⟨rfl, rfl⟩ := ran
  have outcome := stands.valid.outcome command
  rw [← replied] at outcome
  exact stands.topReported checks outcome changed rfl accepted

/-- Every command of the session reports and projects the top it leaves: it changes four times, with
a new order, a trade, an exchange and a withdrawal, and stays once. -/
theorem execute_topReported_session :
    sessionReports.length = 5 ∧ ∀ count < 5, ∃ engine results command next batch entry settled,
      sessionCommands[count]? = some command ∧
      (singleEngine ⟨1, ⟨100, 5, 3⟩⟩ ⟨2⟩).run true (sessionCommands.take count) =
        .ok (engine, results) ∧
      engine.execute true command = .ok (next, .success batch) ∧
      sessionReports[count]? = some batch.events ∧
      engine.findBook command.instrumentId = some entry ∧
      next.findBook command.instrumentId = some settled ∧
      TopReported true entry.book settled.book command batch := by
  refine ⟨rfl, fun count inside => ?_⟩
  obtain ⟨engine, results, command, next, batch, named, ran, reaches, -, executed, reported⟩ :=
    session_step inside
  obtain ⟨entry, settled, before, after, top⟩ :=
    execute_topReported true reaches executed (session_accepted reported)
  exact ⟨engine, results, command, next, batch, entry, settled, named, ran, executed, reported,
    before, after, top⟩

end AtlasLob
