import AtlasLob.Spec.Follower
import AtlasLob.Spec.Outcome
import AtlasLob.Verif.Runs

/-!
# The events tell everything

Folding the events of a command over the books before it gives the books after it, and what an
accepted order submits is what its events report as executed, rested or discarded.
-/

namespace AtlasLob

open PriceLevel

section Ladders

variable {instrument : InstrumentId} {ladder : Ladder} {order : NewOrder}
  {replaced : Option OrderNodeSpec} {sequence : Sequence}

/-- No executions keep every order. -/
theorem bind_settle_nil (kept : Option OrderNodeSpec) : kept.bind (settle []) = kept := by
  cases kept with
  | none => rfl
  | some order => rfl

/-- Following trades settles them. -/
theorem follow_trades (aggressor : NewOrder) (fills : List Fill) (start : Ladder)
    (filled : start.revise some = start) :
    (fills.map (Ladder.tradeEvent aggressor)).foldl (Ladder.follow instrument sequence) start =
      start.revise (settle fills) := by
  suffices composed : ∀ change : OrderNodeSpec → Option OrderNodeSpec,
      (fills.map (Ladder.tradeEvent aggressor)).foldl (Ladder.follow instrument sequence)
        (start.revise change) = start.revise fun order => (change order).bind (settle fills) by
    have all := composed some
    rw [filled] at all
    exact all
  induction fills with
  | nil =>
    intro change
    simp only [List.map_nil, List.foldl_nil, bind_settle_nil]
  | cons fill rest ih =>
    intro change
    have step : Ladder.follow instrument sequence (start.revise change)
        (Ladder.tradeEvent aggressor fill) =
        start.revise fun order => (change order).bind
          (reduceBy fill.order.orderId fill.executed) :=
      Ladder.revise_revise _ _ _
    rw [List.map_cons, List.foldl_cons, step, ih]
    simp only [settle, Option.bind_assoc]

/-- Removing a resting order takes all of it. -/
theorem dropOrder_eq (valid : ladder.Valid instrument) {old : OrderNodeSpec}
    (member : old ∈ ladder.orders) :
    ladder.revise (dropOrder old.orderId) = withoutReplaced ladder (some old) := by
  have agree : ∀ other ∈ ladder.orders,
      dropOrder old.orderId other = reduceBy old.orderId old.remainingQuantity other := by
    intro other inside
    by_cases same : other.orderId = old.orderId
    · obtain rfl := valid.eq_of_orderId inside member same
      rw [dropOrder, if_pos rfl, reduceBy, if_pos rfl, if_pos (UInt64.le_refl _)]
    · rw [dropOrder, if_neg same, reduceBy_of_ne same]
  rw [withoutReplaced, Ladder.revise, Ladder.revise,
    Levels.revise_congr fun other inside => agree other (List.mem_append_left _ inside),
    Levels.revise_congr fun other inside => agree other (List.mem_append_right _ inside)]

/-- Following the report of a changed top changes nothing. -/
theorem follow_changeEvents (before after start : Ladder) :
    (Ladder.changeEvents before after).foldl (Ladder.follow instrument sequence) start = start := by
  unfold Ladder.changeEvents
  split
  · rfl
  · rfl

/-- A valid ladder keeps every order it keeps. -/
theorem Ladder.Valid.revise_some (valid : ladder.Valid instrument) : ladder.revise some = ladder :=
  valid.revise_of_fixed fun _ _ => rfl

/-- Following what an aggressor opens with removes the order it exchanges. -/
theorem follow_opening {command : Command} {opening : List EventPayload}
    (submits : Submits command order replaced opening)
    (aggresses : Aggresses instrument ladder order replaced sequence) :
    opening.foldl (Ladder.follow instrument sequence) ladder = withoutReplaced ladder replaced := by
  cases submits with
  | new => rfl
  | exchange exchanged old named owned routed =>
    have dropped := dropOrder_eq aggresses.valid (aggresses.replaces old rfl).1
    rw [named] at dropped
    exact dropped

/-- Following the closing event rests what is left. -/
theorem follow_closing (aggresses : Aggresses instrument ladder order replaced sequence) :
    (ladder.struck order replaced).follow instrument sequence (ladder.closingEvent order) =
      ladder.after order replaced sequence := by
  unfold Ladder.closingEvent Ladder.after
  cases disposed : ladder.disposition order with
  | rest =>
    rw [if_pos rfl, Ladder.rested, aggresses.routed]
    rfl
  | filled => rfl
  | iocCanceled => rfl
  | marketExhausted => rfl

/-- Following the report of an aggressor leads to the ladder after it. -/
theorem follow_report {command : Command} {opening : List EventPayload}
    (submits : Submits command order replaced opening)
    (aggresses : Aggresses instrument ladder order replaced sequence) :
    (ladder.report order replaced sequence opening).foldl (Ladder.follow instrument sequence)
      ladder = ladder.after order replaced sequence := by
  have removed : (withoutReplaced ladder replaced).Valid instrument := by
    cases replaced with
    | none => exact aggresses.valid
    | some old => exact aggresses.valid.revise (reduceBy_shrinks _ _)
  unfold Ladder.report
  rw [List.foldl_append, List.foldl_append, List.foldl_append, follow_opening submits aggresses,
    follow_trades order _ _ removed.revise_some, ← Aggresses.struck_eq, List.foldl_cons,
    List.foldl_nil, follow_closing aggresses, follow_changeEvents]

/-- Following the report of a withdrawal leads to the ladder after it. -/
theorem follow_withdrawalReport (valid : ladder.Valid instrument) {old : OrderNodeSpec}
    (member : old ∈ ladder.orders) :
    (ladder.withdrawalReport old).foldl (Ladder.follow instrument sequence) ladder =
      ladder.without old := by
  unfold Ladder.withdrawalReport
  rw [List.foldl_append]
  show (Ladder.changeEvents ladder (ladder.without old)).foldl _
    (ladder.revise (dropOrder old.orderId)) = _
  have settled : settle [removalOf old] = reduceBy old.orderId old.remainingQuantity :=
    funext fun other => bind_settle_nil _
  rw [follow_changeEvents, dropOrder_eq valid member, Ladder.without, settled]
  rfl

end Ladders

section Books

/-- Following the events of one command changes the book of its instrument alone. -/
theorem follow_numberEvents (books : Books) (sequence : Sequence) (instrument : InstrumentId)
    (index : Nat) (payloads : List EventPayload) :
    (numberEvents sequence instrument index payloads).foldl Books.follow books =
      books.map fun entry =>
        if entry.1 = instrument then
          (entry.1, payloads.foldl (Ladder.follow entry.1 sequence) entry.2)
        else entry := by
  induction payloads generalizing books index with
  | nil =>
    simp only [numberEvents, List.foldl_nil, Prod.mk.eta, ite_self, List.map_id']
  | cons payload rest ih =>
    rw [numberEvents, List.foldl_cons, ih, Books.follow, List.map_map]
    apply List.map_congr_left
    intro entry _
    by_cases own : entry.1 = instrument
    · simp only [Function.comp_apply, own, ↓reduceIte, List.foldl_cons]
    · simp only [Function.comp_apply, own, ↓reduceIte]

/-- The books of a market. -/
def Market.ladders (market : Market) : Books :=
  market.books.map fun entry => (entry.1, entry.2.ladder)

/-- The snapshot of an order names everything about it. -/
theorem order_snapshotOrder (order : OrderNodeSpec) : (snapshotOrder order).order = order := rfl

/-- The snapshot of a side holds its queues. -/
theorem levelsOf_snapshotLevels (levels : Levels) :
    levelsOf (Market.snapshotLevels levels) = levels := by
  unfold levelsOf Market.snapshotLevels
  rw [List.map_map]
  refine (List.map_congr_left fun entry _ => ?_).trans (List.map_id levels)
  simp only [Function.comp_apply, List.map_map, id_eq]
  have kept : OrderSnapshot.order ∘ snapshotOrder = id := funext order_snapshotOrder
  rw [kept, List.map_id]

/-- The snapshot of a market holds its books. -/
theorem snapshot_books (market : Market) : market.snapshot.books = market.ladders := by
  unfold EngineSnapshot.books Market.snapshot Market.ladders
  rw [List.map_map]
  apply List.map_congr_left
  intro entry _
  simp only [Function.comp_apply, Market.snapshotDesk, levelsOf_snapshotLevels]

variable {market : Market} {instrument : InstrumentId} {desk : Desk}

/-- An exchanged ladder is the only one that changes. -/
theorem ladders_setLadder (distinct : (SortedMap.keys market.books).Nodup)
    (found : market.desk instrument = some desk) (ladder : Ladder) :
    (market.setLadder instrument desk ladder).ladders = market.ladders.map fun entry =>
      if entry.1 = instrument then (entry.1, ladder) else entry := by
  obtain ⟨front, back, split, absent⟩ := SortedMap.find?_split found
  have keys : SortedMap.keys (front ++ (instrument, desk) :: back) =
      SortedMap.keys front ++ instrument :: SortedMap.keys back := by
    rw [SortedMap.keys_append, SortedMap.keys_cons]
  rw [split, keys] at distinct
  have later : instrument ∉ SortedMap.keys back :=
    (List.nodup_cons.mp (List.nodup_append.mp distinct).2.1).1
  have others : ∀ entries : List (InstrumentId × Desk), instrument ∉ SortedMap.keys entries →
      (entries.map fun entry => (entry.1, entry.2.ladder)) =
        entries.map fun entry => if entry.1 = instrument then (entry.1, ladder)
          else (entry.1, entry.2.ladder) := by
    intro entries outside
    apply List.map_congr_left
    intro entry member
    rw [if_neg]
    intro same
    exact outside (same ▸ SortedMap.mem_keys member)
  unfold Market.ladders Market.setLadder
  simp only
  rw [split, SortedMap.set_append _ absent, List.map_map, List.map_append, List.map_append,
    List.map_cons, List.map_cons, others front absent, others back later]
  simp only [Function.comp_def, ↓reduceIte]

/-- A market whose counter moves keeps its books. -/
theorem ladders_advance (market : Market) : market.advance.ladders = market.ladders := rfl

/-- Following a report on a desk leads to the books after it. -/
theorem follow_report_books (valid : market.Valid) (found : market.desk instrument = some desk)
    {payloads : List EventPayload} {ladder : Ladder} {sequence : Sequence}
    (leads : payloads.foldl (Ladder.follow instrument sequence) desk.ladder = ladder) :
    (numberEvents sequence instrument 0 payloads).foldl Books.follow market.ladders =
      (market.setLadder instrument desk ladder).advance.ladders := by
  have distinct := valid.sorted.nodup instrumentBefore_strictOrder
  rw [ladders_advance, ladders_setLadder distinct found, follow_numberEvents]
  apply List.map_congr_left
  intro entry member
  by_cases own : entry.1 = instrument
  · rw [if_pos own, if_pos own]
    obtain ⟨⟨key, held⟩, stored, rfl⟩ := List.mem_map.mp member
    simp only at own
    subst own
    have same := SortedMap.find?_of_mem distinct stored
    have equal : held = desk := Option.some.inj (same.symm.trans found)
    rw [equal, leads]
  · rw [if_neg own, if_neg own]

/-- The events of a reply, none for an error. -/
def replyEvents : Market.Reply → List Event
  | .ok events => events
  | .error _ => []

/-- The events of a result are those of its reply. -/
theorem events_eq_replyEvents (result : EngineResult) :
    result.events = replyEvents result.reply := by
  cases result with
  | success batch => rfl
  | failure error => rfl

/-- Following the events of a step leads to the books after it. -/
theorem follow_step (valid : market.Valid) (command : Command) :
    (replyEvents (market.step command).2).foldl Books.follow market.ladders =
      (market.step command).1.ladders := by
  have outcome := valid.outcome command
  generalize (market.step command).1 = after at outcome
  generalize (market.step command).2 = reply at outcome
  cases outcome with
  | spent => rfl
  | refused =>
    rw [replyEvents, Market.refusal, follow_numberEvents, ladders_advance]
    refine (List.map_congr_left fun entry _ => ?_).trans (List.map_id _)
    exact ite_self entry
  | overlong => rfl
  | aggressor unspent found submits aggresses =>
    exact follow_report_books valid found (follow_report submits aggresses)
  | withdrawal withdraws unspent found member =>
    exact follow_report_books valid found
      (follow_withdrawalReport (valid.desk_valid found).ladder member)

end Books

section Quantities

variable {instrument : InstrumentId} {ladder : Ladder} {order : NewOrder}
  {replaced : Option OrderNodeSpec} {sequence : Sequence}

/-- Reported quantities do not depend on the headers of events. -/
theorem executedBy_numberEvents (orderId : OrderId) (sequence : Sequence)
    (instrument : InstrumentId) (index : Nat) (payloads : List EventPayload) :
    executedBy orderId (numberEvents sequence instrument index payloads) =
      (payloads.map (EventPayload.executedBy orderId)).sum := by
  have same := congrArg (List.map (EventPayload.executedBy orderId))
    (numberEvents_payloads sequence instrument index payloads)
  rw [List.map_map] at same
  rw [← same]
  rfl

/-- Nor do reported residuals. -/
theorem residualOf_numberEvents (orderId : OrderId) (sequence : Sequence)
    (instrument : InstrumentId) (index : Nat) (payloads : List EventPayload) :
    residualOf orderId (numberEvents sequence instrument index payloads) =
      (payloads.map (EventPayload.residualOf orderId)).sum := by
  have same := congrArg (List.map (EventPayload.residualOf orderId))
    (numberEvents_payloads sequence instrument index payloads)
  rw [List.map_map] at same
  rw [← same]
  rfl

/-- The trades of an aggressor report what it executes. -/
theorem executedBy_trades (fills : List Fill) :
    ((fills.map (Ladder.tradeEvent order)).map (EventPayload.executedBy order.orderId)).sum =
      (fills.map fun fill => fill.executed.toNat).sum := by
  rw [List.map_map]
  congr 1
  apply List.map_congr_left
  intro fill _
  exact if_pos rfl

/-- They report no residual. -/
theorem residualOf_trades (fills : List Fill) (orderId : OrderId) :
    ((fills.map (Ladder.tradeEvent order)).map (EventPayload.residualOf orderId)).sum = 0 := by
  rw [List.map_map]
  apply List.sum_eq_zero
  intro value member
  obtain ⟨fill, -, rfl⟩ := List.mem_map.mp member
  rfl

/-- The closing event reports what is left, and no execution. -/
theorem closingEvent_reports (ladder : Ladder) (order : NewOrder) :
    (ladder.closingEvent order).executedBy order.orderId = 0 ∧
      (ladder.closingEvent order).residualOf order.orderId = (ladder.left order).toNat := by
  unfold Ladder.closingEvent
  cases ladder.disposition order with
  | rest => exact ⟨rfl, if_pos rfl⟩
  | filled => exact ⟨rfl, if_pos rfl⟩
  | iocCanceled => exact ⟨rfl, if_pos rfl⟩
  | marketExhausted => exact ⟨rfl, if_pos rfl⟩

/-- The report of a changed top reports no quantity. -/
theorem changeEvents_reports (before after : Ladder) (orderId : OrderId) :
    ((Ladder.changeEvents before after).map (EventPayload.executedBy orderId)).sum = 0 ∧
      ((Ladder.changeEvents before after).map (EventPayload.residualOf orderId)).sum = 0 := by
  unfold Ladder.changeEvents
  split
  · exact ⟨rfl, rfl⟩
  · exact ⟨rfl, rfl⟩

/-- What an aggressor opens with reports nothing about it. -/
theorem opening_reports {command : Command} {opening : List EventPayload}
    (submits : Submits command order replaced opening)
    (aggresses : Aggresses instrument ladder order replaced sequence) :
    (opening.map (EventPayload.executedBy order.orderId)).sum = 0 ∧
      (opening.map (EventPayload.residualOf order.orderId)).sum = 0 := by
  cases submits with
  | new => exact ⟨rfl, rfl⟩
  | exchange exchanged old named owned routed =>
    have apart : exchanged.oldOrderId ≠ exchanged.newOrderId := by
      intro same
      apply aggresses.fresh
      show exchanged.newOrderId ∈ ids ladder.orders
      rw [← same, ← named]
      exact List.mem_map_of_mem (aggresses.replaces old rfl).1
    refine ⟨rfl, ?_⟩
    show 0 + (0 + (0 + ((if exchanged.oldOrderId = exchanged.newOrderId then
      old.remainingQuantity.toNat else 0) + 0))) = 0
    rw [if_neg apart]

/-- The report of an aggressor accounts for all of its quantity. -/
theorem report_accounts {command : Command} {opening : List EventPayload}
    (submits : Submits command order replaced opening)
    (aggresses : Aggresses instrument ladder order replaced sequence) :
    order.quantity.toNat =
      ((ladder.report order replaced sequence opening).map
        (EventPayload.executedBy order.orderId)).sum +
      ((ladder.report order replaced sequence opening).map
        (EventPayload.residualOf order.orderId)).sum := by
  have opens := opening_reports submits aggresses
  have closes := closingEvent_reports ladder order
  have changes := changeEvents_reports ladder (ladder.after order replaced sequence) order.orderId
  have conserved := fillQueue_executed order.quantity (ladder.reach order)
  unfold Ladder.report
  simp only [List.map_append, List.sum_append, List.map_cons, List.map_nil, List.sum_cons,
    List.sum_nil, opens.1, opens.2, closes.1, closes.2, changes.1, changes.2, executedBy_trades,
    residualOf_trades]
  rw [Ladder.fills, Ladder.left]
  omega

/-- What a command submits is the quantity of its aggressor. -/
theorem submission_eq {command : Command} {opening : List EventPayload}
    (submits : Submits command order replaced opening) :
    command.submission = some (order.orderId, order.quantity) := by
  cases submits with
  | new => rfl
  | exchange => rfl

variable {market : Market}

/-- The events of an accepted submission account for all of its quantity. -/
theorem step_accounts (valid : market.Valid) {command : Command} {events : List Event}
    (replied : (market.step command).2 = .ok events)
    (accepted : ∀ first ∈ events.head?, first.payload.isRejected = false) {orderId : OrderId}
    {quantity : Quantity} (submits : command.submission = some (orderId, quantity)) :
    quantity.toNat = executedBy orderId events + residualOf orderId events := by
  have outcome := valid.outcome command
  rw [replied] at outcome
  generalize (market.step command).1 = after at outcome
  cases outcome with
  | refused unspent judged =>
    have refused := accepted _ rfl
    cases refused
  | aggressor unspent found submitted aggresses =>
    rw [submission_eq submitted, Option.some.injEq, Prod.mk.injEq] at submits
    obtain ⟨rfl, rfl⟩ := submits
    rw [executedBy_numberEvents, residualOf_numberEvents]
    exact report_accounts submitted aggresses
  | withdrawal withdraws =>
    subst withdraws
    cases submits

end Quantities

variable (checks : Bool)

/-- On every reached engine, folding the events of a command over the books before it gives the
books after it, and an accepted submission is what its events report as executed, rested or
discarded. -/
theorem execute_eventSourced {catalog : List InstrumentConfig}
    {config : MultiInstrumentEngineConfig} {engine : MultiInstrumentEngine}
    (reaches : Reaches checks catalog config engine) (command : Command) :
    ∃ next result before after, engine.execute checks command = .ok (next, result) ∧
      engine.snapshot = .ok before ∧ next.snapshot = .ok after ∧
      result.events.foldl Books.follow before.books = after.books ∧
      ∀ batch orderId quantity, result = .success batch → batch.accepted = true →
        command.submission = some (orderId, quantity) →
          quantity.toNat = executedBy orderId batch.events + residualOf orderId batch.events := by
  obtain ⟨commands, stands⟩ := reaches.stands
  obtain ⟨next, result, executed, after, replied⟩ := stands.execute checks command
  refine ⟨next, result, _, _, executed, stands.snapshot (by simp [Stands.Leases]),
    after.snapshot (by simp [Stands.Leases]), ?_, ?_⟩
  · rw [events_eq_replyEvents, replied, snapshot_books, snapshot_books]
    exact follow_step stands.valid command
  · intro batch orderId quantity same accepted submits
    subst same
    refine step_accounts stands.valid replied.symm ?_ submits
    intro first found
    rw [EventBatch.accepted] at accepted
    cases events : batch.events with
    | nil =>
      rw [events] at found
      cases found
    | cons head rest =>
      rw [events] at accepted found
      obtain rfl := Option.some.inj found
      have opens : head.payload.isAccepted = true := accepted
      cases payload : head.payload with
      | rejected =>
        rw [payload] at opens
        cases opens
      | _ => rfl

/-- Every command of the session can be followed, and what it submits is accounted for. -/
theorem execute_eventSourced_session :
    sessionReports.length = 5 ∧ ∀ count < 5, ∃ engine results command next batch before after,
      sessionCommands[count]? = some command ∧
      (singleEngine ⟨1, ⟨100, 5, 3⟩⟩ ⟨2⟩).run true (sessionCommands.take count) =
        .ok (engine, results) ∧
      engine.execute true command = .ok (next, .success batch) ∧
      sessionReports[count]? = some batch.events ∧
      engine.snapshot = .ok before ∧ next.snapshot = .ok after ∧
      batch.events.foldl Books.follow before.books = after.books ∧
      ∀ orderId quantity, command.submission = some (orderId, quantity) →
        quantity.toNat = executedBy orderId batch.events + residualOf orderId batch.events := by
  refine ⟨rfl, fun count inside => ?_⟩
  obtain ⟨engine, results, command, next, batch, named, ran, reaches, -, executed, reported⟩ :=
    session_step inside
  obtain ⟨again, result, before, after, executes, first, last, followed, accounts⟩ :=
    execute_eventSourced true reaches command
  rw [executed, Except.ok.injEq, Prod.mk.injEq] at executes
  obtain ⟨rfl, rfl⟩ := executes
  exact ⟨engine, results, command, next, batch, before, after, named, ran, executed, reported,
    first, last, followed, fun orderId quantity submits =>
      accounts batch orderId quantity rfl (session_accepted reported) submits⟩

end AtlasLob
