import AtlasLob.Verif.Engine

/-!
# Preparing a command

Preparing a command on an engine that stands for a market ends in one of five ways, and the
market decides which: the command fails and nothing is live, the coordinator refuses it, the book
refuses it because a level would not fit, or an aggressor or a withdrawal is staged.
-/

namespace AtlasLob

open PriceLevel

variable {instrument : InstrumentId} {market : Market} {desk : Desk} {command : Command}
  {order : NewOrder} {replaced : Option OrderNodeSpec} {opening : List EventPayload}
  {book : InstrumentBook} {sequence : Sequence} (checks : Bool)

/-- What a command submits opens with an acceptance and a handful of events. -/
theorem Submits.opening_length (submits : Submits command order replaced opening) :
    opening.length + 1 < 2 ^ 32 := by
  cases submits <;> simp [newOpening, replaceOpening]

/-- The limits a book enforces on its own do not refuse an admitted aggressor. -/
theorem Submits.validateState (submits : Submits command order replaced opening)
    (shaped : (MultiInstrumentEngine.shapeDecision command).accepted = true)
    {ladder : Ladder} {policy : ExecutionPolicy}
    (represents : Represents command.instrumentId book ladder none)
    (aggresses : Aggresses command.instrumentId ladder order replaced sequence)
    (limited : order.quantity ≤ policy.maxOrderQuantity)
    (aligned : ∀ price ∈ order.limitPrice, isTickAligned price policy.tickIncrement = true) :
    command.validateState book policy = .accept := by
  have absent := represents.find_fresh aggresses.fresh
  have within : ¬ policy.maxOrderQuantity < order.quantity := by
    rw [UInt64.lt_iff_toNat_lt]
    rw [UInt64.le_iff_toNat_le] at limited
    omega
  cases submits with
  | new =>
    have accepted : order.validate = .none := NewOrder.validate_eq_none_iff.mpr aggresses.wellFormed
    have routed : order.instrumentId = book.instrumentId := represents.routed.symm
    have ticks : (decide (order.orderType = .limit) && order.limitPrice.any
        (fun price => !isTickAligned price policy.tickIncrement)) = false := by
      cases given : order.limitPrice with
      | none => simp
      | some price => simp [aligned price given]
    simp only [Command.validateState, NewOrder.validateState, accepted, routed, within, ticks,
      absent, ne_eq, not_true_eq_false, ↓reduceIte, Bool.false_eq_true, Option.isSome_none]
  | exchange exchanged old named owned routed =>
    rw [MultiInstrumentEngine.shapeDecision, ValidationDecision.reject_accepted,
      decide_eq_true_eq] at shaped
    have here : exchanged.instrumentId = book.instrumentId := represents.routed.symm
    have ticks : isTickAligned exchanged.newLimitPrice policy.tickIncrement = true :=
      aligned exchanged.newLimitPrice rfl
    have found : book.find exchanged.oldOrderId = some old := by
      rw [represents.find]
      exact aggresses.valid.find_eq_some_iff.mpr ⟨(aggresses.replaces old rfl).1, named⟩
    have fresh : book.find exchanged.newOrderId = none := absent
    have small : ¬ policy.maxOrderQuantity < exchanged.newQuantity := within
    have owner : validateOwner (some old) exchanged.clientId exchanged.instrumentId
        exchanged.oldOrderId = .accept := by
      simp [validateOwner, owned, routed]
    simp only [Command.validateState, ReplaceOrder.validateState, shaped, ne_eq, not_true_eq_false,
      ↓reduceIte, small, ticks, Bool.not_true, Bool.false_eq_true, found, fresh, owner,
      ValidationDecision.accept_accepted, Option.isSome_none, if_neg (not_not.mpr here)]

/-- An admitted aggressor is prepared as one. -/
theorem Submits.prepareAdmitted (submits : Submits command order replaced opening)
    {ladder : Ladder} {executor : CommandExecutor}
    (represents : Represents command.instrumentId executor.book ladder none)
    (aggresses : Aggresses command.instrumentId ladder order replaced sequence) :
    executor.prepareAdmitted checks command sequence =
      executor.prepareAggressor checks sequence command.commandType order replaced opening
        (opening.length + 1) := by
  cases submits with
  | new => rfl
  | exchange exchanged old named owned routed =>
    have found : executor.book.find exchanged.oldOrderId = some old := by
      rw [represents.find]
      exact aggresses.valid.find_eq_some_iff.mpr ⟨(aggresses.replaces old rfl).1, named⟩
    have fresh : executor.book.find exchanged.newOrderId = none :=
      represents.find_fresh aggresses.fresh
    rw [CommandExecutor.prepareAdmitted, CommandExecutor.prepareReplace, found]
    simp only [owned, routed, fresh, ne_eq, not_true_eq_false, decide_false, Option.isSome_none,
      Bool.or_self, Bool.false_eq_true, ↓reduceIte]
    rfl

/-- Preparing at a reserved sequence leases what an admitted command prepares. -/
theorem prepareAt_admitted {ladder : Ladder} {executor next : CommandExecutor}
    {prepared : PreparedCommandExecution} (idle : executor.preparationActive = false)
    (usable : executor.policy.valid = true) (issued : sequence ≠ 0)
    (represents : Represents instrument executor.book ladder none)
    (accepted : command.validateState executor.book executor.policy = .accept)
    (prepares : executor.prepareAdmitted checks command sequence = .ok (next, prepared)) :
    executor.prepareAt checks command sequence =
      .ok ({ next with preparationActive := true }, { prepared with leased := true }) := by
  rw [CommandExecutor.prepareAt, idle, Command.admitAt, admissionPreflight, usable,
    represents.checkedInvariants checks (by simp)]
  simp only [Bool.false_eq_true, ↓reduceIte, if_neg issued, Bool.not_true, Run.ok_bind,
    Run.pure_eq, accepted, ValidationDecision.accept_accepted, prepares]

/-- A withdrawal of a resting order is admitted by its book. -/
theorem validateState_withdrawal {ladder : Ladder} {order : CancelOrder} {old : OrderNodeSpec}
    {policy : ExecutionPolicy} (represents : Represents order.instrumentId book ladder none)
    (shaped : order.validate = .none) (member : old ∈ ladder.orders)
    (named : old.orderId = order.orderId) (owned : old.clientId = order.clientId) :
    (Command.cancel order).validateState book policy = .accept := by
  have found : book.find order.orderId = some old := by
    rw [represents.find]
    exact represents.valid.find_eq_some_iff.mpr ⟨member, named⟩
  have routed := represents.valid.routed_order member
  simp only [Command.validateState, CancelOrder.validateState, shaped, found, validateOwner, owned,
    routed, ne_eq, not_true_eq_false, ↓reduceIte, if_neg (not_not.mpr represents.routed.symm)]

/-- The removal of a resting order from the directories. -/
def identityRemoval (order : OrderNodeSpec) : IdentityRemoval := ⟨order.orderId, identityOf order⟩

namespace Ladder

/-- The orders that leave a ladder with an aggressor. -/
def leavers (ladder : Ladder) (order : NewOrder) (replaced : Option OrderNodeSpec) :
    List OrderNodeSpec :=
  (exhausted ((replaced.map removalOf).toList ++ ladder.fills order)).map Fill.order

end Ladder

namespace Aggresses

variable {instrument : InstrumentId} {ladder : Ladder} {order : NewOrder}
  {replaced : Option OrderNodeSpec} {sequence : Sequence}

/-- The leavers are the replaced order and the exhausted ones. -/
theorem leavers_eq (ladder : Ladder) (order : NewOrder) (replaced : Option OrderNodeSpec) :
    ladder.leavers order replaced =
      replaced.toList ++ (exhausted (ladder.fills order)).map Fill.order := by
  rw [Ladder.leavers, exhausted_all]
  cases replaced <;> rfl

/-- The leavers rest. -/
theorem mem_leavers (aggresses : Aggresses instrument ladder order replaced sequence)
    {leaver : OrderNodeSpec} (leaves : leaver ∈ ladder.leavers order replaced) :
    leaver ∈ ladder.orders := by
  obtain ⟨fill, inside, rfl⟩ := List.mem_map.mp leaves
  exact aggresses.executable_all.members fill (List.mem_of_mem_filter inside)

/-- The leavers are different orders. -/
theorem leavers_distinct (aggresses : Aggresses instrument ladder order replaced sequence) :
    (ids (ladder.leavers order replaced)).Nodup := by
  have kept : (exhausted ((replaced.map removalOf).toList ++ ladder.fills order)).Sublist
      ((replaced.map removalOf).toList ++ ladder.fills order) := List.filter_sublist
  exact aggresses.executable_all.distinct.sublist ((kept.map Fill.order).map _)

/-- The filled orders of a plan are the exhausted ones. -/
theorem filledOrders (aggresses : Aggresses instrument ladder order replaced sequence) :
    MultiInstrumentEngine.filledOrders (planOf ladder order) =
      ids ((exhausted (ladder.fills order)).map Fill.order) := by
  rw [MultiInstrumentEngine.filledOrders, planOf_trades, List.filter_map, List.map_map, ids,
    List.map_map, exhausted]
  have same : (ladder.fills order).filter
      ((fun trade => decide (trade.restingRemainingAfter = 0)) ∘ plannedOf) =
        (ladder.fills order).filter
          fun fill => decide (fill.executed = fill.order.remainingQuantity) := by
    refine List.filter_congr fun fill inside => ?_
    have sound := aggresses.executable.sound fill inside
    have left := Word.toNat_sub_of_toNat_le sound.bounded
    rw [Function.comp_apply, decide_eq_decide, plannedOf, Word.eq_zero_iff, left]
    constructor
    · intro zero
      have bound := sound.bounded
      exact Word.eq_of_toNat (by omega)
    · rintro full
      rw [full, Nat.sub_self]
  rw [same]
  rfl

end Aggresses

namespace Stands

variable {engine : MultiInstrumentEngine} {market : Market} {active : Bool}
  {lease : Option (InstrumentId × Option Pending)} {instrument : InstrumentId} {desk : Desk}
  {entry : BookEntry} {order : NewOrder} {replaced : Option OrderNodeSpec} {sequence : Sequence}

/-- The identities of resting orders are collected. -/
theorem collectRemovals (stands : Stands engine market active lease) {orders : List OrderNodeSpec}
    (resting : ∀ order ∈ orders, order ∈ market.orders) :
    engine.collectRemovals (ids orders) = some (orders.map identityRemoval) := by
  induction orders with
  | nil => rfl
  | cons order rest ih =>
    have owner : engine.activeOrders[order.orderId]? = some (identityOf order) := by
      rw [stands.owners, stands.valid.find_eq_some_iff.mpr ⟨resting order (by simp), rfl⟩,
        Option.map_some]
    rw [ids, List.map_cons, MultiInstrumentEngine.collectRemovals, owner]
    rw [show rest.map OrderNodeSpec.orderId = ids rest from rfl,
      ih fun other inside => resting other (by simp [inside])]
    rfl

/-- A market leaves room for one more order. -/
theorem room (valid : market.Valid) (named : order.orderId ≠ 0)
    (fresh : order.orderId ∉ ids market.orders) : market.orders.length < 2 ^ 64 - 1 := by
  have distinct : (order.orderId :: ids market.orders).Nodup :=
    List.nodup_cons.mpr ⟨fresh, valid.distinct⟩
  have nonzero : 0 ∉ order.orderId :: ids market.orders := by
    rw [List.mem_cons, not_or]
    refine ⟨fun zero => named zero.symm, fun inside => ?_⟩
    obtain ⟨resting, member, zero⟩ := List.mem_map.mp inside
    exact valid.named member zero
  have bound := length_lt_of_nodup distinct nonzero
  rw [List.length_cons, ids, List.length_map] at bound
  omega

/-- The capacities of book and engine are those of the market. -/
theorem withinCapacities (stands : Stands engine market active lease)
    (found : market.desk instrument = some desk)
    (agrees : BookAgrees instrument entry desk none)
    (aggresses : Aggresses instrument desk.ladder order replaced sequence)
    (fresh : order.orderId ∉ ids market.orders) :
    engine.withinCapacities (planOf desk.ladder order) entry replaced.isSome =
      !market.exceeds desk (desk.ladder.after order replaced sequence) := by
  obtain ⟨others, split, -⟩ := Market.orders_split found
  have sizes := split.length_eq
  rw [List.length_append] at sizes
  have here := Represents.projectActiveOrderCount aggresses aggresses.length_lt (le_refl _)
  have there := Represents.projectActiveOrderCount aggresses
    (room stands.valid aggresses.wellFormed.id fresh)
    (show desk.ladder.orders.length ≤ market.orders.length by omega)
  rw [MultiInstrumentEngine.withinCapacities, BookEntry.book, agrees.represents.activeOrderCount,
    here, stands.owners_size, there, agrees.config, stands.config, withinLimit, withinLimit,
    Market.exceeds, Bool.not_or, ← decide_not, ← decide_not]
  generalize (desk.ladder.after order replaced sequence).orders.length = count
  rw [← Bool.decide_and, ← Bool.decide_and, decide_eq_decide]
  omega

/-- The batch of a refusal by the coordinator. -/
theorem rejectionBatch (command : Command) (issued : sequence ≠ 0)
    (decision : ValidationDecision) :
    ∃ batch, MultiInstrumentEngine.rejectionBatch sequence command decision = .ok batch ∧
      batch.events = Market.refusal sequence command decision := by
  have valid : EventBatch.validate (Market.refusal sequence command decision) = .ok () :=
    numberEvents_valid issued (Or.inr ⟨rfl, rfl⟩) (by simp)
  exact ⟨⟨_, valid⟩, EventBatch.construct_of_valid valid, rfl⟩

variable {next : Option (InstrumentId × Option Pending)} {executor : CommandExecutor}

/-- The engine's own lease is independent of everything else. -/
theorem activate (stands : Stands engine market active lease) (live : Bool) :
    Stands { engine with preparationActive := live } market live lease :=
  ⟨stands.valid, stands.config, stands.sequencer, rfl, stands.books, stands.owners, stands.ranks⟩

/-- The instruments of an engine are different. -/
theorem keys_nodup (stands : Stands engine market active lease) :
    (SortedMap.keys engine.books).Nodup := by
  rw [stands.books.keys_eq]
  exact stands.valid.sorted.nodup instrumentBefore_strictOrder

/-- One book changes its lease. -/
theorem relet (stands : Stands engine market active lease)
    (found : market.desk instrument = some desk)
    (elsewhere : ∀ other, other ≠ instrument → leaseAt next other = leaseAt lease other)
    (agrees : BookAgrees instrument { entry with executor := executor } desk
      (leaseAt next instrument)) :
    Stands (engine.setExecutor instrument entry executor) market active next where
  valid := stands.valid
  config := stands.config
  sequencer := stands.sequencer
  active := stands.active
  books := by
    have agree : SortedMap.Agree (fun key value image => BookAgrees key value image
        (leaseAt next key)) (SortedMap.set instrument { entry with executor := executor }
          engine.books) (SortedMap.set instrument desk market.books) :=
      stands.books.set_other stands.keys_nodup (fun key value image apart related => by
        rw [elsewhere key apart]
        exact related) agrees
    rwa [SortedMap.set_self found] at agree
  owners := stands.owners
  ranks := stands.ranks

variable {book : InstrumentBook} {pending : Option Pending}

/-- An idle book is leased. -/
theorem letBook (stands : Stands engine market active none)
    (found : market.desk instrument = some desk) (agreed : BookAgrees instrument entry desk none)
    (represents : Represents instrument book desk.ladder pending)
    (pins : ∀ residual ∈ pending, residual.Pins desk.ladder) :
    Stands (engine.setExecutor instrument entry
      { entry.executor with book := book, preparationActive := true }) market active
        (some (instrument, pending)) := by
  refine stands.relet found (fun other apart => if_neg (Ne.symm apart)) ?_
  rw [leaseAt, if_pos rfl]
  exact ⟨agreed.config, agreed.placed, agreed.policy, agreed.counter, rfl, represents, pins⟩

/-- A leased book is given back. -/
theorem release (stands : Stands engine market active (some (instrument, pending)))
    (found : market.desk instrument = some desk)
    (agreed : BookAgrees instrument entry desk (some pending))
    (represents : Represents instrument book desk.ladder none) :
    Stands (engine.setExecutor instrument entry
      { entry.executor with book := book, preparationActive := false }) market active none := by
  refine stands.relet found (fun other apart => (if_neg (Ne.symm apart)).symm) ?_
  exact ⟨agreed.config, agreed.placed, agreed.policy, agreed.counter, rfl, represents,
    by simp [leaseAt]⟩

/-- The book of a found desk. -/
theorem findBook (stands : Stands engine market active lease)
    (found : market.desk instrument = some desk) :
    ∃ entry, engine.findBook instrument = some entry ∧
      BookAgrees instrument entry desk (leaseAt lease instrument) :=
  stands.books.find?_image found

end Stands

namespace Aggresses

variable {instrument : InstrumentId} {ladder : Ladder} {order : NewOrder}
  {replaced : Option OrderNodeSpec} {sequence : Sequence}

/-- The staged residual names the order it replaces. -/
theorem pending_pins (aggresses : Aggresses instrument ladder order replaced sequence) :
    ∀ residual ∈ pending ladder order replaced sequence, residual.Pins ladder := by
  intro residual staged replacing
  rw [pending, newcomer, Option.mem_def] at staged
  split_ifs at staged with rests
  · rw [Option.map_some, Option.some.injEq] at staged
    subst staged
    cases replaced with
    | none => exact absurd rfl replacing
    | some old =>
      obtain ⟨member, client, sided, -⟩ := aggresses.replaces old rfl
      exact ⟨old, member, rfl, client, sided⟩
  · cases staged

end Aggresses

/-- What is live after a command was prepared. -/
inductive Prepares (market : Market) (command : Command) :
    MultiInstrumentEngine → PreparedMultiInstrumentCommand → Prop
  /-- The command failed and nothing is live. -/
  | failed {engine : MultiInstrumentEngine} {error : EngineError}
      (stands : Stands engine market false none)
      (replied : market.step command = (market, .error error)) :
      Prepares market command engine (.failed command error)
  /-- The coordinator refused the command. -/
  | refused {engine : MultiInstrumentEngine} {batch : EventBatch} {decision : ValidationDecision}
      (stands : Stands engine market true none) (unspent : market.sequencer.exhausted = false)
      (judged : market.judge command = .refuse decision)
      (events : batch.events = Market.refusal market.sequencer.nextSequence command decision) :
      Prepares market command engine (.refused command market.sequencer.nextSequence batch)
  /-- The book refused the command. -/
  | overflowed {engine : MultiInstrumentEngine} {batch : EventBatch} {desk : Desk}
      {decision : ValidationDecision}
      (stands : Stands engine market true (some (command.instrumentId, none)))
      (unspent : market.sequencer.exhausted = false)
      (found : market.desk command.instrumentId = some desk)
      (judged : market.judge command = .refuse decision)
      (events : batch.events = Market.refusal market.sequencer.nextSequence command decision) :
      Prepares market command engine
        (.staged command market.sequencer.nextSequence command.instrumentId
          { PreparedCommandExecution.immediate (.ok batch) with leased := true } [] none none)
  /-- An aggressor is staged. -/
  | aggressor {engine : MultiInstrumentEngine} {batch : EventBatch} {desk : Desk} {order : NewOrder}
      {replaced : Option OrderNodeSpec} {opening : List EventPayload}
      (stands : Stands engine market true (some (command.instrumentId,
        Aggresses.pending desk.ladder order replaced market.sequencer.nextSequence)))
      (unspent : market.sequencer.exhausted = false)
      (found : market.desk command.instrumentId = some desk)
      (admitted : Admitted market desk command)
      (submits : Submits command order replaced opening)
      (aggresses : Aggresses command.instrumentId desk.ladder order replaced
        market.sequencer.nextSequence)
      (fresh : order.orderId ∉ ids market.orders)
      (judged : market.judge command = .accept
        (desk.ladder.after order replaced market.sequencer.nextSequence)
        (desk.ladder.report order replaced market.sequencer.nextSequence opening))
      (fits : desk.ladder.overflows order replaced = false)
      (short : ¬ 2 ^ 32 <
        (desk.ladder.report order replaced market.sequencer.nextSequence opening).length)
      (events : batch.events = numberEvents market.sequencer.nextSequence command.instrumentId 0
        (desk.ladder.report order replaced market.sequencer.nextSequence opening)) :
      Prepares market command engine
        (.staged command market.sequencer.nextSequence command.instrumentId
          { stagedExecution command.instrumentId.toNat desk.ladder order replaced
              market.sequencer.nextSequence batch with leased := true }
          ((desk.ladder.leavers order replaced).map identityRemoval)
          ((Aggresses.newcomer desk.ladder order market.sequencer.nextSequence).map
            fun rested => (rested.orderId, identityOf rested))
          ((Aggresses.newcomer desk.ladder order market.sequencer.nextSequence).map
            fun rested => (rested.prioritySequence, rested.orderId)))
  /-- A withdrawal is staged. -/
  | withdrawal {engine : MultiInstrumentEngine} {batch : EventBatch} {desk : Desk}
      {old : OrderNodeSpec}
      (stands : Stands engine market true (some (command.instrumentId, none)))
      (unspent : market.sequencer.exhausted = false)
      (found : market.desk command.instrumentId = some desk)
      (admitted : Admitted market desk command) (member : old ∈ desk.ladder.orders)
      (withdraws : ∃ order : CancelOrder, command = .cancel order ∧ old.orderId = order.orderId ∧
        old.clientId = order.clientId)
      (judged : market.judge command = .accept (desk.ladder.without old)
        (desk.ladder.withdrawalReport old))
      (events : batch.events = numberEvents market.sequencer.nextSequence command.instrumentId 0
        (desk.ladder.withdrawalReport old)) :
      Prepares market command engine
        (.staged command market.sequencer.nextSequence command.instrumentId
          { withdrawnExecution desk.ladder old batch with leased := true }
          [identityRemoval old] none none)

namespace Stands

variable {engine : MultiInstrumentEngine} {market : Market} {desk : Desk} {entry : BookEntry}
  {command : Command} {order : NewOrder} {replaced : Option OrderNodeSpec}
  {opening : List EventPayload} {active : Bool} {instrument : InstrumentId}
  {lease : Option (InstrumentId × Option Pending)} (checks : Bool)

/-- A batch whose first event reports a refusal. -/
theorem rejected_of_events {batch : EventBatch} {sequence : Sequence} {instrument : InstrumentId}
    {commandType : CommandType} {reason : RejectReason} {orderId : Option OrderId}
    (events : batch.events = numberEvents sequence instrument 0
      [.rejected commandType reason orderId]) : batch.rejected = true := by
  rw [EventBatch.rejected, events]
  rfl

/-- A batch whose first event reports an acceptance. -/
theorem accepted_of_events {batch : EventBatch} {sequence : Sequence} {instrument : InstrumentId}
    {commandType : CommandType} {rest : List EventPayload}
    (events : batch.events = numberEvents sequence instrument 0 (.accepted commandType :: rest)) :
    batch.accepted = true ∧ batch.rejected = false := by
  rw [EventBatch.accepted, EventBatch.rejected, events]
  exact ⟨rfl, rfl⟩

/-- The report of an aggressor starts with its acceptance. -/
theorem report_accepted (submits : Submits command order replaced opening) (ladder : Ladder)
    (sequence : Sequence) :
    ∃ rest, ladder.report order replaced sequence opening =
      .accepted command.commandType :: rest := by
  cases submits <;> exact ⟨_, rfl⟩

/-- A committed refusal by the book's own limits is recognised. -/
theorem isExecutorCapacityRejection {batch : EventBatch} {sequence : Sequence}
    {instrument : InstrumentId} {commandType : CommandType} {orderId : OrderId}
    (events : batch.events = numberEvents sequence instrument 0
      [.rejected commandType .capacityExceeded (some orderId)]) :
    MultiInstrumentEngine.isExecutorCapacityRejection
      { PreparedCommandExecution.immediate (.ok batch) with leased := true } commandType orderId =
        true := by
  simp [MultiInstrumentEngine.isExecutorCapacityRejection, PreparedCommandExecution.batch,
    PreparedCommandExecution.immediate, events, numberEvents, Except.toOption]

/-- A preparation that is not used is dropped. -/
theorem dropPreparation {pending : Option Pending} {instrument : InstrumentId} {active : Bool}
    (stands : Stands engine market active (some (instrument, pending)))
    (found : market.desk instrument = some desk) (prepared : PreparedCommandExecution)
    (guards : prepared.preparedRest = pending.map (guardOf instrument.toNat))
    (leased : prepared.leased = true) :
    ∃ dropped, engine.dropPreparation checks instrument prepared = .ok dropped ∧
      Stands dropped market active none := by
  obtain ⟨entry, book, agrees⟩ := stands.findBook found
  rw [leaseAt, if_pos rfl] at agrees
  obtain ⟨restored, abandoned, back⟩ :=
    agrees.represents.abandon_ok checks (agrees.placed.symm ▸ guards) leased agrees.leased
  refine ⟨_, ?_, stands.release found agrees back⟩
  rw [MultiInstrumentEngine.dropPreparation, book]
  simp only [abandoned, Run.ok_bind, Run.pure_eq]

/-- What an aggressor adds to the directories. -/
theorem additions {instrument : InstrumentId} {ladder : Ladder} {sequence : Sequence}
    (aggresses : Aggresses instrument ladder order replaced sequence) :
    (if decide (ladder.disposition order = .rest) then
        some (order.orderId, (⟨instrument, order.clientId, sequence⟩ : Identity)) else none) =
      (Aggresses.newcomer ladder order sequence).map
        (fun rested => (rested.orderId, identityOf rested)) ∧
    (if decide (ladder.disposition order = .rest) then some (sequence, order.orderId) else none) =
      (Aggresses.newcomer ladder order sequence).map
        (fun rested => (rested.prioritySequence, rested.orderId)) := by
  rw [Aggresses.newcomer]
  by_cases rests : ladder.disposition order = .rest
  · simp only [rests, decide_true, ↓reduceIte, Option.map_some, identityOf, Ladder.rested,
      aggresses.routed, and_self]
  · simp only [rests, decide_false, Bool.false_eq_true, ↓reduceIte, Option.map_none, and_self]

/-- Preparing an admitted aggressor. -/
theorem prepareAggressor (stands : Stands engine market false none)
    (unspent : market.sequencer.exhausted = false)
    (shaped : (MultiInstrumentEngine.shapeDecision command).accepted = true)
    (found : market.desk command.instrumentId = some desk)
    (agrees : BookAgrees command.instrumentId entry desk none)
    (admitted : Admitted market desk command)
    (submits : Submits command order replaced opening)
    (aggresses : Aggresses command.instrumentId desk.ladder order replaced
      market.sequencer.nextSequence)
    (fresh : order.orderId ∉ ids market.orders)
    (limited : order.quantity ≤ desk.config.matching.maxOrderQuantity)
    (aligned : ∀ price ∈ order.limitPrice,
      isTickAligned price desk.config.matching.tickIncrement = true)
    (judged : market.judge command = market.judgeAggressor desk order replaced opening) :
    ∃ next prepared, engine.prepareAggressor checks command market.sequencer.nextSequence entry
        order order.clientId (replaced.map OrderNodeSpec.orderId) = .ok (next, prepared) ∧
      Prepares market command next prepared := by
  have issued := aggresses.issued
  have represents := agrees.represents
  have desks := stands.valid.desk_valid found
  have usable : entry.executor.policy.valid = true := by
    rw [agrees.policy]
    exact desks.usable
  have plan := represents.planMatches checks aggresses.toMeets
  have removing : (replaced.map OrderNodeSpec.orderId).isSome = replaced.isSome := by
    cases replaced <;> rfl
  have capacities := stands.withinCapacities found agrees aggresses fresh
  have leaving : (replaced.map OrderNodeSpec.orderId).toList ++
      MultiInstrumentEngine.filledOrders (planOf desk.ladder order) =
        ids (desk.ladder.leavers order replaced) := by
    rw [aggresses.filledOrders, Aggresses.leavers_eq, ids, ids, List.map_append]
    cases replaced <;> rfl
  have removals := stands.collectRemovals (fun leaver leaves =>
    Market.Valid.mem_of_desk found (aggresses.mem_leavers leaves))
  have accepts : command.validateState entry.executor.book entry.executor.policy = .accept :=
    submits.validateState shaped represents aggresses (by rw [agrees.policy]; exact limited)
      (by rw [agrees.policy]; exact aligned)
  have prepares := submits.prepareAdmitted checks represents aggresses
  have size : Word.atMax64 engine.activeOrders.size = false := by
    rw [stands.owners_size]
    exact Word.atMax64_of_lt (room stands.valid aggresses.wellFormed.id fresh)
  simp only [Market.judgeAggressor] at judged
  rw [MultiInstrumentEngine.prepareAggressor, BookEntry.book, plan, Run.ok_bind]
  simp only
  rw [removing, capacities]
  cases exceeds : market.exceeds desk
      (desk.ladder.after order replaced market.sequencer.nextSequence) with
  | true =>
    -- A capacity of the book or of the engine stands against the command.
    obtain ⟨batch, made, events⟩ := rejectionBatch command issued
      (.reject .capacityExceeded order.orderId)
    rw [exceeds, Bool.true_or, if_pos rfl] at judged
    refine ⟨_, _, ?_, .refused (stands.activate true) unspent judged events⟩
    simp only [Bool.not_true, Bool.not_false, ↓reduceIte, made, Run.ok_bind, Run.pure_eq]
  | false =>
    rw [exceeds, Bool.false_or] at judged
    have capacity : decide (entry.executor.policy.maxActiveOrders.toNat <
        (desk.ladder.after order replaced market.sequencer.nextSequence).orders.length) =
          false := by
      rw [agrees.policy]
      exact (Bool.or_eq_false_iff.mp exceeds).1
    have refuses : Represents.refuses entry.executor.policy desk.ladder order replaced
        market.sequencer.nextSequence = desk.ladder.overflows order replaced := by
      rw [Represents.refuses, capacity, Bool.false_or]
    simp only [Bool.not_false, Bool.not_true, Bool.false_eq_true, ↓reduceIte, leaving, removals,
      size, Bool.and_false, planOf_residualDisposition, MultiInstrumentEngine.prepareBook]
    cases overflows : desk.ladder.overflows order replaced with
    | true =>
      obtain ⟨batch, immediate, events⟩ := represents.prepareAggressor_refused checks aggresses
        (refuses.trans overflows) command.commandType opening (opening.length + 1)
      rw [prepareAt_admitted checks agrees.leased usable issued represents accepts
        (prepares.trans immediate), Run.ok_bind]
      have refusal : batch.events = Market.refusal market.sequencer.nextSequence command
          (.reject .capacityExceeded order.orderId) := by
        rw [events, Market.refusal, ValidationDecision.reject, nonzero,
          if_neg aggresses.wellFormed.id]
      have rejected : PreparedCommandExecution.rejected
          { PreparedCommandExecution.immediate (.ok batch) with leased := true } = true :=
        rejected_of_events events
      rw [overflows, if_pos rfl] at judged
      have leased : Stands (MultiInstrumentEngine.setExecutor
          { engine with preparationActive := true } command.instrumentId entry
            { entry.executor with preparationActive := true }) market true
              (some (command.instrumentId, none)) :=
        (stands.activate true).letBook found agrees represents (by simp)
      refine ⟨_, _, ?_, .overflowed leased unspent found judged refusal⟩
      simp only [Run.ok_bind, Run.pure_eq, rejected, isExecutorCapacityRejection events,
        show PreparedCommandExecution.hasValue
          { PreparedCommandExecution.immediate (.ok batch) with leased := true } = true from rfl,
        Bool.not_true, Bool.false_eq_true, ↓reduceIte]
    | false =>
      rw [overflows, if_neg Bool.false_ne_true] at judged
      by_cases long : 2 ^ 32 < (desk.ladder.report order replaced market.sequencer.nextSequence
          opening).length
      · obtain ⟨restored, failed, back⟩ := represents.prepareAggressor_long checks aggresses
          (refuses.trans overflows) command.commandType submits.opening_length long
        rw [prepareAt_admitted checks agrees.leased usable issued represents accepts
          (prepares.trans failed), Run.ok_bind]
        have leased : Stands (MultiInstrumentEngine.setExecutor
            { engine with preparationActive := true } command.instrumentId entry
              { entry.executor with book := restored, preparationActive := true }) market true
                (some (command.instrumentId, none)) :=
          (stands.activate true).letBook found agrees back (by simp)
        obtain ⟨dropped, drops, free⟩ := leased.dropPreparation checks found
          { PreparedCommandExecution.immediate (.error .eventCountOverflow) with leased := true }
          rfl rfl
        refine ⟨{ dropped with preparationActive := false }, .failed command .internalFailure, ?_,
          .failed (free.activate false) ?_⟩
        · simp only [Run.ok_bind, Run.pure_eq, drops,
            show PreparedCommandExecution.hasValue { PreparedCommandExecution.immediate
              (.error .eventCountOverflow) with leased := true } = false from rfl,
            Bool.not_false, ↓reduceIte]
        · simp only [Market.step, unspent, judged, Bool.false_eq_true, ↓reduceIte, if_pos long]
      · obtain ⟨next, batch, staged, pending, events⟩ := represents.prepareAggressor_staged checks
          aggresses (refuses.trans overflows) command.commandType submits.opening_length long
        have placed : stagedExecution entry.executor.address desk.ladder order replaced
            market.sequencer.nextSequence batch = stagedExecution command.instrumentId.toNat
              desk.ladder order replaced market.sequencer.nextSequence batch := by
          rw [agrees.placed]
        rw [placed] at staged
        rw [prepareAt_admitted checks agrees.leased usable issued represents accepts
          (prepares.trans staged), Run.ok_bind]
        obtain ⟨rest, opens⟩ := report_accepted submits desk.ladder market.sequencer.nextSequence
        have accepted := (accepted_of_events (events.trans (by rw [opens]))).2
        have leased : Stands (MultiInstrumentEngine.setExecutor
            { engine with preparationActive := true } command.instrumentId entry
              { entry.executor with book := next, preparationActive := true }) market true
                (some (command.instrumentId, Aggresses.pending desk.ladder order replaced
                  market.sequencer.nextSequence)) :=
          (stands.activate true).letBook found agrees pending aggresses.pending_pins
        have additions := additions aggresses
        refine ⟨_, _, ?_, .aggressor leased unspent found admitted submits aggresses fresh judged
          overflows long events⟩
        have rejected : PreparedCommandExecution.rejected { stagedExecution
            command.instrumentId.toNat desk.ladder order replaced
            market.sequencer.nextSequence batch with leased := true } = false := accepted
        simp only [Run.ok_bind, Run.pure_eq, rejected, additions.1, additions.2,
          show PreparedCommandExecution.hasValue { stagedExecution
            command.instrumentId.toNat desk.ladder order replaced
            market.sequencer.nextSequence batch with leased := true } = true from rfl,
          Bool.not_true, Bool.false_eq_true, ↓reduceIte]

/-- Preparing an admitted withdrawal. -/
theorem prepareWithdrawal {order : CancelOrder} {old : OrderNodeSpec}
    (stands : Stands engine market false none)
    (unspent : market.sequencer.exhausted = false) (shaped : order.validate = .none)
    (found : market.desk order.instrumentId = some desk)
    (agrees : BookAgrees order.instrumentId entry desk none)
    (admitted : Admitted market desk (.cancel order)) (member : old ∈ desk.ladder.orders)
    (named : old.orderId = order.orderId) (owned : old.clientId = order.clientId)
    (judged : market.judge (.cancel order) =
      .accept (desk.ladder.without old) (desk.ladder.withdrawalReport old)) :
    ∃ next prepared, engine.prepareWithdrawal checks (.cancel order) market.sequencer.nextSequence
        entry order.orderId = .ok (next, prepared) ∧
      Prepares market (.cancel order) next prepared := by
  have issued := stands.valid.next_ne_zero unspent
  have represents := agrees.represents
  have usable : entry.executor.policy.valid = true := by
    rw [agrees.policy]
    exact (stands.valid.desk_valid found).usable
  have removals : engine.collectRemovals [order.orderId] = some [identityRemoval old] := by
    have resting : ∀ leaver ∈ [old], leaver ∈ market.orders := by
      intro leaver leaves
      rw [List.mem_singleton.mp leaves]
      exact Market.Valid.mem_of_desk found member
    rw [← named]
    exact stands.collectRemovals resting
  obtain ⟨batch, prepares, events⟩ := represents.prepareCancel checks issued member named owned rfl
  have leased : Stands (MultiInstrumentEngine.setExecutor
      { engine with preparationActive := true } order.instrumentId entry
        { entry.executor with preparationActive := true }) market true
          (some (order.instrumentId, none)) :=
    (stands.activate true).letBook found agrees represents (by simp)
  refine ⟨_, _, ?_, .withdrawal leased unspent found admitted member ⟨order, rfl, named, owned⟩
    judged events⟩
  have accepted : PreparedCommandExecution.rejected
      { withdrawnExecution desk.ladder old batch with leased := true } = false :=
    (accepted_of_events events).2
  rw [MultiInstrumentEngine.prepareWithdrawal, removals]
  simp only [MultiInstrumentEngine.prepareBook]
  rw [prepareAt_admitted checks agrees.leased usable issued represents
    (validateState_withdrawal represents shaped member named owned) prepares, Run.ok_bind]
  simp only [Run.ok_bind, Run.pure_eq, accepted,
    show PreparedCommandExecution.hasValue
      { withdrawnExecution desk.ladder old batch with leased := true } = true from rfl,
    Bool.not_true, Bool.or_self, Bool.false_eq_true, ↓reduceIte]
  rfl

/-- The directory compares like a lookup over all resting orders. -/
theorem validateIdentity (stands : Stands engine market active lease) (clientId : ClientId)
    (instrumentId : InstrumentId) (orderId : OrderId) :
    engine.validateIdentity clientId instrumentId orderId =
      validateOwner (market.find orderId) clientId instrumentId orderId := by
  rw [MultiInstrumentEngine.validateIdentity, stands.owners]
  cases market.find orderId <;> rfl

/-- The directory knows the resting orders. -/
theorem owners_contains (stands : Stands engine market active lease) (orderId : OrderId) :
    engine.activeOrders.contains orderId = (market.find orderId).isSome := by
  rw [Std.ExtTreeMap.contains_eq_isSome_getElem?, stands.owners, Option.isSome_map]

/-- The refusals of an engine are those of its market. -/
theorem validateRouted (stands : Stands engine market active lease)
    (config : entry.config = desk.config) (command : Command) :
    engine.validateRouted command entry = market.decision command desk := by
  cases command with
  | newOrder order =>
    simp only [MultiInstrumentEngine.validateRouted, MultiInstrumentEngine.validateNew,
      Market.decision, config, stands.owners_contains]
  | cancel order => exact stands.validateIdentity _ _ _
  | replace order =>
    simp only [MultiInstrumentEngine.validateRouted, MultiInstrumentEngine.validateReplace,
      Market.decision, config, stands.owners_contains, stands.validateIdentity]

/-- An idle book is ready. -/
theorem targetReady (agrees : BookAgrees instrument entry desk none) :
    MultiInstrumentEngine.targetReady checks entry = .ok true := by
  have represents := agrees.represents
  have quiet : entry.book.hasPendingPreparation = false := by
    have node := represents.pendingNode
    have level := represents.pendingLevel
    have old := represents.replacedId
    simp only [Option.join_none, Option.map_none, Option.getD_none] at node level old
    simp [BookEntry.book, InstrumentBook.hasPendingPreparation, node, level, old]
  rw [MultiInstrumentEngine.targetReady, BookEntry.book,
    represents.checkedInvariants checks agrees.pins, Run.ok_bind]
  simp only [Bool.not_true, Bool.false_eq_true, ↓reduceIte, Run.pure_eq]
  rw [← BookEntry.book, quiet, Bool.not_false]

/-- A command of a known instrument is judged by its desk. -/
theorem validate_routed (stands : Stands engine market active none) {command : Command}
    (shaped : (MultiInstrumentEngine.shapeDecision command).accepted = true)
    (found : market.desk command.instrumentId = some desk) :
    ∃ entry, BookAgrees command.instrumentId entry desk none ∧
      engine.validate checks command = .ok (market.decision command desk, some entry) := by
  obtain ⟨entry, book, agrees⟩ := stands.findBook found
  have idle : BookAgrees command.instrumentId entry desk none := agrees
  refine ⟨entry, idle, ?_⟩
  rw [MultiInstrumentEngine.validate]
  simp only [shaped, book, targetReady checks idle, Run.ok_bind, Bool.not_true, Bool.false_eq_true,
    ↓reduceIte, Run.pure_eq, stands.validateRouted agrees.config]

/-- Validating a command on an idle engine. -/
theorem validate (stands : Stands engine market active none) (command : Command) :
    (∃ decision, engine.validate checks command = .ok (decision, none) ∧
      decision.accepted = false ∧ market.judge command = .refuse decision) ∨
    ∃ desk entry, market.desk command.instrumentId = some desk ∧
      BookAgrees command.instrumentId entry desk none ∧
      (MultiInstrumentEngine.shapeDecision command).accepted = true ∧
      engine.validate checks command = .ok (market.decision command desk, some entry) ∧
      market.judge command = market.judgeAt command desk := by
  cases shaped : (MultiInstrumentEngine.shapeDecision command).accepted with
  | false =>
    rw [MultiInstrumentEngine.validate, Market.judge, shaped]
    refine Or.inl ⟨_, ?_, shaped, ?_⟩ <;>
      simp only [Bool.not_false, ↓reduceIte, Run.pure_eq]
  | true =>
    cases found : market.desk command.instrumentId with
    | none =>
      have missing : engine.findBook command.instrumentId = none :=
        stands.books.find?_none.mpr found
      rw [MultiInstrumentEngine.validate, Market.judge, shaped, found]
      refine Or.inl ⟨_, ?_, ?_, rfl⟩
      · simp only [missing, Bool.not_true, Bool.false_eq_true, ↓reduceIte, Run.pure_eq]
      · simp
    | some desk =>
      obtain ⟨entry, agrees, validated⟩ := stands.validate_routed checks shaped found
      refine Or.inr ⟨desk, entry, rfl, agrees, rfl, validated, ?_⟩
      rw [Market.judge, shaped, found]
      simp only [Bool.not_true, Bool.false_eq_true, ↓reduceIte]

/-- Preparing a command on an idle engine. -/
theorem prepareState (stands : Stands engine market false none) (command : Command) :
    ∃ next prepared, engine.prepareState checks command = .ok (next, prepared) ∧
      Prepares market command next prepared := by
  have unavailable : engine.unavailableSequence = market.sequencer.exhausted := by
    rw [MultiInstrumentEngine.unavailableSequence, stands.sequencer, ← stands.valid.sequenced,
      Bool.or_self]
  have next : engine.sequencer.nextSequence = market.sequencer.nextSequence := by
    rw [stands.sequencer]
  rw [MultiInstrumentEngine.prepareState, stands.active, if_neg Bool.false_ne_true, unavailable]
  simp only [next]
  cases unspent : market.sequencer.exhausted with
  | true =>
    exact ⟨engine, .failed command .sequenceExhausted, rfl, .failed stands
      (by simp [Market.step, unspent])⟩
  | false =>
    rw [if_neg Bool.false_ne_true]
    have issued := stands.valid.next_ne_zero unspent
    have refused : ∀ decision, market.judge command = .refuse decision →
        ∃ batch, MultiInstrumentEngine.rejectionBatch market.sequencer.nextSequence command
            decision = .ok batch ∧
          Prepares market command { engine with preparationActive := true }
            (.refused command market.sequencer.nextSequence batch) := by
      intro decision judged
      obtain ⟨batch, made, events⟩ := rejectionBatch command issued decision
      exact ⟨batch, made, .refused (stands.activate true) unspent judged events⟩
    rcases stands.validate checks command with
      ⟨decision, validated, refuses, judged⟩ | ⟨desk, entry, found, agrees, shaped, validated,
        judged⟩
    · obtain ⟨batch, made, prepares⟩ := refused decision judged
      refine ⟨_, _, ?_, prepares⟩
      simp only [validated, Run.ok_bind, MultiInstrumentEngine.validTarget, refuses, Bool.and_false,
        Bool.not_false, Bool.false_eq_true, ↓reduceIte, made, Run.pure_eq]
    · cases decided : (market.decision command desk).accepted with
      | false =>
        obtain ⟨batch, made, prepares⟩ := refused (market.decision command desk) (by
          rw [judged, Market.judgeAt, decided]
          rfl)
        refine ⟨_, _, ?_, prepares⟩
        simp only [validated, Run.ok_bind, MultiInstrumentEngine.validTarget,
          targetReady checks agrees, decided, Bool.and_false, Bool.not_false, Bool.false_eq_true,
          ↓reduceIte, made, Run.pure_eq]
      | true =>
        have admitted := stands.valid.admitted unspent shaped found decided
        rw [Market.judgeAt, decided, Bool.not_true, if_neg Bool.false_ne_true] at judged
        simp only [validated, Run.ok_bind, MultiInstrumentEngine.validTarget,
          targetReady checks agrees, decided, Bool.not_true, Bool.false_and, Bool.false_eq_true,
          ↓reduceIte]
        have known := admitted
        cases admitted with
        | @aggressor _ order replaced opening submits aggresses fresh limited aligned same =>
          have staged := stands.prepareAggressor checks unspent shaped found agrees known submits
            aggresses fresh limited aligned (judged.trans same)
          cases submits with
          | new => exact staged
          | exchange exchanged old named owned routed =>
            have rests : entry.book.find exchanged.oldOrderId = some old := by
              rw [BookEntry.book, agrees.represents.find]
              exact aggresses.valid.find_eq_some_iff.mpr ⟨(aggresses.replaces old rfl).1, named⟩
            rw [MultiInstrumentEngine.prepareRouted, rests]
            simp only
            rw [← owned, ← named]
            exact staged
        | @withdrawal order old member named owned same =>
          rw [MultiInstrumentEngine.shapeDecision, ValidationDecision.reject_accepted,
            decide_eq_true_eq] at shaped
          exact stands.prepareWithdrawal checks unspent shaped found agrees known member named
            owned (judged.trans same)

end Stands

end AtlasLob
