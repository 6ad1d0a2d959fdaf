import AtlasLob.Verif.Reports

/-!
# Capacity refusals

A new order or the new order of an exchange is refused for capacity exactly when executing it
would break a limit: the number of orders of its book, the number of orders of the engine, or the
sum of the level it would rest at. The counts are read from the orders that the trades of its plan
leave on the book; the unsigned arithmetic of the projections never wraps.
-/

namespace AtlasLob

open PriceLevel

variable (checks : Bool)

namespace InstrumentBook

/-- The orders of a side apart from a replaced one. -/
def keptOrders (book : InstrumentBook) (side : Side) (replaced : Option OrderNodeSpec) :
    List OrderNodeSpec :=
  (book.sideOrders side).filter fun resting =>
    replaced.all fun old => decide (resting.orderId ≠ old.orderId)

/-- The orders that the trades of an aggressor and its exchange leave. -/
def survivors (book : InstrumentBook) (order : NewOrder) (replaced : Option OrderNodeSpec)
    (plan : MatchPlan) : List OrderNodeSpec :=
  book.keptOrders order.side replaced ++
    (book.sideOrders order.side.opposite).filterMap (afterTrades plan.trades)

/-- The number of orders after an aggressor: the survivors and a resting residual. -/
def countAfter (book : InstrumentBook) (order : NewOrder) (replaced : Option OrderNodeSpec)
    (plan : MatchPlan) : Nat :=
  (book.survivors order replaced plan).length + if plan.residualDisposition = .rest then 1 else 0

/-- The units at a price of the aggressor's own side apart from a replaced order. -/
def unitsAt (book : InstrumentBook) (order : NewOrder) (replaced : Option OrderNodeSpec)
    (price : PriceTicks) : Nat :=
  total ((book.keptOrders order.side replaced).filter fun resting => decide (resting.price = price))

end InstrumentBook

/-- The order a command submits to a book, with the order it replaces there. -/
inductive SubmitsTo (book : InstrumentBook) : Command → NewOrder → Option OrderNodeSpec → Prop
  | new (order : NewOrder) : SubmitsTo book (.newOrder order) order none
  | replace {order : ReplaceOrder} {old : OrderNodeSpec}
      (rests : book.find order.oldOrderId = some old) :
      SubmitsTo book (.replace order) (CommandExecutor.replacementOf old order) (some old)

/-- Executing an aggressor would break a limit of its book, of the engine or of a level. -/
def ExceedsCapacity (engine : MultiInstrumentEngine) (entry : BookEntry) (order : NewOrder)
    (replaced : Option OrderNodeSpec) (plan : MatchPlan) : Prop :=
  entry.config.matching.maxActiveOrders.toNat < entry.book.countAfter order replaced plan ∨
  engine.config.maxTotalActiveOrders.toNat <
    engine.activeOrders.size - entry.book.activeOrderCount +
      entry.book.countAfter order replaced plan ∨
  (plan.residualDisposition = .rest ∧ ∃ price, order.limitPrice = some price ∧
    2 ^ 64 - 1 < entry.book.unitsAt order replaced price + plan.residualQuantity.toNat)

/-- A projection of a number of orders in which nothing wraps. -/
structure CountsExactly (plan : MatchPlan) (current : Nat) (removes : Bool) (after : Nat) :
    Prop where
  /-- The orders that leave were counted within a word. -/
  leaving : ∃ filled, countFilled 0 plan.trades = .ok filled ∧ filled + removes.toNat < 2 ^ 64 ∧
    filled + removes.toNat ≤ current ∧
    after + (filled + removes.toNat) =
      current + if plan.residualDisposition = .rest then 1 else 0
  /-- So was the number after them. -/
  bounded : after < 2 ^ 64
  projected : projectActiveOrderCount plan current removes = .ok after

/-- The queue at a price holds the orders of that price. -/
theorem Levels.queueAt_eq_filter {levels : Levels} (distinct : (SortedMap.keys levels).Nodup)
    (priced : ∀ price queue, (price, queue) ∈ levels → ∀ order ∈ queue, order.price = price)
    (price : PriceTicks) :
    levels.queueAt price = levels.orders.filter fun order => decide (order.price = price) := by
  induction levels with
  | nil => rfl
  | cons entry rest ih =>
    obtain ⟨first, queue⟩ := entry
    rw [SortedMap.keys, List.map_cons, List.nodup_cons] at distinct
    have here := priced first queue (List.mem_cons_self ..)
    have later := ih distinct.2 fun price queue inside =>
      priced price queue (List.mem_cons_of_mem _ inside)
    rw [Levels.orders_cons, List.filter_append]
    by_cases same : first = price
    · subst same
      have absent : first ∉ SortedMap.keys rest := distinct.1
      rw [Levels.queueAt_of_not_mem absent] at later
      rw [← later, List.append_nil, List.filter_eq_self.mpr fun order inside => by
        simpa using here order inside, Levels.queueAt, SortedMap.find?, if_pos rfl,
          Option.getD_some]
    · have none : (queue.filter fun order => decide (order.price = price)) = [] := by
        rw [List.filter_eq_nil_iff]
        intro order inside
        rw [here order inside]
        simpa using same
      rw [none, List.nil_append, ← later, Levels.queueAt, Levels.queueAt, SortedMap.find?,
        if_neg same]

namespace Represents

variable {instrument : InstrumentId} {book : InstrumentBook} {ladder : Ladder} {order : NewOrder}
  {replaced : Option OrderNodeSpec} {sequence : Sequence}

/-- The kept orders of a side are those of the ladder without the replaced order. -/
theorem keptOrders (represents : Represents instrument book ladder none)
    (aggresses : Aggresses instrument ladder order replaced sequence) :
    book.keptOrders order.side replaced =
      Levels.orders ((withoutReplaced ladder replaced).side order.side) := by
  have known := aggresses.wellFormed.side
  rw [InstrumentBook.keptOrders, represents.sideOrders known]
  cases replaced with
  | none => simp [withoutReplaced]
  | some old =>
    obtain ⟨member, -, sided, -⟩ := aggresses.replaces old rfl
    rw [withoutReplaced, Ladder.side_revise, Levels.orders_revise, ← List.filterMap_eq_filter]
    refine List.filterMap_congr fun resting inside => ?_
    have present : resting ∈ ladder.orders :=
      (ladder.orders_perm order.side).mem_iff.mpr (List.mem_append_left _ inside)
    by_cases same : resting.orderId = old.orderId
    · have equal := aggresses.valid.eq_of_orderId present member same
      subst equal
      rw [reduceBy, if_pos rfl, if_pos (UInt64.le_iff_toNat_le.mpr (le_refl _))]
      simp
    · rw [reduceBy_of_ne same]
      simp [same]

/-- The survivors are the orders of the struck ladder. -/
theorem survivors (represents : Represents instrument book ladder none)
    (aggresses : Aggresses instrument ladder order replaced sequence) :
    (book.survivors order replaced (planOf ladder order)).Perm
      (ladder.struck order replaced).orders := by
  have known := Side.opposite_known aggresses.wellFormed.side
  have others : (book.sideOrders order.side.opposite).filterMap
      (afterTrades (planOf ladder order).trades) =
        Levels.orders ((ladder.struck order replaced).side order.side.opposite) := by
    rw [represents.sideOrders known, Aggresses.struck_eq, Ladder.side_revise,
      aggresses.removed_opposite, Levels.orders_revise, planOf_trades]
    refine List.filterMap_congr fun resting inside => ?_
    exact (settle_eq_afterTrades aggresses.executable aggresses.valid
      ((ladder.orders_perm order.side).mem_iff.mpr (List.mem_append_right _ inside))).symm
  rw [InstrumentBook.survivors, represents.keptOrders aggresses, others, ← aggresses.struck_own]
  exact ((ladder.struck order replaced).orders_perm order.side).symm

/-- The number of orders after an aggressor. -/
theorem countAfter (represents : Represents instrument book ladder none)
    (aggresses : Aggresses instrument ladder order replaced sequence) :
    book.countAfter order replaced (planOf ladder order) =
      (ladder.after order replaced sequence).orders.length := by
  have kept := (represents.survivors aggresses).length_eq
  rw [InstrumentBook.countAfter, kept, planOf_residualDisposition,  Ladder.after]
  by_cases rests : ladder.disposition order = .rest
  · rw [if_pos rests, if_pos rests, (Ladder.orders_join_perm _ _).length_eq, List.length_cons]
  · rw [if_neg rests, if_neg rests, Nat.add_zero]

/-- The units a residual meets at a price. -/
theorem unitsAt (represents : Represents instrument book ladder none)
    (aggresses : Aggresses instrument ladder order replaced sequence) (price : PriceTicks) :
    book.unitsAt order replaced price =
      total (((ladder.struck order replaced).side order.side).queueAt price) := by
  have side := aggresses.struck_valid.side aggresses.wellFormed.side
  rw [InstrumentBook.unitsAt, represents.keptOrders aggresses, ← aggresses.struck_own,
    Levels.queueAt_eq_filter (aggresses.struck_valid.keys_nodup aggresses.wellFormed.side)
      fun price queue level => (side.queue price queue level).priced]

/-- The projection of a number of orders that covers the book. -/
theorem countsExactly (represents : Represents instrument book ladder none)
    (aggresses : Aggresses instrument ladder order replaced sequence) {current : Nat}
    (bound : current < 2 ^ 64 - 1) (covers : ladder.orders.length ≤ current) :
    CountsExactly (planOf ladder order) current replaced.isSome
      (current - ladder.orders.length + book.countAfter order replaced (planOf ladder order)) := by
  have lengths := aggresses.after_length
  have leaving := aggresses.leaving_le
  have one : replaced.isSome.toNat = replaced.toList.length := by
    cases replaced <;> rfl
  have filled := countFilled_eq aggresses.executable.sound 0 (by omega)
  rw [Nat.zero_add, ← planOf_trades] at filled
  have small : (if ladder.disposition order = .rest then 1 else 0) ≤ 1 := by
    split_ifs <;> omega
  rw [represents.countAfter aggresses]
  refine ⟨⟨_, filled, ?_, ?_, ?_⟩, ?_, projectActiveOrderCount aggresses bound covers⟩
  · omega
  · omega
  · rw [planOf_residualDisposition]
    omega
  · omega

end Represents


/-- The engine refuses a command for capacity. -/
def RefusedForCapacity (engine : MultiInstrumentEngine) (command : Command) (order : NewOrder) :
    Prop :=
  ∃ next batch, engine.execute checks command = .ok (next, .success batch) ∧
    batch.events.map Event.payload =
      [.rejected command.commandType .capacityExceeded (some order.orderId)]

namespace Stands

variable {engine : MultiInstrumentEngine} {market : Market} {command : Command} {entry : BookEntry}
  {desk : Desk} {order : NewOrder} {replaced : Option OrderNodeSpec}

/-- A command that passes every other check is admitted at the desk of its book. -/
theorem admitted_of_validate (stands : Stands engine market false none)
    (unspent : market.sequencer.exhausted = false)
    (validated : engine.validate checks command = .ok (.accept, some entry)) :
    ∃ desk, market.desk command.instrumentId = some desk ∧
      BookAgrees command.instrumentId entry desk none ∧ Admitted market desk command ∧
      market.judge command = market.judgeAdmitted command desk := by
  rcases stands.validate checks command with ⟨decision, refused, -⟩ | ⟨desk, held, found, agrees,
    shaped, accepted, judged⟩
  · rw [refused, Except.ok.injEq, Prod.mk.injEq] at validated
    cases validated.2
  · rw [accepted, Except.ok.injEq, Prod.mk.injEq, Option.some.injEq] at validated
    obtain ⟨decided, rfl⟩ := validated
    have accepts : (market.decision command desk).accepted = true := by
      rw [decided]
      rfl
    refine ⟨desk, found, agrees, stands.valid.admitted unspent shaped found accepts, ?_⟩
    rw [judged, Market.judgeAt, accepts, Bool.not_true, if_neg Bool.false_ne_true]

/-- The aggressor of an admitted command is the one it submits to its book. -/
theorem aggresses_of_submitsTo (agrees : BookAgrees command.instrumentId entry desk none)
    (admitted : Admitted market desk command)
    (submits : SubmitsTo entry.book command order replaced) :
    Aggresses command.instrumentId desk.ladder order replaced market.sequencer.nextSequence ∧
      order.orderId ∉ ids market.orders ∧ ∃ opening, Submits command order replaced opening ∧
        market.judgeAdmitted command desk = market.judgeAggressor desk order replaced opening := by
  cases admitted with
  | @aggressor _ incoming removed opening presents aggresses fresh limited aligned same =>
    cases presents with
    | new =>
      cases submits
      exact ⟨aggresses, fresh, _, .new _, same⟩
    | exchange exchanged old named owned routed =>
      cases submits with
      | @replace _ other rests =>
        have found : entry.book.find exchanged.oldOrderId = some old := by
          rw [BookEntry.book, agrees.represents.find]
          exact aggresses.valid.find_eq_some_iff.mpr ⟨(aggresses.replaces old rfl).1, named⟩
        rw [found, Option.some.injEq] at rests
        subst rests
        exact ⟨aggresses, fresh, _, .exchange _ _ named owned routed, same⟩
  | withdrawal => cases submits

/-- The level of a replaced order covers it. -/
theorem level_covers (agrees : BookAgrees command.instrumentId entry desk none)
    (aggresses : Aggresses command.instrumentId desk.ladder order replaced
      market.sequencer.nextSequence) {old : OrderNodeSpec} (replaces : old ∈ replaced) :
    ∃ level, entry.book.findLevel old.side old.price = some level ∧
      old.remainingQuantity ≤ level.aggregateQuantity ∧ level.orderCount ≠ 0 := by
  obtain ⟨member, -⟩ := aggresses.replaces old replaces
  have valid := agrees.represents.valid
  obtain ⟨before, behind, split, present⟩ := valid.queueAt_split member
  have fits := Represents.queueAt_fits valid (valid.sided member) old.price
  have part := valid.total_without member
  refine ⟨_, agrees.represents.findLevel_of_mem old.side present, ?_, ?_⟩
  · rw [describe_aggregateQuantity, UInt64.le_iff_toNat_le, aggregate_toNat fits]
    omega
  · rw [describe_orderCount, split]
    simp

/-- A limit stands against an aggressor in the market exactly when one does on its book. -/
theorem exceedsCapacity_iff (stands : Stands engine market false none)
    (found : market.desk command.instrumentId = some desk)
    (agrees : BookAgrees command.instrumentId entry desk none)
    (aggresses : Aggresses command.instrumentId desk.ladder order replaced
      market.sequencer.nextSequence) :
    ExceedsCapacity engine entry order replaced (planOf desk.ladder order) ↔
      market.exceeds desk
          (desk.ladder.after order replaced market.sequencer.nextSequence) = true ∨
        desk.ladder.overflows order replaced = true := by
  have represents := agrees.represents
  obtain ⟨others, split, -⟩ := Market.orders_split found
  have sizes := split.length_eq
  rw [List.length_append] at sizes
  have level : ((planOf desk.ladder order).residualDisposition = .rest ∧
      ∃ price, order.limitPrice = some price ∧
        2 ^ 64 - 1 < entry.book.unitsAt order replaced price +
        (planOf desk.ladder order).residualQuantity.toNat) ↔
      desk.ladder.overflows order replaced = true := by
    rw [planOf_residualDisposition, planOf_residualQuantity, Ladder.overflows, Bool.and_eq_true,
      decide_eq_true_eq, decide_eq_true_eq]
    refine and_congr_right fun rests => ?_
    obtain ⟨-, price, -, given, -⟩ := aggresses.rest_terms rests
    simp only [given, Option.some.injEq, exists_eq_left', BookEntry.book,
      represents.unitsAt aggresses, Option.getD_some]
    omega
  rw [ExceedsCapacity, level, BookEntry.book, represents.countAfter aggresses,
    represents.activeOrderCount, stands.owners_size, agrees.config, stands.config, Market.exceeds,
    Bool.or_eq_true, decide_eq_true_eq, decide_eq_true_eq, or_assoc]
  refine or_congr_right (or_congr_left ?_)
  omega

/-- An aggressor is refused for capacity exactly when a limit stands against it. -/
theorem refusedForCapacity_iff (stands : Stands engine market false none)
    (unspent : market.sequencer.exhausted = false) {opening : List EventPayload}
    (named : order.orderId ≠ 0) (submits : Submits command order replaced opening)
    (judged : market.judge command = market.judgeAggressor desk order replaced opening) :
    RefusedForCapacity checks engine command order ↔
      market.exceeds desk
          (desk.ladder.after order replaced market.sequencer.nextSequence) = true ∨
        desk.ladder.overflows order replaced = true := by
  obtain ⟨next, result, executed, -, replied⟩ := stands.execute checks command
  rw [Market.step, unspent, if_neg Bool.false_ne_true, judged] at replied
  simp only [Market.judgeAggressor] at replied
  rw [← Bool.or_eq_true, RefusedForCapacity]
  by_cases exceeds : (market.exceeds desk
      (desk.ladder.after order replaced market.sequencer.nextSequence) ||
        desk.ladder.overflows order replaced) = true
  · rw [if_pos exceeds] at replied
    obtain ⟨batch, rfl, events⟩ := EngineResult.reply_eq_ok replied
    refine iff_of_true ⟨next, batch, executed, ?_⟩ exceeds
    rw [events, Market.refusal, numberEvents_payloads, ValidationDecision.reject, nonzero,
      if_neg named]
  · rw [if_neg exceeds] at replied
    refine iff_of_false ?_ exceeds
    rintro ⟨again, batch, ran, events⟩
    rw [executed, Except.ok.injEq, Prod.mk.injEq] at ran
    obtain ⟨-, rfl⟩ := ran
    obtain ⟨rest, opens⟩ := report_accepted submits desk.ladder market.sequencer.nextSequence
    simp only [opens] at replied
    split_ifs at replied
    · cases replied
    · rw [EngineResult.reply, Except.ok.injEq] at replied
      rw [replied, numberEvents_payloads] at events
      cases events

end Stands

variable {catalog : List InstrumentConfig} {config : MultiInstrumentEngineConfig}
  {engine : MultiInstrumentEngine}

/-- A new order or an exchange that passes every other check on a reached engine is refused for
capacity exactly when executing it would break a limit; without a resting residual it never is. -/
theorem capacity_refusal_exact (reaches : Reaches checks catalog config engine)
    (unspent : engine.sequencer.exhausted = false) {command : Command} {entry : BookEntry}
    {order : NewOrder} {replaced : Option OrderNodeSpec}
    (validated : engine.validate checks command = .ok (.accept, some entry))
    (submits : SubmitsTo entry.book command order replaced) :
    ∃ plan, planMatches checks order entry.book = .ok (.ok plan) ∧
      entry.book.activeOrderCount ≤ engine.activeOrders.size ∧
      CountsExactly plan entry.book.activeOrderCount replaced.isSome
        (entry.book.countAfter order replaced plan) ∧
      CountsExactly plan engine.activeOrders.size replaced.isSome
        (engine.activeOrders.size - entry.book.activeOrderCount +
          entry.book.countAfter order replaced plan) ∧
      (∀ old ∈ replaced, ∃ level, entry.book.findLevel old.side old.price = some level ∧
        old.remainingQuantity ≤ level.aggregateQuantity ∧ level.orderCount ≠ 0) ∧
      (RefusedForCapacity checks engine command order ↔
        ExceedsCapacity engine entry order replaced plan) ∧
      (plan.residualDisposition ≠ .rest → ¬ RefusedForCapacity checks engine command order) := by
  obtain ⟨commands, stands⟩ := reaches.stands
  rw [stands.sequencer] at unspent
  obtain ⟨desk, found, agrees, admitted, judged⟩ :=
    stands.admitted_of_validate checks unspent validated
  obtain ⟨aggresses, fresh, opening, presents, same⟩ :=
    Stands.aggresses_of_submitsTo agrees admitted submits
  have represents := agrees.represents
  have refusal := stands.refusedForCapacity_iff checks unspent aggresses.wellFormed.id presents
    (judged.trans same)
  have exceeds := stands.exceedsCapacity_iff found agrees aggresses
  obtain ⟨others, split, -⟩ := Market.orders_split found
  have sizes := split.length_eq
  rw [List.length_append] at sizes
  have here := represents.countsExactly aggresses aggresses.length_lt (le_refl _)
  have there := represents.countsExactly aggresses
    (Stands.room stands.valid aggresses.wellFormed.id fresh)
    (show desk.ladder.orders.length ≤ _ by omega)
  rw [Nat.sub_self, Nat.zero_add] at here
  have count : entry.book.activeOrderCount = desk.ladder.orders.length :=
    represents.activeOrderCount
  refine ⟨planOf desk.ladder order, represents.planMatches checks aggresses.toMeets, ?_, ?_, ?_, ?_,
    ?_, ?_⟩
  · rw [count, stands.owners_size]
    omega
  · rw [count]
    exact here
  · rw [count, stands.owners_size]
    exact there
  · exact fun old replaces => Stands.level_covers agrees aggresses replaces
  · rw [refusal, exceeds]
  · intro gone
    rw [planOf_residualDisposition] at gone
    have lengths := aggresses.after_length
    rw [if_neg gone] at lengths
    have local' := (stands.valid.desk_valid found).capacity
    have total := stands.valid.total
    rw [refusal, not_or, Market.exceeds, Bool.or_eq_true, not_or, decide_eq_true_eq,
      decide_eq_true_eq, Ladder.overflows]
    refine ⟨⟨by omega, by omega⟩, ?_⟩
    simp [gone]

/-- A new order passes every other check against the two sells of the session. -/
theorem session_validates {engine : MultiInstrumentEngine}
    (stands : Stands engine (sessionMarket.run (sessionCommands.take 2)).1 false none)
    (order : NewOrder) (routed : order.instrumentId = 1)
    (shaped : (MultiInstrumentEngine.shapeDecision (.newOrder order)).accepted = true)
    (accepts : (sessionMarket.run (sessionCommands.take 2)).1.decision (.newOrder order)
      ⟨⟨1, ⟨100, 5, 3⟩⟩, sessionLadder⟩ = .accept) :
    ∃ entry, engine.validate true (.newOrder order) = .ok (.accept, some entry) ∧
      Represents 1 entry.book sessionLadder none := by
  have same : (Command.newOrder order).instrumentId = 1 := routed
  obtain ⟨entry, agrees, validated⟩ :=
    stands.validate_routed true shaped (same.symm ▸ session_desk)
  have represents := agrees.represents
  rw [same] at represents
  exact ⟨entry, accepts ▸ validated, represents⟩

/-- With two orders resting, as many as the engine may hold, a buy that would rest behind them is
refused for capacity, and one that takes what it can and never rests is not. -/
theorem capacity_refusal_exact_session :
    ∃ engine results entry plan target taken,
      (singleEngine ⟨1, ⟨100, 5, 3⟩⟩ ⟨2⟩).run true (sessionCommands.take 2) =
        .ok (engine, results) ∧
      engine.validate true (.newOrder ⟨5, 5, 1, .buy, .limit, .gtc, some 10, 6⟩) =
        .ok (.accept, some entry) ∧
      planMatches true ⟨5, 5, 1, .buy, .limit, .gtc, some 10, 6⟩ entry.book = .ok (.ok plan) ∧
      ExceedsCapacity engine entry ⟨5, 5, 1, .buy, .limit, .gtc, some 10, 6⟩ none plan ∧
      RefusedForCapacity true engine (.newOrder ⟨5, 5, 1, .buy, .limit, .gtc, some 10, 6⟩)
        ⟨5, 5, 1, .buy, .limit, .gtc, some 10, 6⟩ ∧
      engine.validate true (.newOrder ⟨5, 5, 1, .buy, .limit, .ioc, some 15, 6⟩) =
        .ok (.accept, some target) ∧
      planMatches true ⟨5, 5, 1, .buy, .limit, .ioc, some 15, 6⟩ target.book = .ok (.ok taken) ∧
      taken.trades.length = 1 ∧
      ¬ RefusedForCapacity true engine (.newOrder ⟨5, 5, 1, .buy, .limit, .ioc, some 15, 6⟩)
        ⟨5, 5, 1, .buy, .limit, .ioc, some 15, 6⟩ := by
  obtain ⟨engine, results, ran, reaches, stands, -⟩ := single_run (sessionCommands.take 2)
  obtain ⟨unspent, -⟩ := session_moderate (by decide) stands (.cancel ⟨1, 1, 1⟩)
  obtain ⟨entry, validated, -⟩ := session_validates stands
    ⟨5, 5, 1, .buy, .limit, .gtc, some 10, 6⟩ rfl (by decide) (by decide +kernel)
  obtain ⟨target, accepted, represents⟩ := session_validates stands
    ⟨5, 5, 1, .buy, .limit, .ioc, some 15, 6⟩ rfl (by decide) (by decide +kernel)
  obtain ⟨plan, planned, -, -, -, -, refusedIff, -⟩ :=
    capacity_refusal_exact true reaches unspent validated (.new _)
  obtain ⟨taken, takes, -, -, -, -, -, never⟩ :=
    capacity_refusal_exact true reaches unspent accepted (.new _)
  have refused : RefusedForCapacity true engine
      (.newOrder ⟨5, 5, 1, .buy, .limit, .gtc, some 10, 6⟩)
      ⟨5, 5, 1, .buy, .limit, .gtc, some 10, 6⟩ := by
    obtain ⟨next, result, executed, -, replied⟩ :=
      stands.execute true (.newOrder ⟨5, 5, 1, .buy, .limit, .gtc, some 10, 6⟩)
    have reply : ((sessionMarket.run (sessionCommands.take 2)).1.step
        (.newOrder ⟨5, 5, 1, .buy, .limit, .gtc, some 10, 6⟩)).2 = .ok (numberEvents 3 1 0
          [.rejected .newOrder .capacityExceeded (some 5)]) := by
      decide +kernel
    obtain ⟨batch, rfl, events⟩ := EngineResult.reply_eq_ok (replied.trans reply)
    exact ⟨next, batch, executed, by rw [events]; rfl⟩
  rcases represents.planMatches_cases true ⟨5, 5, 1, .buy, .limit, .ioc, some 15, 6⟩ with
    ⟨-, error, fails⟩ | meets
  · rw [takes] at fails
    cases fails
  · have same := takes.symm.trans (represents.planMatches true meets)
    rw [Except.ok.injEq, Except.ok.injEq] at same
    subst same
    exact ⟨engine, results, entry, plan, target, _, ran, validated, planned, refusedIff.mp refused,
      refused, accepted, takes, by decide +kernel, never (by decide +kernel)⟩

end AtlasLob
