import AtlasLob.Spec.Splitting
import AtlasLob.Verif.ProjectedTop
import AtlasLob.Verif.TradeBound

/-!
# An exchange is a withdrawal and a new order

Removing the old order does not touch the side an exchange trades with. So its executions, what is
left of it and the books after it are those of the new order alone in the books without the old
one, and the capacities refuse both or neither.
-/

namespace AtlasLob

open PriceLevel

section Ladders

variable {instrument : InstrumentId} {ladder : Ladder} {order : NewOrder} {old : OrderNodeSpec}
  {sequence : Sequence}

namespace Aggresses

/-- The new order reaches the same orders once the old one is gone. -/
theorem reach_without (aggresses : Aggresses instrument ladder order (some old) sequence) :
    (ladder.without old).reach order = ladder.reach order := by
  have same := aggresses.removed_opposite
  rw [withoutReplaced, ← Represents.without_eq] at same
  rw [Ladder.reach, Ladder.reach, same]

/-- So it executes the same. -/
theorem fills_without (aggresses : Aggresses instrument ladder order (some old) sequence) :
    (ladder.without old).fills order = ladder.fills order := by
  rw [Ladder.fills, Ladder.fills, aggresses.reach_without]

/-- The same is left of it. -/
theorem left_without (aggresses : Aggresses instrument ladder order (some old) sequence) :
    (ladder.without old).left order = ladder.left order := by
  rw [Ladder.left, Ladder.left, aggresses.reach_without]

/-- And the same becomes of it. -/
theorem disposition_without (aggresses : Aggresses instrument ladder order (some old) sequence) :
    (ladder.without old).disposition order = ladder.disposition order := by
  rw [Ladder.disposition, Ladder.disposition, aggresses.left_without]

/-- The executions leave the same books. -/
theorem struck_without (aggresses : Aggresses instrument ladder order (some old) sequence) :
    (ladder.without old).struck order none = ladder.struck order (some old) := by
  rw [struck_eq, struck_eq, aggresses.fills_without, withoutReplaced, withoutReplaced,
    Represents.without_eq]

/-- The new order leaves the same books. -/
theorem after_without (aggresses : Aggresses instrument ladder order (some old) sequence) :
    (ladder.without old).after order none sequence = ladder.after order (some old) sequence := by
  rw [Ladder.after, Ladder.after, aggresses.disposition_without, aggresses.struck_without,
    Ladder.rested, Ladder.rested, aggresses.left_without]

/-- Its level overflows in both or in neither. -/
theorem overflows_without (aggresses : Aggresses instrument ladder order (some old) sequence) :
    (ladder.without old).overflows order none = ladder.overflows order (some old) := by
  rw [Ladder.overflows, Ladder.overflows, aggresses.disposition_without, aggresses.struck_without,
    aggresses.left_without]

end Aggresses

end Ladders

section Markets

variable {market : Market} {desk : Desk} {order : ReplaceOrder} {old : OrderNodeSpec}

/-- A market without one of its orders. -/
def Market.removing (market : Market) (desk : Desk) (old : OrderNodeSpec) : Market :=
  market.setLadder old.instrumentId desk (desk.ladder.without old)

/-- Its counter is the same. -/
theorem Market.removing_sequencer (market : Market) (desk : Desk) (old : OrderNodeSpec) :
    (market.removing desk old).sequencer = market.sequencer := rfl

/-- An exchange that is neither malformed nor refused by the resting orders. -/
structure Exchanges (market : Market) (desk : Desk) (order : ReplaceOrder) (old : OrderNodeSpec) :
    Prop where
  shaped : (MultiInstrumentEngine.shapeDecision (.replace order)).accepted = true
  found : market.desk order.instrumentId = some desk
  decided : (market.decision (.replace order) desk).accepted = true
  rests : desk.ladder.find order.oldOrderId = some old

namespace Exchanges

/-- Its verdict is that on the replacement as an aggressor. -/
theorem judge (exchanges : Exchanges market desk order old) :
    market.judge (.replace order) = market.judgeAggressor desk
      (CommandExecutor.replacementOf old order) (some old)
      (replaceOpening order.oldOrderId order.newOrderId old.remainingQuantity) := by
  have found : market.desk (Command.replace order).instrumentId = some desk := exchanges.found
  rw [Market.judge, exchanges.shaped, found]
  simp only [Bool.not_true, Bool.false_eq_true, ↓reduceIte]
  rw [Market.judgeAt, exchanges.decided]
  simp only [Bool.not_true, Bool.false_eq_true, ↓reduceIte, Market.judgeAdmitted, exchanges.rests]

/-- What is known about the replacement. -/
theorem admitted (exchanges : Exchanges market desk order old) (valid : market.Valid)
    (unspent : market.sequencer.exhausted = false) :
    old.instrumentId = order.instrumentId ∧
      Aggresses order.instrumentId desk.ladder (CommandExecutor.replacementOf old order) (some old)
        market.sequencer.nextSequence ∧
      order.newOrderId ∉ ids market.orders ∧
      order.newQuantity ≤ desk.config.matching.maxOrderQuantity ∧
      isTickAligned order.newLimitPrice desk.config.matching.tickIncrement = true := by
  have admits := valid.admitted unspent exchanges.shaped exchanges.found exchanges.decided
  cases admits with
  | aggressor submits aggresses fresh limited aligned judged =>
    cases submits with
    | exchange _ other named owned routed =>
      have member := (aggresses.replaces other rfl).1
      have same := aggresses.valid.find_eq_some_iff.mpr ⟨member, named⟩
      rw [exchanges.rests, Option.some.injEq] at same
      subst same
      exact ⟨routed, aggresses, fresh, limited, aligned _ rfl⟩

/-- The desk without the old order. -/
theorem removing_desk (exchanges : Exchanges market desk order old)
    (routed : old.instrumentId = order.instrumentId) :
    (market.removing desk old).desk old.instrumentId =
      some { desk with ladder := desk.ladder.without old } := by
  have found := exchanges.found
  rw [← routed] at found
  show SortedMap.find? _ (SortedMap.set _ _ _) = _
  rw [SortedMap.find?_set found, if_pos rfl]

/-- The ID of the replacement is free without the old order too. -/
theorem removing_fresh (exchanges : Exchanges market desk order old)
    (routed : old.instrumentId = order.instrumentId)
    (fresh : order.newOrderId ∉ ids market.orders) :
    (market.removing desk old).find order.newOrderId = none := by
  have found := exchanges.found
  rw [← routed] at found
  obtain ⟨others, before, after⟩ := Market.orders_split found
  rw [Market.Valid.find_eq_none_iff]
  intro inside
  have here := (Ladder.ids_perm (after (desk.ladder.without old))).mem_iff.mp inside
  apply fresh
  rw [(Ladder.ids_perm before).mem_iff]
  simp only [ids, List.map_append, List.mem_append] at here ⊢
  refine here.imp_left ?_
  intro kept
  rw [Ladder.without, Ladder.orders_revise] at kept
  exact ((settle_shrinks _).ids_sublist _).subset kept

/-- The capacities refuse the replacement in both markets or in neither. -/
theorem removing_exceeds (exchanges : Exchanges market desk order old)
    (routed : old.instrumentId = order.instrumentId) (ladder : Ladder) :
    (market.removing desk old).exceeds { desk with ladder := desk.ladder.without old } ladder =
      market.exceeds desk ladder := by
  have found := exchanges.found
  rw [← routed] at found
  have sizes := Market.length_setLadder found (desk.ladder.without old)
  unfold Market.exceeds
  congr 1
  apply decide_eq_decide.mpr
  show market.config.maxTotalActiveOrders.toNat + (desk.ladder.without old).orders.length <
    (market.setLadder old.instrumentId desk (desk.ladder.without old)).orders.length + _ ↔ _
  omega

/-- The verdict on the replacement as a new order in the market without the old one. -/
theorem judge_removing (exchanges : Exchanges market desk order old) (valid : market.Valid)
    (unspent : market.sequencer.exhausted = false) :
    (market.removing desk old).judge (.newOrder (CommandExecutor.replacementOf old order)) =
      (market.removing desk old).judgeAggressor { desk with ladder := desk.ladder.without old }
        (CommandExecutor.replacementOf old order) none newOpening := by
  obtain ⟨routed, aggresses, fresh, limited, aligned⟩ := exchanges.admitted valid unspent
  have shaped : (MultiInstrumentEngine.shapeDecision
      (.newOrder (CommandExecutor.replacementOf old order))).accepted = true :=
    decide_eq_true (NewOrder.validate_eq_none_iff.mpr aggresses.wellFormed)
  have found : (market.removing desk old).desk
      (Command.newOrder (CommandExecutor.replacementOf old order)).instrumentId =
        some { desk with ladder := desk.ladder.without old } :=
    exchanges.removing_desk routed
  have decided : ((market.removing desk old).decision
      (.newOrder (CommandExecutor.replacementOf old order))
      { desk with ladder := desk.ladder.without old }).accepted = true := by
    have small : ¬ desk.config.matching.maxOrderQuantity < order.newQuantity := by
      rw [UInt64.lt_iff_toNat_lt, Nat.not_lt]
      exact UInt64.le_iff_toNat_le.mp limited
    have free := exchanges.removing_fresh routed fresh
    simp only [Market.decision, ValidationDecision.refuse_iff, ne_eq, reduceCtorEq,
      not_false_eq_true, CommandExecutor.replacementOf, small, free]
    simpa using aligned
  rw [Market.judge, shaped, found]
  simp only [Bool.not_true, Bool.false_eq_true, ↓reduceIte]
  rw [Market.judgeAt, decided]
  simp only [Bool.not_true, Bool.false_eq_true, ↓reduceIte, Market.judgeAdmitted]

/-- Whether the capacities refuse the replacement. -/
def Refuses (market : Market) (desk : Desk) (order : ReplaceOrder) (old : OrderNodeSpec) : Prop :=
  (market.exceeds desk (desk.ladder.after (CommandExecutor.replacementOf old order) (some old)
      market.sequencer.nextSequence) ||
    desk.ladder.overflows (CommandExecutor.replacementOf old order) (some old)) = true

/-- Both are refused for the same reason. -/
theorem refused (exchanges : Exchanges market desk order old) (valid : market.Valid)
    (unspent : market.sequencer.exhausted = false) (refuses : Refuses market desk order old) :
    market.judge (.replace order) = .refuse (.reject .capacityExceeded order.newOrderId) ∧
      (market.removing desk old).judge (.newOrder (CommandExecutor.replacementOf old order)) =
        .refuse (.reject .capacityExceeded order.newOrderId) := by
  obtain ⟨routed, aggresses, -⟩ := exchanges.admitted valid unspent
  unfold Refuses at refuses
  constructor
  · rw [exchanges.judge]
    simp only [Market.judgeAggressor]
    rw [if_pos refuses]
    rfl
  · rw [exchanges.judge_removing valid unspent]
    simp only [Market.judgeAggressor, Market.removing_sequencer, aggresses.after_without,
      aggresses.overflows_without, exchanges.removing_exceeds routed]
    rw [if_pos refuses]
    rfl

/-- Or both are accepted and leave the same ladder. -/
theorem accepted (exchanges : Exchanges market desk order old) (valid : market.Valid)
    (unspent : market.sequencer.exhausted = false) (fits : ¬ Refuses market desk order old) :
    market.judge (.replace order) = .accept
        (desk.ladder.after (CommandExecutor.replacementOf old order) (some old)
          market.sequencer.nextSequence)
        (desk.ladder.report (CommandExecutor.replacementOf old order) (some old)
          market.sequencer.nextSequence
          (replaceOpening order.oldOrderId order.newOrderId old.remainingQuantity)) ∧
      (market.removing desk old).judge (.newOrder (CommandExecutor.replacementOf old order)) =
        .accept (desk.ladder.after (CommandExecutor.replacementOf old order) (some old)
          market.sequencer.nextSequence)
        ((desk.ladder.without old).report (CommandExecutor.replacementOf old order) none
          market.sequencer.nextSequence newOpening) := by
  obtain ⟨routed, aggresses, -⟩ := exchanges.admitted valid unspent
  unfold Refuses at fits
  constructor
  · rw [exchanges.judge]
    simp only [Market.judgeAggressor]
    rw [if_neg fits]
  · rw [exchanges.judge_removing valid unspent]
    simp only [Market.judgeAggressor, Market.removing_sequencer, aggresses.after_without,
      aggresses.overflows_without, exchanges.removing_exceeds routed]
    rw [if_neg fits]

/-- The trades of the replacement and what becomes of the rest. -/
def body (ladder : Ladder) (order : ReplaceOrder) (old : OrderNodeSpec) : List EventPayload :=
  (ladder.fills (CommandExecutor.replacementOf old order)).map
      (Ladder.tradeEvent (CommandExecutor.replacementOf old order)) ++
    [ladder.closingEvent (CommandExecutor.replacementOf old order)]

/-- What the exchange reports: the withdrawal, the body and the change of the book. -/
def report (market : Market) (desk : Desk) (order : ReplaceOrder) (old : OrderNodeSpec) :
    List EventPayload :=
  replaceOpening order.oldOrderId order.newOrderId old.remainingQuantity ++
    body desk.ladder order old ++
    Ladder.changeEvents desk.ladder (desk.ladder.after (CommandExecutor.replacementOf old order)
      (some old) market.sequencer.nextSequence)

/-- What the replacement reports as a new order: the same body. -/
def aloneReport (market : Market) (desk : Desk) (order : ReplaceOrder) (old : OrderNodeSpec) :
    List EventPayload :=
  newOpening ++ body desk.ladder order old ++
    Ladder.changeEvents (desk.ladder.without old) ((desk.ladder.without old).after
      (CommandExecutor.replacementOf old order) none market.sequencer.nextSequence)

/-- These are the reports, and that of the new order is shorter. -/
theorem reports (exchanges : Exchanges market desk order old) (valid : market.Valid)
    (unspent : market.sequencer.exhausted = false) :
    desk.ladder.report (CommandExecutor.replacementOf old order) (some old)
        market.sequencer.nextSequence
        (replaceOpening order.oldOrderId order.newOrderId old.remainingQuantity) =
      report market desk order old ∧
    (desk.ladder.without old).report (CommandExecutor.replacementOf old order) none
        market.sequencer.nextSequence newOpening = aloneReport market desk order old ∧
    (aloneReport market desk order old).length ≤ (report market desk order old).length := by
  obtain ⟨-, aggresses, -⟩ := exchanges.admitted valid unspent
  have closes : (desk.ladder.without old).closingEvent (CommandExecutor.replacementOf old order) =
      desk.ladder.closingEvent (CommandExecutor.replacementOf old order) := by
    unfold Ladder.closingEvent
    rw [aggresses.disposition_without, aggresses.left_without]
  refine ⟨?_, ?_, ?_⟩
  · rw [Ladder.report, report, body, ← List.append_assoc]
  · rw [Ladder.report, aloneReport, body, aggresses.fills_without, closes, ← List.append_assoc]
  · have few : ∀ before after : Ladder, (Ladder.changeEvents before after).length ≤ 1 := by
      intro before after
      unfold Ladder.changeEvents
      split_ifs
      · exact Nat.zero_le _
      · exact Nat.le_refl _
    have alone := few (desk.ladder.without old) ((desk.ladder.without old).after
      (CommandExecutor.replacementOf old order) none market.sequencer.nextSequence)
    have opens : newOpening.length = 1 := rfl
    have reopens : (replaceOpening order.oldOrderId order.newOrderId
      old.remainingQuantity).length = 4 := rfl
    unfold report aloneReport
    simp only [List.length_append]
    omega

/-- The counter is not exhausted. -/
theorem unexhausted (unspent : market.sequencer.exhausted = false) :
    ¬ market.sequencer.exhausted = true := by
  rw [unspent]
  exact Bool.false_ne_true

/-- Where the capacities refuse both, both steps reject. -/
theorem steps_refused (exchanges : Exchanges market desk order old) (valid : market.Valid)
    (unspent : market.sequencer.exhausted = false) (refuses : Refuses market desk order old) :
    market.step (.replace order) = (market.advance, .ok (Market.refusal
        market.sequencer.nextSequence (.replace order)
        (.reject .capacityExceeded order.newOrderId))) ∧
      ((market.removing desk old).step
          (.newOrder (CommandExecutor.replacementOf old order))).2 = .ok (Market.refusal
        market.sequencer.nextSequence (.newOrder (CommandExecutor.replacementOf old order))
        (.reject .capacityExceeded order.newOrderId)) := by
  obtain ⟨first, second⟩ := exchanges.refused valid unspent refuses
  constructor
  · rw [Market.step, if_neg (unexhausted unspent), first]
  · rw [Market.step, Market.removing_sequencer, if_neg (unexhausted unspent), second]

/-- Where they do not, the new order reports the body, unless its report cannot be indexed. -/
theorem step_alone (exchanges : Exchanges market desk order old) (valid : market.Valid)
    (unspent : market.sequencer.exhausted = false) (fits : ¬ Refuses market desk order old) :
    ((market.removing desk old).step
        (.newOrder (CommandExecutor.replacementOf old order))).2 =
      if 2 ^ 32 < (aloneReport market desk order old).length then .error .internalFailure
      else .ok (numberEvents market.sequencer.nextSequence order.instrumentId 0
        (aloneReport market desk order old)) := by
  obtain ⟨routed, -⟩ := exchanges.admitted valid unspent
  obtain ⟨-, second⟩ := exchanges.accepted valid unspent fits
  obtain ⟨-, alone, -⟩ := exchanges.reports valid unspent
  rw [alone] at second
  rw [Market.step, Market.removing_sequencer, if_neg (unexhausted unspent), second]
  by_cases long : 2 ^ 32 < (aloneReport market desk order old).length
  · simp only [if_pos long]
  · simp only [if_neg long]
    show Except.ok (numberEvents _ old.instrumentId 0 _) = _
    rw [routed]

/-- A report of the exchange that cannot be indexed leaves the market as it was. -/
theorem step_long (exchanges : Exchanges market desk order old) (valid : market.Valid)
    (unspent : market.sequencer.exhausted = false) (fits : ¬ Refuses market desk order old)
    (long : 2 ^ 32 < (report market desk order old).length) :
    market.step (.replace order) = (market, .error .internalFailure) := by
  obtain ⟨first, -⟩ := exchanges.accepted valid unspent fits
  rw [(exchanges.reports valid unspent).1] at first
  rw [Market.step, if_neg (unexhausted unspent), first]
  exact if_pos long

/-- Otherwise both trade and rest the same and leave the same market. -/
theorem steps_accepted (exchanges : Exchanges market desk order old) (valid : market.Valid)
    (unspent : market.sequencer.exhausted = false) (fits : ¬ Refuses market desk order old)
    (short : ¬ 2 ^ 32 < (report market desk order old).length) :
    (market.step (.replace order)).1 = ((market.removing desk old).step
        (.newOrder (CommandExecutor.replacementOf old order))).1 ∧
      (market.step (.replace order)).2 = .ok (numberEvents market.sequencer.nextSequence
        order.instrumentId 0 (report market desk order old)) := by
  obtain ⟨routed, -⟩ := exchanges.admitted valid unspent
  obtain ⟨first, second⟩ := exchanges.accepted valid unspent fits
  obtain ⟨whole, alone, shorter⟩ := exchanges.reports valid unspent
  rw [whole] at first
  rw [alone] at second
  have shortAlone : ¬ 2 ^ 32 < (aloneReport market desk order old).length := by omega
  have found : market.desk (Command.replace order).instrumentId = some desk := exchanges.found
  have here := exchanges.removing_desk routed
  rw [Market.step, Market.step, Market.removing_sequencer, if_neg (unexhausted unspent),
    if_neg (unexhausted unspent), first, second]
  simp only [if_neg short, if_neg shortAlone]
  refine ⟨?_, rfl⟩
  rw [Market.withLadder_of_desk found]
  show (market.setLadder order.instrumentId desk _).advance =
    ((market.removing desk old).withLadder old.instrumentId _).advance
  rw [Market.withLadder_of_desk here, ← routed]
  unfold Market.removing Market.setLadder
  rw [SortedMap.set_set]

end Exchanges

end Markets

section Engines

variable (checks : Bool) {engine other : MultiInstrumentEngine} {market : Market} {desk : Desk}
  {order : ReplaceOrder} {old : OrderNodeSpec}

/-- An exchange is a withdrawal and a new order. From every engine, an exchange that is neither
malformed nor refused by the resting orders trades, rests and leaves the books as the replacement
alone does, as a new order from an engine without the old one at the same sequence. Where the
capacities refuse it they refuse both, and the exchange leaves everything but the counter as it
was. Where its report has more events than there are event indices, it leaves everything as it
was. -/
theorem execute_exchanges (stands : Stands engine market false none)
    (unspent : engine.sequencer.exhausted = false) (exchanges : Exchanges market desk order old)
    (cleared : Stands other (market.removing desk old) false none) :
    ∃ next result alone outcome,
      engine.execute checks (.replace order) = .ok (next, result) ∧
      other.execute checks (.newOrder (CommandExecutor.replacementOf old order)) =
        .ok (alone, outcome) ∧
      ((¬ Exchanges.Refuses market desk order old ∧
        (Exchanges.report market desk order old).length ≤ 2 ^ 32 ∧
        result.reply = .ok (numberEvents engine.sequencer.nextSequence order.instrumentId 0
          (Exchanges.report market desk order old)) ∧
        outcome.reply = .ok (numberEvents engine.sequencer.nextSequence order.instrumentId 0
          (Exchanges.aloneReport market desk order old)) ∧
        next.snapshot = alone.snapshot) ∨
      (Exchanges.Refuses market desk order old ∧
        result.reply = .ok (Market.refusal engine.sequencer.nextSequence (.replace order)
          (.reject .capacityExceeded order.newOrderId)) ∧
        outcome.reply = .ok (Market.refusal engine.sequencer.nextSequence
          (.newOrder (CommandExecutor.replacementOf old order))
          (.reject .capacityExceeded order.newOrderId)) ∧
        next.snapshot = .ok market.advance.snapshot) ∨
      (¬ Exchanges.Refuses market desk order old ∧
        2 ^ 32 < (Exchanges.report market desk order old).length ∧
        result.reply = .error .internalFailure ∧ next.snapshot = engine.snapshot ∧
        (outcome.reply = .error .internalFailure ∨
          outcome.reply = .ok (numberEvents engine.sequencer.nextSequence order.instrumentId 0
            (Exchanges.aloneReport market desk order old))))) := by
  have leases : Stands.Leases false none := by simp [Stands.Leases]
  rw [stands.sequencer] at unspent ⊢
  obtain ⟨next, result, executed, after, replied⟩ := stands.execute checks (.replace order)
  obtain ⟨alone, outcome, placed, later, answered⟩ := cleared.execute checks
    (.newOrder (CommandExecutor.replacementOf old order))
  refine ⟨next, result, alone, outcome, executed, placed, ?_⟩
  rw [replied, answered, after.snapshot leases, later.snapshot leases, stands.snapshot leases]
  have valid := stands.valid
  by_cases refuses : Exchanges.Refuses market desk order old
  · obtain ⟨first, second⟩ := exchanges.steps_refused valid unspent refuses
    refine .inr (.inl ⟨refuses, ?_, second, ?_⟩)
    · rw [first]
    · rw [first]
  have single := exchanges.step_alone valid unspent refuses
  by_cases long : 2 ^ 32 < (Exchanges.report market desk order old).length
  · have stopped := exchanges.step_long valid unspent refuses long
    refine .inr (.inr ⟨refuses, long, ?_, ?_, ?_⟩)
    · rw [stopped]
    · rw [stopped]
    · rw [single]
      by_cases longAlone : 2 ^ 32 < (Exchanges.aloneReport market desk order old).length
      · exact .inl (if_pos longAlone)
      · exact .inr (if_neg longAlone)
  · obtain ⟨same, first⟩ := exchanges.steps_accepted valid unspent refuses long
    have shorter := (exchanges.reports valid unspent).2.2
    refine .inl ⟨refuses, Nat.le_of_not_lt long, first, ?_, by rw [same]⟩
    rw [single]
    exact if_neg (by omega)

end Engines

/-- A sell and a buy rest; the buy is exchanged for a larger one at a better price. -/
def exchangeCommands : List Command :=
  [.newOrder ⟨1, 1, 1, .sell, .limit, .gtc, some 15, 4⟩,
    .newOrder ⟨2, 2, 1, .buy, .limit, .gtc, some 10, 7⟩]

/-- The desk before the exchange. -/
def exchangeDesk : Desk :=
  ⟨⟨1, ⟨100, 5, 3⟩⟩, ⟨[(10, [⟨2, 2, 1, .buy, 10, 7, 2⟩])], [(15, [⟨1, 1, 1, .sell, 15, 4, 1⟩])]⟩⟩

/-- The exchange trades with the sell and rests what is left, as a new order does where the old buy
never was. -/
theorem execute_exchanges_trading :
    ∃ (engine other next alone : MultiInstrumentEngine) (result outcome : EngineResult),
      Stands engine (sessionMarket.run exchangeCommands).1 false none ∧
      Stands other ((sessionMarket.run exchangeCommands).1.removing exchangeDesk
        ⟨2, 2, 1, .buy, 10, 7, 2⟩) false none ∧
      engine.execute true (.replace ⟨2, 2, 3, 1, 20, 9⟩) = .ok (next, result) ∧
      other.execute true (.newOrder ⟨2, 3, 1, .buy, .limit, .gtc, some 20, 9⟩) =
        .ok (alone, outcome) ∧
      result.reply = .ok (numberEvents 3 1 0 [.accepted .replace, .replaced 2 3, .canceled 2 7,
        .done 2 .replaced 7, .trade 3 1 2 1 .buy 15 4 5 0, .rested 3 2 .buy 20 5,
        .bookChanged (some ⟨20, 5⟩) none]) ∧
      outcome.reply = .ok (numberEvents 3 1 0 [.accepted .newOrder, .trade 3 1 2 1 .buy 15 4 5 0,
        .rested 3 2 .buy 20 5, .bookChanged (some ⟨20, 5⟩) none]) ∧
      next.snapshot = alone.snapshot := by
  obtain ⟨engine, _, _, _, stands, _⟩ := single_run exchangeCommands
  obtain ⟨other, _, _, _, cleared, _⟩ := single_run (exchangeCommands.take 1 ++ [.cancel ⟨2, 2, 1⟩])
  have removed : (sessionMarket.run (exchangeCommands.take 1 ++ [.cancel ⟨2, 2, 1⟩])).1 =
      (sessionMarket.run exchangeCommands).1.removing exchangeDesk ⟨2, 2, 1, .buy, 10, 7, 2⟩ := by
    decide +kernel
  rw [removed] at cleared
  have exchanges : Exchanges (sessionMarket.run exchangeCommands).1 exchangeDesk
      ⟨2, 2, 3, 1, 20, 9⟩ ⟨2, 2, 1, .buy, 10, 7, 2⟩ :=
    ⟨by decide +kernel, by decide +kernel, by decide +kernel, by decide +kernel⟩
  have unspent : engine.sequencer.exhausted = false := by
    rw [stands.sequencer]
    decide +kernel
  have third : engine.sequencer.nextSequence = 3 := by
    rw [stands.sequencer]
    decide +kernel
  have fits : ¬ Exchanges.Refuses (sessionMarket.run exchangeCommands).1 exchangeDesk
      ⟨2, 2, 3, 1, 20, 9⟩ ⟨2, 2, 1, .buy, 10, 7, 2⟩ := by
    unfold Exchanges.Refuses
    decide +kernel
  have reported : Exchanges.report (sessionMarket.run exchangeCommands).1 exchangeDesk
      ⟨2, 2, 3, 1, 20, 9⟩ ⟨2, 2, 1, .buy, 10, 7, 2⟩ =
      [.accepted .replace, .replaced 2 3, .canceled 2 7, .done 2 .replaced 7,
        .trade 3 1 2 1 .buy 15 4 5 0, .rested 3 2 .buy 20 5, .bookChanged (some ⟨20, 5⟩) none] := by
    decide +kernel
  have reportedAlone : Exchanges.aloneReport (sessionMarket.run exchangeCommands).1 exchangeDesk
      ⟨2, 2, 3, 1, 20, 9⟩ ⟨2, 2, 1, .buy, 10, 7, 2⟩ =
      [.accepted .newOrder, .trade 3 1 2 1 .buy 15 4 5 0, .rested 3 2 .buy 20 5,
        .bookChanged (some ⟨20, 5⟩) none] := by
    decide +kernel
  obtain ⟨next, result, alone, outcome, executed, placed, ends⟩ :=
    execute_exchanges true stands unspent exchanges cleared
  rw [third, reported, reportedAlone] at ends
  rcases ends with ⟨-, -, first, second, same⟩ | ⟨refuses, -⟩ | ⟨-, long, -⟩
  · exact ⟨engine, other, next, alone, result, outcome, stands, cleared, executed, placed, first,
      second, same⟩
  · exact absurd refuses fits
  · exact absurd long (by decide)

end AtlasLob
