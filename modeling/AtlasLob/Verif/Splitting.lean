import AtlasLob.Spec.Follower
import AtlasLob.Spec.Outcome
import AtlasLob.Spec.Splitting
import AtlasLob.Verif.Reports

/-!
# Market orders in two parts

A market order of a whole quantity and two market orders of its parts, one after the other, leave
the same books and take the same from every resting order.
-/

namespace AtlasLob

open PriceLevel

/-- Who sends a market order, and under which ID. -/
structure Taker where
  clientId : ClientId
  orderId : OrderId
  deriving DecidableEq

/-- A market order. -/
def Taker.order (taker : Taker) (instrument : InstrumentId) (side : Side) (quantity : Quantity) :
    NewOrder :=
  ⟨taker.clientId, taker.orderId, instrument, side, .market, .ioc, none, quantity⟩

/-- What a trade takes. -/
def EventPayload.taking : EventPayload → Option Taking
  | .trade _ restingOrderId _ _ _ price executed _ _ =>
    some ⟨restingOrderId, price, executed.toNat⟩
  | _ => none

/-- What the trades of events take, in order. -/
def takings (events : List Event) : List Taking :=
  (events.map Event.payload).filterMap EventPayload.taking

/-- A market order that a market accepts: named, of a quantity within the limit of its desk, under
an ID that rests nowhere. -/
structure Takes (market : Market) (desk : Desk) (taker : Taker) (instrument : InstrumentId)
    (side : Side) (quantity : Quantity) : Prop where
  client : taker.clientId ≠ 0
  id : taker.orderId ≠ 0
  known : side = .buy ∨ side = .sell
  positive : quantity ≠ 0
  limited : quantity ≤ desk.config.matching.maxOrderQuantity
  found : market.desk instrument = some desk
  fresh : taker.orderId ∉ ids market.orders

/-- What a market order does to a ladder, with the events that report it. -/
structure Taken (side : Side) (quantity : Quantity) (before after : Ladder) (events : List Event) :
    Prop where
  own : after.side side = before.side side
  other : after.side side.opposite =
    sweep (fun _ => true) quantity (before.side side.opposite)
  orders : Levels.orders (after.side side.opposite) =
    leftover quantity (Levels.orders (before.side side.opposite))
  kept : (ids after.orders).Sublist (ids before.orders)
  takes : takings events =
    (fillQueue quantity (Levels.orders (before.side side.opposite))).map Fill.taking

namespace Takes

variable {market : Market} {desk : Desk} {taker : Taker} {instrument : InstrumentId} {side : Side}
  {quantity : Quantity}

/-- A market order reaches every order of the other side. -/
theorem reach_eq (ladder : Ladder) :
    ladder.reach (taker.order instrument side quantity) =
      Levels.orders (ladder.side side.opposite) := by
  unfold Ladder.reach eligible
  congr 1
  apply List.takeWhile_eq_self_iff.mpr
  intro entry _
  rfl

/-- A market order never rests. -/
theorem disposition_ne (ladder : Ladder) :
    ladder.disposition (taker.order instrument side quantity) ≠ .rest := by
  have market : (taker.order instrument side quantity).orderType = .market := rfl
  unfold Ladder.disposition classifyResidual
  by_cases filled : ladder.left (taker.order instrument side quantity) = 0
  · rw [if_pos filled]
    decide
  · rw [if_neg filled, if_pos market]
    decide

/-- A market order reaches every price. -/
theorem crosses_eq : (taker.order instrument side quantity).crosses = fun _ => true :=
  funext fun _ => rfl

/-- A market order takes from the other side and leaves its own alone. -/
theorem after_sides {ladder : Ladder} {sequence : Sequence}
    (aggresses : Aggresses instrument ladder (taker.order instrument side quantity) none sequence) :
    (ladder.after (taker.order instrument side quantity) none sequence).side side =
        ladder.side side ∧
      (ladder.after (taker.order instrument side quantity) none sequence).side side.opposite =
        sweep (fun _ => true) quantity (ladder.side side.opposite) := by
  have own := aggresses.struck_own
  have other := aggresses.struck_opposite
  rw [crosses_eq] at other
  rw [Ladder.after, if_neg (disposition_ne ladder)]
  exact ⟨own, other⟩

/-- The orders a market order leaves on the other side. -/
theorem after_orders {ladder : Ladder} {sequence : Sequence}
    (aggresses : Aggresses instrument ladder (taker.order instrument side quantity) none sequence) :
    Levels.orders ((ladder.after (taker.order instrument side quantity) none sequence).side
        side.opposite) = leftover quantity (Levels.orders (ladder.side side.opposite)) := by
  have distinct := aggresses.toMeets.reach_distinct
  rw [reach_eq] at distinct
  rw [Ladder.after, if_neg (disposition_ne ladder), Ladder.struck, Ladder.side_revise,
    Levels.orders_revise, Ladder.fills, reach_eq]
  exact filterMap_settle distinct

/-- A market order on a valid market is admitted. -/
theorem admitted (valid : market.Valid) (unspent : market.sequencer.exhausted = false)
    (takes : Takes market desk taker instrument side quantity) :
    Aggresses instrument desk.ladder (taker.order instrument side quantity) none
        market.sequencer.nextSequence ∧
      market.judge (.newOrder (taker.order instrument side quantity)) =
        .accept (desk.ladder.after (taker.order instrument side quantity) none
            market.sequencer.nextSequence)
          (desk.ladder.report (taker.order instrument side quantity) none
            market.sequencer.nextSequence newOpening) := by
  have held := valid.desk_valid takes.found
  have wellFormed : (taker.order instrument side quantity).WellFormed :=
    ⟨takes.client, takes.id, held.ladder.named, takes.positive, takes.known,
      Or.inr ⟨rfl, rfl, rfl⟩⟩
  have shaped : (MultiInstrumentEngine.shapeDecision
      (.newOrder (taker.order instrument side quantity))).accepted = true := by
    rw [MultiInstrumentEngine.shapeDecision, NewOrder.validate_eq_none_iff.mpr wellFormed]
    rfl
  have absent : market.find taker.orderId = none := Market.Valid.find_eq_none_iff.mpr takes.fresh
  have limited : ¬desk.config.matching.maxOrderQuantity < quantity := by
    rw [UInt64.not_lt]
    exact takes.limited
  have decided : market.decision (.newOrder (taker.order instrument side quantity)) desk =
      .accept := by
    unfold Market.decision
    simp only [Taker.order, absent]
    rw [if_neg limited]
    rfl
  have aggresses : Aggresses instrument desk.ladder (taker.order instrument side quantity) none
      market.sequencer.nextSequence := by
    have admits := valid.admitted unspent shaped takes.found (by rw [decided]; rfl)
    cases admits with
    | aggressor submits aggresses => cases submits with | new => exact aggresses
  refine ⟨aggresses, ?_⟩
  have fewer := aggresses.after_length
  rw [if_neg (disposition_ne desk.ladder)] at fewer
  have capacity := held.capacity
  have total := valid.total
  have fits : market.exceeds desk (desk.ladder.after (taker.order instrument side quantity) none
      market.sequencer.nextSequence) = false := by
    rw [Market.exceeds, Bool.or_eq_false_iff, decide_eq_false_iff_not, decide_eq_false_iff_not]
    omega
  have room : desk.ladder.overflows (taker.order instrument side quantity) none = false := by
    rw [Ladder.overflows, decide_eq_false (disposition_ne desk.ladder), Bool.false_and]
  have routed : (Command.newOrder (taker.order instrument side quantity)).instrumentId =
      instrument := rfl
  rw [Market.judge, shaped, routed, takes.found]
  simp only [Bool.not_true, Bool.false_eq_true, ↓reduceIte]
  rw [Market.judgeAt, decided]
  simp only [ValidationDecision.accept_accepted, Bool.not_true, Bool.false_eq_true, ↓reduceIte]
  rw [Market.judgeAdmitted, Market.judgeAggressor, fits, room]
  rfl

/-- A market order on a valid market is executed, if its report can be indexed. -/
theorem step_eq (valid : market.Valid) (unspent : market.sequencer.exhausted = false)
    (takes : Takes market desk taker instrument side quantity)
    (short : (fillQueue quantity (Levels.orders (desk.ladder.side side.opposite))).length + 3 ≤
      2 ^ 32) :
    market.step (.newOrder (taker.order instrument side quantity)) =
      ((market.setLadder instrument desk (desk.ladder.after
          (taker.order instrument side quantity) none market.sequencer.nextSequence)).advance,
        .ok (numberEvents market.sequencer.nextSequence instrument 0
          (desk.ladder.report (taker.order instrument side quantity) none
            market.sequencer.nextSequence newOpening))) := by
  have judged := (takes.admitted valid unspent).2
  have trades : (planOf desk.ladder (taker.order instrument side quantity)).trades.length =
      (fillQueue quantity (Levels.orders (desk.ladder.side side.opposite))).length := by
    rw [planOf_trades, List.length_map, Ladder.fills, reach_eq]
    rfl
  have fits : ¬2 ^ 32 < (desk.ladder.report (taker.order instrument side quantity) none
      market.sequencer.nextSequence newOpening).length := by
    rw [Aggresses.report_length, trades, newOpening, List.length_singleton]
    split <;> omega
  have routed : (Command.newOrder (taker.order instrument side quantity)).instrumentId =
      instrument := rfl
  rw [Market.step, unspent, judged, routed]
  simp only [Bool.false_eq_true, ↓reduceIte]
  rw [if_neg fits, Market.withLadder_of_desk takes.found]

/-- The trades of a market order. -/
theorem takings_report (ladder : Ladder) (sequence : Sequence) :
    takings (numberEvents sequence instrument 0 (ladder.report
        (taker.order instrument side quantity) none sequence newOpening)) =
      (fillQueue quantity (Levels.orders (ladder.side side.opposite))).map Fill.taking := by
  have trades : ((ladder.fills (taker.order instrument side quantity)).map
      (Ladder.tradeEvent (taker.order instrument side quantity))).filterMap EventPayload.taking =
      (ladder.fills (taker.order instrument side quantity)).map Fill.taking := by
    rw [List.filterMap_map]
    exact congrFun (@List.filterMap_eq_map _ _ Fill.taking) _
  have closes : (ladder.closingEvent (taker.order instrument side quantity)).taking = none := by
    unfold Ladder.closingEvent
    cases ladder.disposition (taker.order instrument side quantity) <;> rfl
  have changes : (Ladder.changeEvents ladder (ladder.after (taker.order instrument side quantity)
      none sequence)).filterMap EventPayload.taking = [] := by
    unfold Ladder.changeEvents
    split <;> rfl
  have opens : newOpening.filterMap EventPayload.taking = [] := rfl
  rw [takings, numberEvents_payloads, Ladder.report, List.filterMap_append, List.filterMap_append,
    List.filterMap_append, opens, trades, changes, List.filterMap_cons_none closes,
    List.filterMap_nil, List.append_nil, List.append_nil, List.nil_append, Ladder.fills, reach_eq]
  rfl

/-- A market order on a valid market takes its quantity, if its report can be indexed. -/
theorem executes (valid : market.Valid) (unspent : market.sequencer.exhausted = false)
    (takes : Takes market desk taker instrument side quantity)
    (short : (fillQueue quantity (Levels.orders (desk.ladder.side side.opposite))).length + 3 ≤
      2 ^ 32) :
    ∃ ladder events, market.step (.newOrder (taker.order instrument side quantity)) =
        ((market.setLadder instrument desk ladder).advance, .ok events) ∧
      Taken side quantity desk.ladder ladder events := by
  have aggresses := (takes.admitted valid unspent).1
  refine ⟨_, _, takes.step_eq valid unspent short, (after_sides aggresses).1,
    (after_sides aggresses).2, after_orders aggresses, ?_, takings_report _ _⟩
  rw [Ladder.after, if_neg (disposition_ne desk.ladder), Ladder.struck, Ladder.orders_revise]
  exact (settle_shrinks _).ids_sublist _

/-- The next market order still is accepted. -/
theorem next (takes : Takes market desk taker instrument side quantity) {ladder : Ladder}
    (kept : (ids ladder.orders).Sublist (ids desk.ladder.orders)) :
    Takes (market.setLadder instrument desk ladder).advance ⟨desk.config, ladder⟩ taker instrument
      side quantity where
  client := takes.client
  id := takes.id
  known := takes.known
  positive := takes.positive
  limited := takes.limited
  found := Market.desk_setLadder takes.found ladder
  fresh := by
    obtain ⟨others, before, after⟩ := Market.orders_split takes.found
    intro member
    apply takes.fresh
    rw [Market.advance_orders, (Ladder.ids_perm (after _)).mem_iff, ids, List.map_append,
      List.mem_append] at member
    rw [(Ladder.ids_perm before).mem_iff, ids, List.map_append, List.mem_append]
    exact member.imp_left fun inside => kept.subset inside

end Takes

section Parts

variable {market : Market} {desk : Desk} {whole front back : Taker} {instrument : InstrumentId}
  {side : Side} {first second : Quantity}

/-- Two market orders leave the ladder of one and take the same. -/
theorem Taken.split {before middle after once : Ladder} {opens closes all : List Event}
    (early : Taken side first before middle opens) (late : Taken side second middle after closes)
    (whole : Taken side (first + second) before once all)
    (filled : ∀ price queue, (price, queue) ∈ before.side side.opposite → queue ≠ [])
    (fits : first.toNat + second.toNat < 2 ^ 64) :
    once = after ∧ perOrder (takings opens ++ takings closes) = perOrder (takings all) := by
  constructor
  · refine Ladder.eq_of_sides side ?_ ?_
    · rw [whole.own, late.own, early.own]
    · rw [whole.other, late.other, early.other, sweep_add _ filled fits]
  · rw [early.takes, late.takes, whole.takes, early.orders]
    exact perOrder_fillQueue_add _ fits

end Parts

variable (checks : Bool)

end AtlasLob
