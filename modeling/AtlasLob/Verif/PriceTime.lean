import AtlasLob.Verif.Soundness

/-!
# Price-time priority

The orders of a side, as a traversal meets them, are in the order of their claims: a better price
first, then an earlier priority. A plan takes a front part of that list and nothing else: every
trade is at the price of its resting order and crosses the limit, only the last one may leave
something of its order, and either the incoming order is done or nothing that crosses is left.
-/

namespace AtlasLob

open PriceLevel

/-- A valid book: its maps, links, caches, storage and index agree on one well-formed ladder, and
nothing is staged. -/
def ValidBook (book : InstrumentBook) : Prop :=
  ∃ ladder, Represents book.instrumentId book ladder none

/-- The orders of one side as a traversal meets them. -/
def InstrumentBook.sideOrders (book : InstrumentBook) (side : Side) : List OrderNodeSpec :=
  (book.levels side).flatMap Prod.snd

/-- The order of claims on one side: better prices first, then earlier priorities. -/
def ClaimsBefore (side : Side) (first second : OrderNodeSpec) : Prop :=
  bestPriceFirst side first.price second.price = true ∨
    (first.price = second.price ∧ first.prioritySequence < second.prioritySequence)

/-- A planned trade takes something of a resting order at its price. -/
structure TakesFrom (trade : PlannedTrade) (resting : OrderNodeSpec) : Prop where
  named : trade.restingOrderId = resting.orderId
  owner : trade.restingClientId = resting.clientId
  priority : trade.expectedRestingPriority = resting.prioritySequence
  price : trade.executionPrice = resting.price
  before : trade.restingRemainingBefore = resting.remainingQuantity
  positive : trade.executionQuantity ≠ 0
  /-- What is traded and what is left make up what rested. -/
  exact : trade.executionQuantity.toNat + trade.restingRemainingAfter.toNat =
    resting.remainingQuantity.toNat

/-- A plan is greedy for an order and the resting orders it meets. -/
structure Greedy (order : NewOrder) (resting : List OrderNodeSpec) (plan : MatchPlan) : Prop where
  /-- The trades take the first resting orders, one after another; behind them nothing crosses
  unless the order is done. -/
  front : ∃ taken rest, resting = taken ++ rest ∧ List.Forall₂ TakesFrom plan.trades taken ∧
    (plan.residualQuantity = 0 ∨ ∀ later ∈ rest, order.crosses later.price = false)
  crossing : ∀ trade ∈ plan.trades, order.crosses trade.executionPrice = true
  /-- Only the last trade may leave something of its resting order. -/
  complete : ∀ trade ∈ plan.trades.dropLast, trade.restingRemainingAfter = 0
  /-- An order that is not done takes all of every order it meets. -/
  thorough : plan.residualQuantity ≠ 0 → ∀ trade ∈ plan.trades, trade.restingRemainingAfter = 0
  /-- What is traded and the residual make up the order. -/
  conserved : (plan.trades.map fun trade => trade.executionQuantity.toNat).sum +
    plan.residualQuantity.toNat = order.quantity.toNat

/-- A resting order after the trades of a plan; a filled order is gone. -/
def afterTrades (trades : List PlannedTrade) (resting : OrderNodeSpec) : Option OrderNodeSpec :=
  match trades.find? fun trade => trade.restingOrderId = resting.orderId with
  | none => some resting
  | some trade =>
    if trade.restingRemainingAfter = 0 then none
    else some (resting.withRemaining trade.restingRemainingAfter)

/-- The orders of a well-formed side are in the order of their claims. -/
theorem Levels.Valid.claims {side : Side} {instrument : InstrumentId} {levels : Levels}
    (valid : levels.Valid side instrument) : levels.orders.Pairwise (ClaimsBefore side) := by
  have sorted := valid.sorted
  have queues := valid.queue
  clear valid
  induction levels with
  | nil => exact List.Pairwise.nil
  | cons entry rest ih =>
    obtain ⟨price, queue⟩ := entry
    rw [SortedMap.Sorted, SortedMap.keys_cons, List.pairwise_cons] at sorted
    have wellFormed := queues price queue (by simp)
    have behind := ih sorted.2 fun other members inside => queues other members (by simp [inside])
    rw [Levels.orders_cons, List.pairwise_append]
    refine ⟨?_, behind, ?_⟩
    · refine List.Pairwise.imp_of_mem ?_ wellFormed.increasing
      intro first second here there earlier
      right
      rw [wellFormed.priced first here, wellFormed.priced second there]
      exact ⟨rfl, earlier⟩
    · intro first here second there
      left
      obtain ⟨other, members, inside, member⟩ := Levels.mem_orders.mp there
      rw [wellFormed.priced first here,
        (queues other members (by simp [inside])).priced second member]
      exact sorted.1 other (SortedMap.mem_keys inside)

/-- The orders behind the reachable ones. -/
def Ladder.beyond (ladder : Ladder) (order : NewOrder) : List OrderNodeSpec :=
  Levels.orders ((ladder.side order.side.opposite).dropWhile fun entry => order.crosses entry.1)

/-- The other side is what can be reached and what is behind it. -/
theorem reach_append_beyond (ladder : Ladder) (order : NewOrder) :
    Levels.orders (ladder.side order.side.opposite) =
      ladder.reach order ++ ladder.beyond order := by
  rw [Ladder.reach, eligible, Ladder.beyond, ← Levels.orders_append,
    List.takeWhile_append_dropWhile]

/-- Behind the reachable orders nothing crosses. -/
theorem not_crosses_beyond {instrument : InstrumentId} {ladder : Ladder} {order : NewOrder}
    (meets : Meets instrument ladder order) {resting : OrderNodeSpec}
    (behind : resting ∈ ladder.beyond order) : order.crosses resting.price = false := by
  have known := Side.opposite_known meets.wellFormed.side
  have side := meets.valid.side known
  obtain ⟨price, queue, inside, member⟩ := Levels.mem_orders.mp behind
  have level : (price, queue) ∈ ladder.side order.side.opposite :=
    (List.dropWhile_sublist _).subset inside
  rw [(side.queue price queue level).priced resting member]
  have sorted := side.sorted
  clear side behind level known
  generalize ladder.side order.side.opposite = levels at sorted inside
  induction levels with
  | nil => cases inside
  | cons entry rest ih =>
    rw [SortedMap.Sorted, SortedMap.keys_cons, List.pairwise_cons] at sorted
    rw [List.dropWhile_cons] at inside
    cases reached : order.crosses entry.1 with
    | true =>
      rw [reached, if_pos rfl] at inside
      exact ih sorted.2 inside
    | false =>
      rw [reached, if_neg Bool.false_ne_true] at inside
      rcases List.mem_cons.mp inside with rfl | later
      · exact reached
      · exact meets.crosses_behind reached (sorted.1 price (SortedMap.mem_keys later))

/-- A sound execution takes something of its resting order. -/
theorem takesFrom_plannedOf {fill : Fill} (sound : fill.Sound) :
    TakesFrom (plannedOf fill) fill.order where
  named := rfl
  owner := rfl
  priority := rfl
  price := rfl
  before := rfl
  positive := sound.positive
  exact := by
    have bound := sound.bounded
    have left := Word.toNat_sub_of_toNat_le bound
    rw [show (plannedOf fill).restingRemainingAfter =
      fill.order.remainingQuantity - fill.executed from rfl, left,
      show (plannedOf fill).executionQuantity = fill.executed from rfl]
    omega

/-- A quantity that is not exhausted by an order takes all of it. -/
theorem covered_of_left {quantity remaining : Quantity}
    (left : quantity - min quantity remaining ≠ 0) : remaining - min quantity remaining = 0 := by
  rw [ne_eq, Word.eq_zero_iff, Word.toNat_sub_min] at left
  rw [Word.eq_zero_iff, Word.toNat_sub_min_right]
  omega

/-- All but the last execution of a queue take all of their orders. -/
theorem fillQueue_complete {quantity : Quantity} {orders : List OrderNodeSpec} {fill : Fill}
    (early : fill ∈ (fillQueue quantity orders).dropLast) :
    fill.order.remainingQuantity - fill.executed = 0 := by
  induction orders generalizing quantity with
  | nil => cases early
  | cons order rest ih =>
    rw [fillQueue] at early
    by_cases zero : quantity = 0
    · simp [zero] at early
    · rw [if_neg zero] at early
      cases later : fillQueue (quantity - min quantity order.remainingQuantity) rest with
      | nil => simp [later] at early
      | cons next others =>
        rw [later, List.dropLast_cons_cons, List.mem_cons] at early
        rcases early with rfl | behind
        · have left : quantity - min quantity order.remainingQuantity ≠ 0 := by
            intro none
            rw [none, fillQueue_zero] at later
            cases later
          exact covered_of_left left
        · rw [← later] at behind
          exact ih behind

/-- A queue that leaves something of the quantity is taken whole. -/
theorem fillQueue_thorough {quantity : Quantity} {orders : List OrderNodeSpec}
    (remains : residual quantity orders ≠ 0) :
    (fillQueue quantity orders).map Fill.order = orders ∧
      ∀ fill ∈ fillQueue quantity orders, fill.order.remainingQuantity - fill.executed = 0 := by
  induction orders generalizing quantity with
  | nil => exact ⟨rfl, by simp [fillQueue]⟩
  | cons order rest ih =>
    rw [residual] at remains
    have zero : quantity ≠ 0 := by
      rintro rfl
      have none : (0 : Quantity) - min 0 order.remainingQuantity = 0 := by
        rw [Word.eq_zero_iff, Word.toNat_sub_min]
        simp
      rw [none, residual_zero] at remains
      exact remains rfl
    have left : quantity - min quantity order.remainingQuantity ≠ 0 := by
      intro none
      rw [none, residual_zero] at remains
      exact remains rfl
    obtain ⟨all, full⟩ := ih remains
    rw [fillQueue, if_neg zero]
    refine ⟨by rw [List.map_cons, all], ?_⟩
    intro fill member
    rcases List.mem_cons.mp member with rfl | later
    · exact covered_of_left left
    · exact full fill later

/-- The plan of an order is greedy for the other side of the ladder it meets. -/
theorem greedy_planOf {instrument : InstrumentId} {ladder : Ladder} {order : NewOrder}
    (meets : Meets instrument ladder order) :
    Greedy order (Levels.orders (ladder.side order.side.opposite)) (planOf ladder order) where
  front := by
    obtain ⟨skipped, split⟩ := fillQueue_prefix order.quantity (ladder.reach order)
    refine ⟨(ladder.fills order).map Fill.order, skipped ++ ladder.beyond order, ?_, ?_, ?_⟩
    · rw [reach_append_beyond, ← List.append_assoc]
      exact congrArg (· ++ ladder.beyond order) split
    · rw [planOf_trades, List.forall₂_map_left_iff, List.forall₂_map_right_iff, List.forall₂_same]
      exact fun fill inside => takesFrom_plannedOf (meets.executable.sound fill inside)
    · rw [planOf_residualQuantity]
      by_cases zero : ladder.left order = 0
      · exact Or.inl zero
      · right
        have all := (fillQueue_thorough zero).1
        have none : skipped = [] := by
          rw [all] at split
          simpa using split
        rw [none, List.nil_append]
        exact fun later behind => not_crosses_beyond meets behind
  crossing trade inside := by
    rw [planOf_trades] at inside
    obtain ⟨fill, executed, rfl⟩ := List.mem_map.mp inside
    have known := Side.opposite_known meets.wellFormed.side
    exact crosses_of_mem_eligible (meets.valid.side known).queue (mem_of_mem_fillQueue executed)
  complete trade inside := by
    rw [planOf_trades, ← List.map_dropLast] at inside
    obtain ⟨fill, early, rfl⟩ := List.mem_map.mp inside
    exact fillQueue_complete early
  thorough remains trade inside := by
    rw [planOf_residualQuantity] at remains
    rw [planOf_trades] at inside
    obtain ⟨fill, executed, rfl⟩ := List.mem_map.mp inside
    exact (fillQueue_thorough remains).2 fill executed
  conserved := by
    rw [planOf_trades, planOf_residualQuantity, List.map_map]
    exact fillQueue_executed order.quantity (ladder.reach order)

/-- Trades change nothing but the remaining quantity. -/
theorem afterTrades_price {trades : List PlannedTrade} {resting left : OrderNodeSpec}
    (kept : afterTrades trades resting = some left) : left.price = resting.price := by
  rw [afterTrades] at kept
  split at kept
  · rw [Option.some.injEq] at kept
    rw [← kept]
  · split_ifs at kept
    rw [Option.some.injEq] at kept
    rw [← kept]
    rfl

/-- Every taken order has its trade. -/
theorem trade_of_taken {trades : List PlannedTrade} {taken : List OrderNodeSpec}
    (takes : List.Forall₂ TakesFrom trades taken) {resting : OrderNodeSpec}
    (front : resting ∈ taken) : ∃ trade ∈ trades, TakesFrom trade resting := by
  induction takes with
  | nil => cases front
  | @cons trade other trades others first _ ih =>
    rcases List.mem_cons.mp front with rfl | later
    · exact ⟨trade, by simp, first⟩
    · obtain ⟨found, member, takes⟩ := ih later
      exact ⟨found, by simp [member], takes⟩

/-- After a greedy plan that leaves something of its order, nothing crosses any more. -/
theorem Greedy.cleared {order : NewOrder} {resting : List OrderNodeSpec} {plan : MatchPlan}
    (greedy : Greedy order resting plan) (remains : plan.residualQuantity ≠ 0)
    {left : OrderNodeSpec} (inside : left ∈ resting.filterMap (afterTrades plan.trades)) :
    order.crosses left.price = false := by
  obtain ⟨source, present, kept⟩ := List.mem_filterMap.mp inside
  obtain ⟨taken, rest, split, takes, behind⟩ := greedy.front
  rw [split, List.mem_append] at present
  rcases present with front | later
  · -- A taken order has a trade, and every trade fills.
    obtain ⟨trade, traded, from'⟩ := trade_of_taken takes front
    rw [afterTrades] at kept
    cases found : plan.trades.find? fun trade => trade.restingOrderId = source.orderId with
    | none =>
      have missed := List.find?_eq_none.mp found trade traded
      simp [from'.named] at missed
    | some other =>
      have zero := greedy.thorough remains other (List.mem_of_find?_eq_some found)
      rw [found] at kept
      simp [zero] at kept
  · rw [afterTrades_price kept]
    rcases behind with zero | clear
    · exact absurd zero remains
    · exact clear source later

/-- Settling executions leaves what their planned trades say. -/
theorem settle_eq_afterTrades {ladder : Ladder} {fills : List Fill}
    (executable : Executable ladder fills) {instrument : InstrumentId}
    (valid : ladder.Valid instrument) {resting : OrderNodeSpec} (member : resting ∈ ladder.orders) :
    settle fills resting = afterTrades (fills.map plannedOf) resting := by
  rw [settle_eq executable.distinct, afterTrades, List.find?_map]
  have same : ((fun trade : PlannedTrade => decide (trade.restingOrderId = resting.orderId)) ∘
      plannedOf) = fun fill => decide (fill.order.orderId = resting.orderId) := rfl
  rw [same]
  cases found : fills.find? fun fill => decide (fill.order.orderId = resting.orderId) with
  | none => rfl
  | some fill =>
    have present := List.mem_of_find?_eq_some found
    have named : fill.order.orderId = resting.orderId := by simpa using List.find?_some found
    have equal := valid.eq_of_orderId (executable.members fill present) member named
    have bound := (executable.sound fill present).bounded
    rw [equal] at bound
    have left := Word.toNat_sub_of_toNat_le bound
    simp only [Option.map_some, plannedOf, equal, reduceBy, ↓reduceIte]
    by_cases full : resting.remainingQuantity ≤ fill.executed
    · have zero : resting.remainingQuantity - fill.executed = 0 := by
        rw [UInt64.le_iff_toNat_le] at full
        rw [Word.eq_zero_iff, left]
        omega
      rw [if_pos full, if_pos zero]
    · have nonzero : resting.remainingQuantity - fill.executed ≠ 0 := by
        rw [UInt64.le_iff_toNat_le] at full
        rw [ne_eq, Word.eq_zero_iff, left]
        omega
      rw [if_neg full, if_neg nonzero]

namespace Represents

variable {instrument : InstrumentId} {book : InstrumentBook} {ladder : Ladder}

/-- The orders of a side of a represented book. -/
theorem sideOrders {pending : Option Pending}
    (represents : Represents instrument book ladder pending) {side : Side}
    (known : side = .buy ∨ side = .sell) :
    book.sideOrders side = Levels.orders (ladder.side side) := by
  rw [InstrumentBook.sideOrders, represents.visible known, visibleLevels, List.flatMap_map]
  rfl

/-- A planned order meets the ladder of its book. -/
theorem planMatches_cases (checks : Bool) (represents : Represents instrument book ladder none)
    (order : NewOrder) :
    ((order.validate ≠ .none ∨ order.instrumentId ≠ book.instrumentId ∨
        (book.find order.orderId).isSome = true) ∧
      ∃ error, AtlasLob.planMatches checks order book = .ok (.error error)) ∨
    Meets instrument ladder order := by
  by_cases shaped : order.validate = .none
  · by_cases routed : order.instrumentId = book.instrumentId
    · cases found : book.find order.orderId with
      | some node =>
        refine Or.inl ⟨Or.inr (Or.inr rfl), ?_⟩
        rw [AtlasLob.planMatches]
        simp only [shaped, routed, represents.checkedInvariants checks (by simp), found,
          Run.ok_bind, Run.pure_eq, ne_eq, not_true_eq_false, ↓reduceIte, Bool.not_true,
          Bool.false_eq_true, Option.isSome_some]
        exact ⟨_, rfl⟩
      | none =>
        refine Or.inr ⟨represents.valid, NewOrder.validate_eq_none_iff.mp shaped,
          routed.trans represents.routed, fun inside => ?_⟩
        obtain ⟨resting, member, named⟩ := List.mem_map.mp inside
        rw [represents.find, represents.valid.find_eq_some_iff.mpr ⟨member, named⟩] at found
        cases found
    · refine Or.inl ⟨Or.inr (Or.inl routed), ?_⟩
      rw [AtlasLob.planMatches]
      simp only [shaped, ne_eq, not_true_eq_false, ↓reduceIte, if_pos routed, Run.pure_eq]
      exact ⟨_, rfl⟩
  · refine Or.inl ⟨Or.inl shaped, ?_⟩
    rw [AtlasLob.planMatches]
    simp only [ne_eq, if_pos shaped, Run.pure_eq]
    exact ⟨_, rfl⟩

end Represents

/-- An order against a valid book is refused for its shape, its instrument or its ID, or its plan
is greedy for the other side in price-time order, counts its trades correctly, and applying it
changes exactly the orders it trades with. -/
theorem planMatches_greedy (checks : Bool) (address : BookRef) {book : InstrumentBook}
    (valid : ValidBook book) (order : NewOrder) :
    ((order.validate ≠ .none ∨ order.instrumentId ≠ book.instrumentId ∨
        (book.find order.orderId).isSome = true) ∧
      ∃ error, planMatches checks order book = .ok (.error error)) ∨
    ∃ plan, planMatches checks order book = .ok (.ok plan) ∧
      (book.sideOrders order.side.opposite).Pairwise (ClaimsBefore order.side.opposite) ∧
      Greedy order (book.sideOrders order.side.opposite) plan ∧
      MatchPlan.countTrades order order.quantity 0 (book.levels order.side.opposite) =
        .ok plan.trades.length ∧
      ∃ reductions next, bindMatchPlan order plan book = .ok reductions ∧
        book.applyPrevalidatedBatch checks address reductions none = .ok ⟨next, none, none⟩ ∧
        ValidBook next ∧ next.levels order.side = book.levels order.side ∧
        next.sideOrders order.side.opposite =
          (book.sideOrders order.side.opposite).filterMap (afterTrades plan.trades) ∧
        (plan.residualQuantity = 0 ∨
          ∀ resting ∈ next.sideOrders order.side.opposite,
            order.crosses resting.price = false) := by
  obtain ⟨ladder, represents⟩ := valid
  rcases represents.planMatches_cases checks order with refused | meets
  · exact Or.inl refused
  · right
    have known := Side.opposite_known meets.wellFormed.side
    have side := meets.valid.side known
    have orders := represents.sideOrders known
    have greedy := greedy_planOf meets
    obtain ⟨next, applied, after⟩ := represents.applyBatch checks address meets.executable
    have routed : next.instrumentId = book.instrumentId := after.routed
    have counted := MatchPlan.countTrades_eq order order.quantity
      (show 0 + (Levels.orders (ladder.side order.side.opposite)).length < 2 ^ 64 by
        have lengths := (ladder.orders_perm order.side).length_eq
        have bound := represents.orders_length_lt
        rw [List.length_append] at lengths
        omega)
    have left : next.sideOrders order.side.opposite =
        (book.sideOrders order.side.opposite).filterMap
          (afterTrades (planOf ladder order).trades) := by
      rw [after.sideOrders known, orders, Ladder.side_revise, Levels.orders_revise, planOf_trades]
      refine List.filterMap_congr fun resting member => ?_
      exact settle_eq_afterTrades meets.executable meets.valid
        ((ladder.orders_perm order.side).mem_iff.mpr (List.mem_append_right _ member))
    have own : next.levels order.side = book.levels order.side := by
      rw [after.visible meets.wellFormed.side, represents.visible meets.wellFormed.side,
        Ladder.side_revise, meets.executable.revise_opposite meets.valid meets.wellFormed.side
          fun fill inside => meets.not_own inside]
    refine ⟨planOf ladder order, represents.planMatches checks meets, ?_, ?_, ?_,
      reductionsOf (ladder.fills order), next, represents.bindMatchPlan meets, applied,
      ⟨_, by rw [routed]; exact after⟩, own, left, ?_⟩
    · rw [orders]
      exact side.claims
    · rw [orders]
      exact greedy
    · rw [represents.visible known, counted, planOf_trades, List.length_map, Nat.zero_add]
      rfl
    · by_cases zero : (planOf ladder order).residualQuantity = 0
      · exact Or.inl zero
      · right
        intro resting inside
        rw [left, orders] at inside
        exact greedy.cleared zero inside

/-- A buy order sweeps a level of two sell orders in the order of their arrival and takes a part of
the next level. -/
theorem planMatches_greedy_sweep : ∃ book plan next, ValidBook book ∧
    book.sideOrders .sell = [⟨1, 1, 1, .sell, 15, 4, 1⟩, ⟨2, 2, 1, .sell, 15, 3, 2⟩,
      ⟨3, 1, 1, .sell, 20, 5, 3⟩] ∧
    planMatches true ⟨4, 4, 1, .buy, .limit, .gtc, some 20, 9⟩ book = .ok (.ok plan) ∧
    Greedy ⟨4, 4, 1, .buy, .limit, .gtc, some 20, 9⟩ (book.sideOrders .sell) plan ∧
    plan.trades.map (fun trade => (trade.restingOrderId, trade.executionPrice,
      trade.executionQuantity)) = [(1, 15, 4), (2, 15, 3), (3, 20, 2)] ∧
    plan.residualQuantity = 0 ∧
    (∃ reductions, book.applyPrevalidatedBatch true 1 reductions none = .ok ⟨next, none, none⟩) ∧
    next.sideOrders .sell = [⟨3, 1, 1, .sell, 20, 3, 3⟩] := by
  obtain ⟨book, represents⟩ := represents_of_run
    (create_single (show (⟨1, ⟨100, 5, 9⟩⟩ : InstrumentConfig).instrumentId ≠ 0 by decide)
      (by decide) ⟨9⟩)
    (show ((Market.opening [⟨1, ⟨100, 5, 9⟩⟩] ⟨9⟩).run
      [.newOrder ⟨1, 1, 1, .sell, .limit, .gtc, some 15, 4⟩,
        .newOrder ⟨2, 2, 1, .sell, .limit, .gtc, some 15, 3⟩,
        .newOrder ⟨1, 3, 1, .sell, .limit, .gtc, some 20, 5⟩]).1.desk 1 =
      some ⟨⟨1, ⟨100, 5, 9⟩⟩, ⟨[], [(15, [⟨1, 1, 1, .sell, 15, 4, 1⟩, ⟨2, 2, 1, .sell, 15, 3, 2⟩]),
        (20, [⟨3, 1, 1, .sell, 20, 5, 3⟩])]⟩⟩ by decide +kernel)
  have routed : book.instrumentId = 1 := represents.routed
  have orders := represents.sideOrders (Or.inr rfl : Side.sell = .buy ∨ Side.sell = .sell)
  have valid : ValidBook book := ⟨_, routed ▸ represents⟩
  have unknown : book.find 4 = none := by
    rw [represents.find]
    decide
  rcases planMatches_greedy true 1 valid ⟨4, 4, 1, .buy, .limit, .gtc, some 20, 9⟩ with
    ⟨shape | route | known, -⟩ |
      ⟨plan, planned, -, greedy, -, reductions, next, -, applied, -, -, left, -⟩
  · exact absurd rfl shape
  · exact absurd routed.symm route
  · rw [unknown] at known
    cases known
  · rcases represents.planMatches_cases true ⟨4, 4, 1, .buy, .limit, .gtc, some 20, 9⟩ with
      ⟨-, error, refused⟩ | meets
    · rw [planned] at refused
      cases refused
    · have same := planned.symm.trans (represents.planMatches true meets)
      rw [Except.ok.injEq, Except.ok.injEq] at same
      subst same
      have side : book.sideOrders (Side.opposite .buy) = book.sideOrders .sell := rfl
      rw [side, orders] at left
      refine ⟨book, _, next, valid, orders, planned, greedy, by decide +kernel, by decide +kernel,
        ⟨reductions, applied⟩, left.trans (by decide +kernel)⟩

end AtlasLob
