import AtlasLob.Library.Renaming
import AtlasLob.Spec.Outcome

/-!
# Relabeling

Order IDs, client IDs, sequences and prices are labels as far as matching is concerned: matching
compares them and does nothing else with them. A relabeling exchanges them for others and may
exchange the two sides. This file relabels everything a market holds, reads and reports, and shows
that every operation on a ladder commutes with it.
-/

namespace AtlasLob

open PriceLevel

/-- A change of labels. -/
structure Relabeling where
  orderId : OrderId → OrderId
  clientId : ClientId → ClientId
  sequence : Sequence → Sequence
  price : PriceTicks → PriceTicks
  /-- Whether buying and selling are exchanged. -/
  mirrored : Bool

namespace Relabeling

variable (labels : Relabeling)

/-- A side; unknown codes are kept. -/
def side (side : Side) : Side :=
  if !labels.mirrored then side
  else if side = .buy then .sell
  else if side = .sell then .buy
  else side

/-- A resting order. -/
def order (order : OrderNodeSpec) : OrderNodeSpec where
  orderId := labels.orderId order.orderId
  clientId := labels.clientId order.clientId
  instrumentId := order.instrumentId
  side := labels.side order.side
  price := labels.price order.price
  remainingQuantity := order.remainingQuantity
  prioritySequence := labels.sequence order.prioritySequence

/-- One side of a book. -/
def levels (levels : Levels) : Levels :=
  SortedMap.rename labels.price (List.map labels.order) levels

/-- A book; its sides are exchanged by a mirror. -/
def ladder (ladder : Ladder) : Ladder :=
  if labels.mirrored then ⟨labels.levels ladder.asks, labels.levels ladder.bids⟩
  else ⟨labels.levels ladder.bids, labels.levels ladder.asks⟩

/-- A submitted order. -/
def newOrder (order : NewOrder) : NewOrder where
  clientId := labels.clientId order.clientId
  orderId := labels.orderId order.orderId
  instrumentId := order.instrumentId
  side := labels.side order.side
  orderType := order.orderType
  timeInForce := order.timeInForce
  limitPrice := order.limitPrice.map labels.price
  quantity := order.quantity

/-- A withdrawal. -/
def cancelOrder (order : CancelOrder) : CancelOrder where
  clientId := labels.clientId order.clientId
  orderId := labels.orderId order.orderId
  instrumentId := order.instrumentId

/-- An exchange. -/
def replaceOrder (order : ReplaceOrder) : ReplaceOrder where
  clientId := labels.clientId order.clientId
  oldOrderId := labels.orderId order.oldOrderId
  newOrderId := labels.orderId order.newOrderId
  instrumentId := order.instrumentId
  newLimitPrice := labels.price order.newLimitPrice
  newQuantity := order.newQuantity

/-- A command. -/
def command : Command → Command
  | .newOrder order => .newOrder (labels.newOrder order)
  | .cancel order => .cancel (labels.cancelOrder order)
  | .replace order => .replace (labels.replaceOrder order)

/-- An execution. -/
def fill (fill : Fill) : Fill :=
  ⟨labels.order fill.order, fill.executed, fill.aggressorRemaining⟩

/-- The best level of a side. -/
def topLevel (level : TopOfBookLevel) : TopOfBookLevel :=
  ⟨labels.price level.price, level.aggregateQuantity⟩

/-- The top of a book; its sides are exchanged by a mirror. -/
def top (top : TopOfBookSnapshot) : TopOfBookSnapshot :=
  if labels.mirrored then ⟨top.bestAsk.map labels.topLevel, top.bestBid.map labels.topLevel⟩
  else ⟨top.bestBid.map labels.topLevel, top.bestAsk.map labels.topLevel⟩

/-- The payload of an event. -/
def payload : EventPayload → EventPayload
  | .accepted commandType => .accepted commandType
  | .rejected commandType reason orderId =>
    .rejected commandType reason (orderId.map labels.orderId)
  | .trade aggressorOrderId restingOrderId aggressorClientId restingClientId aggressorSide price
      executed aggressorRemaining restingRemaining =>
    .trade (labels.orderId aggressorOrderId) (labels.orderId restingOrderId)
      (labels.clientId aggressorClientId) (labels.clientId restingClientId)
      (labels.side aggressorSide) (labels.price price) executed aggressorRemaining
      restingRemaining
  | .rested orderId clientId side price remaining =>
    .rested (labels.orderId orderId) (labels.clientId clientId) (labels.side side)
      (labels.price price) remaining
  | .canceled orderId canceled => .canceled (labels.orderId orderId) canceled
  | .replaced oldOrderId newOrderId =>
    .replaced (labels.orderId oldOrderId) (labels.orderId newOrderId)
  | .done orderId reason remaining => .done (labels.orderId orderId) reason remaining
  | .bookChanged bestBid bestAsk =>
    .bookChanged (labels.top ⟨bestBid, bestAsk⟩).bestBid (labels.top ⟨bestBid, bestAsk⟩).bestAsk

/-- A refusal. -/
def decision (decision : ValidationDecision) : ValidationDecision :=
  ⟨decision.reason, decision.relevantOrderId.map labels.orderId⟩

/-- What a relabeling must keep about the prices in a scope and the ticks of a catalog. -/
structure Faithful (scope ticks : PriceTicks → Prop) : Prop where
  orderId : Function.Injective labels.orderId
  orderId_zero : labels.orderId 0 = 0
  clientId : Function.Injective labels.clientId
  clientId_zero : labels.clientId 0 = 0
  /-- Positive prices stay positive and others stay invalid. -/
  positive : ∀ price, scope price → (labels.price price ≤ 0 ↔ price ≤ 0)
  /-- The better of two prices stays the better one. -/
  ahead : ∀ side, side = .buy ∨ side = .sell → ∀ left right, scope left → scope right →
    bestPriceFirst (labels.side side) (labels.price left) (labels.price right) =
      bestPriceFirst side left right
  /-- Prices on the grid stay on it. -/
  aligned : ∀ tick, ticks tick → ∀ price, scope price →
    isTickAligned (labels.price price) tick = isTickAligned price tick

variable {labels : Relabeling}

/-- The opposite of a relabeled side. -/
theorem side_opposite {side : Side} (known : side = .buy ∨ side = .sell) :
    (labels.side side).opposite = labels.side side.opposite := by
  have apart : Side.sell ≠ Side.buy := by decide
  cases mirrored : labels.mirrored <;> rcases known with rfl | rfl <;>
    simp [Relabeling.side, Side.opposite, mirrored, apart]

/-- Unknown sides stay unknown. -/
theorem side_isValid (side : Side) : (labels.side side).isValid = side.isValid := by
  have apart : Side.sell ≠ Side.buy := by decide
  cases mirrored : labels.mirrored
  · simp [Relabeling.side, mirrored]
  · simp only [Relabeling.side, mirrored, Bool.not_true, Bool.false_eq_true, ↓reduceIte,
      Side.isValid]
    split_ifs <;> simp_all

/-- A side of a relabeled book. -/
theorem ladder_side (ladder : Ladder) {side : Side} (known : side = .buy ∨ side = .sell) :
    (labels.ladder ladder).side (labels.side side) = labels.levels (ladder.side side) := by
  have apart : Side.sell ≠ Side.buy := by decide
  cases mirrored : labels.mirrored <;> rcases known with rfl | rfl <;>
    simp [Relabeling.side, Relabeling.ladder, Ladder.side, mirrored, apart]

/-- A relabeled book with one side exchanged. -/
theorem ladder_setSide (ladder : Ladder) {side : Side} (known : side = .buy ∨ side = .sell)
    (levels : Levels) :
    labels.ladder (ladder.setSide side levels) =
      (labels.ladder ladder).setSide (labels.side side) (labels.levels levels) := by
  have apart : Side.sell ≠ Side.buy := by decide
  cases mirrored : labels.mirrored <;> rcases known with rfl | rfl <;>
    simp [Relabeling.side, Relabeling.ladder, Ladder.setSide, mirrored, apart]

@[simp] theorem order_orderId (order : OrderNodeSpec) :
    (labels.order order).orderId = labels.orderId order.orderId := rfl

@[simp] theorem order_clientId (order : OrderNodeSpec) :
    (labels.order order).clientId = labels.clientId order.clientId := rfl

@[simp] theorem order_instrumentId (order : OrderNodeSpec) :
    (labels.order order).instrumentId = order.instrumentId := rfl

@[simp] theorem order_side (order : OrderNodeSpec) :
    (labels.order order).side = labels.side order.side := rfl

@[simp] theorem order_price (order : OrderNodeSpec) :
    (labels.order order).price = labels.price order.price := rfl

@[simp] theorem order_remainingQuantity (order : OrderNodeSpec) :
    (labels.order order).remainingQuantity = order.remainingQuantity := rfl

@[simp] theorem order_withRemaining (order : OrderNodeSpec) (remaining : Quantity) :
    (labels.order order).withRemaining remaining = labels.order (order.withRemaining remaining) :=
  rfl

/-- The units of a relabeled queue. -/
theorem total_map (orders : List OrderNodeSpec) :
    total (orders.map labels.order) = total orders := by
  simp [total, Function.comp_def]

/-- The machine sum of a relabeled queue. -/
theorem aggregate_map (orders : List OrderNodeSpec) :
    aggregate (orders.map labels.order) = aggregate orders := by
  induction orders with
  | nil => rfl
  | cons order rest ih =>
    rw [List.map_cons, aggregate_cons, aggregate_cons, ih, order_remainingQuantity]

/-- The executions against relabeled orders. -/
theorem fillQueue_map (quantity : Quantity) (orders : List OrderNodeSpec) :
    fillQueue quantity (orders.map labels.order) = (fillQueue quantity orders).map labels.fill := by
  induction orders generalizing quantity with
  | nil => rfl
  | cons order rest ih =>
    rw [List.map_cons, fillQueue, fillQueue]
    by_cases zero : quantity = 0
    · simp [zero]
    · rw [if_neg zero, if_neg zero, List.map_cons, ← ih]
      rfl

/-- What relabeled orders leave of a quantity. -/
theorem residual_map (quantity : Quantity) (orders : List OrderNodeSpec) :
    residual quantity (orders.map labels.order) = residual quantity orders := by
  induction orders generalizing quantity with
  | nil => rfl
  | cons order rest ih =>
    rw [List.map_cons, residual, residual, ih]
    rfl

/-- The orders of a relabeled side. -/
theorem orders_levels (levels : Levels) :
    (labels.levels levels).orders = levels.orders.map labels.order := by
  simp [Levels.orders, Relabeling.levels, SortedMap.rename, List.map_flatMap, List.flatMap_map]

/-- The orders of a relabeled book, up to the order of the sides. -/
theorem orders_ladder (ladder : Ladder) :
    (labels.ladder ladder).orders.Perm (ladder.orders.map labels.order) := by
  rw [Ladder.orders, Ladder.orders, List.map_append, ← orders_levels, ← orders_levels]
  cases mirrored : labels.mirrored
  · simp [Relabeling.ladder, mirrored]
  · simpa [Relabeling.ladder, mirrored] using List.perm_append_comm

/-- As many orders rest in a relabeled book. -/
theorem length_ladder (ladder : Ladder) :
    (labels.ladder ladder).orders.length = ladder.orders.length := by
  rw [(orders_ladder ladder).length_eq, List.length_map]

/-- A change of orders and the same change of relabeled orders. -/
def Transports (labels : Relabeling) (change image : OrderNodeSpec → Option OrderNodeSpec) : Prop :=
  ∀ order, image (labels.order order) = (change order).map labels.order

/-- A revision of a relabeled side. -/
theorem revise_levels {change image : OrderNodeSpec → Option OrderNodeSpec}
    (transports : labels.Transports change image) (levels : Levels) :
    (labels.levels levels).revise image = labels.levels (levels.revise change) := by
  have queues : ∀ queue : List OrderNodeSpec,
      (queue.map labels.order).filterMap image = (queue.filterMap change).map labels.order := by
    intro queue
    rw [List.filterMap_map, List.map_filterMap]
    exact List.filterMap_congr fun order _ => transports order
  rw [Levels.revise, Levels.revise, Relabeling.levels, SortedMap.rename, Relabeling.levels,
    SortedMap.rename, List.filterMap_map, List.map_filterMap]
  refine List.filterMap_congr fun entry _ => ?_
  by_cases emptied : entry.2.filterMap change = [] <;>
    simp [Levels.reviseEntry, queues, emptied]

/-- A revision of a relabeled book. -/
theorem revise_ladder {change image : OrderNodeSpec → Option OrderNodeSpec}
    (transports : labels.Transports change image) (ladder : Ladder) :
    (labels.ladder ladder).revise image = labels.ladder (ladder.revise change) := by
  cases mirrored : labels.mirrored <;>
    simp [Relabeling.ladder, Ladder.revise, mirrored, revise_levels transports]

/-- The best level of a relabeled side. -/
theorem best_levels (levels : Levels) :
    Ladder.best (labels.levels levels) = (Ladder.best levels).map labels.topLevel := by
  cases levels with
  | nil => rfl
  | cons entry rest =>
    simp [Ladder.best, Relabeling.levels, aggregate_map, Relabeling.topLevel]

/-- The top of a relabeled book. -/
theorem top_ladder (ladder : Ladder) : (labels.ladder ladder).top = labels.top ladder.top := by
  cases mirrored : labels.mirrored <;>
    simp [Relabeling.ladder, Relabeling.top, Ladder.top, mirrored, best_levels]

namespace Faithful

variable {scope ticks : PriceTicks → Prop}

/-- Different prices in the scope stay different. -/
theorem price_injective (faithful : labels.Faithful scope ticks) {left right : PriceTicks}
    (leftScope : scope left) (rightScope : scope right)
    (same : labels.price left = labels.price right) : left = right := by
  have first := faithful.ahead .buy (Or.inl rfl) left right leftScope rightScope
  have second := faithful.ahead .buy (Or.inl rfl) right left rightScope leftScope
  have irreflexive := (bestPriceFirst_strictOrder (labels.side .buy)).irrefl
  rw [same, irreflexive] at first second
  by_contra apart
  have ordered := (bestPriceFirst_strictOrder .buy).total apart
  simp_all

/-- Taking a quantity from a relabeled order. -/
theorem reduceBy (faithful : labels.Faithful scope ticks) (orderId : OrderId)
    (quantity : Quantity) :
    labels.Transports (reduceBy orderId quantity)
      (AtlasLob.reduceBy (labels.orderId orderId) quantity) := by
  intro order
  rw [AtlasLob.reduceBy, AtlasLob.reduceBy]
  by_cases own : order.orderId = orderId
  · have image : (labels.order order).orderId = labels.orderId orderId := congrArg _ own
    rw [if_pos own, if_pos image, order_remainingQuantity]
    by_cases taken : order.remainingQuantity ≤ quantity
    · simp [taken]
    · simp [taken]
  · have image : (labels.order order).orderId ≠ labels.orderId orderId := fun same =>
      own (faithful.orderId same)
    rw [if_neg own, if_neg image, Option.map_some]

/-- The effect of relabeled executions. -/
theorem settle (faithful : labels.Faithful scope ticks) (fills : List Fill) :
    labels.Transports (settle fills) (AtlasLob.settle (fills.map labels.fill)) := by
  induction fills with
  | nil =>
    intro order
    rfl
  | cons fill rest ih =>
    intro order
    have first := faithful.reduceBy fill.order.orderId fill.executed order
    rw [List.map_cons, AtlasLob.settle, AtlasLob.settle]
    show (AtlasLob.reduceBy (labels.orderId fill.order.orderId) fill.executed _).bind _ = _
    rw [first, Option.map_bind, Option.bind_map]
    congr 1
    funext image
    exact ih image

/-- Client IDs keep being named. -/
theorem clientId_eq_zero (faithful : labels.Faithful scope ticks) (clientId : ClientId) :
    labels.clientId clientId = 0 ↔ clientId = 0 := by
  rw [← faithful.clientId_zero, faithful.clientId.eq_iff, faithful.clientId_zero]

/-- Order IDs keep being named. -/
theorem orderId_eq_zero (faithful : labels.Faithful scope ticks) (orderId : OrderId) :
    labels.orderId orderId = 0 ↔ orderId = 0 := by
  rw [← faithful.orderId_zero, faithful.orderId.eq_iff, faithful.orderId_zero]

/-- The shape of a relabeled order. -/
theorem validate_newOrder (faithful : labels.Faithful scope ticks) {order : NewOrder}
    (priced : ∀ limit ∈ order.limitPrice, scope limit) :
    (labels.newOrder order).validate = order.validate := by
  obtain ⟨clientId, orderId, instrumentId, side, orderType, timeInForce, limitPrice, quantity⟩ :=
    order
  cases limitPrice with
  | none =>
    simp only [NewOrder.validate, Relabeling.newOrder, faithful.clientId_eq_zero,
      faithful.orderId_eq_zero, side_isValid, Option.map_none]
    congr!
  | some limit =>
    have positive := faithful.positive limit (priced limit rfl)
    simp [NewOrder.validate, Relabeling.newOrder, faithful.clientId_eq_zero,
      faithful.orderId_eq_zero, side_isValid, positive]

/-- A relabeled order is as well formed. -/
theorem wellFormed_newOrder (faithful : labels.Faithful scope ticks) {order : NewOrder}
    (wellFormed : order.WellFormed) (priced : ∀ limit ∈ order.limitPrice, scope limit) :
    (labels.newOrder order).WellFormed := by
  rw [← NewOrder.validate_eq_none_iff, faithful.validate_newOrder priced]
  exact NewOrder.validate_eq_none_iff.mpr wellFormed

/-- Whether a relabeled order trades at a relabeled price. -/
theorem crosses (faithful : labels.Faithful scope ticks) {order : NewOrder}
    (wellFormed : order.WellFormed) (priced : ∀ limit ∈ order.limitPrice, scope limit)
    {price : PriceTicks} (inside : scope price) :
    (labels.newOrder order).crosses (labels.price price) = order.crosses price := by
  have meeting : ∀ order : NewOrder, order.WellFormed →
      Meets order.instrumentId Ladder.empty order := fun order wellFormed =>
    ⟨Ladder.Valid.empty wellFormed.instrument, wellFormed, rfl, by simp [Ladder.empty,
      Ladder.orders, ids]⟩
  rcases wellFormed.terms with ⟨limit, typed, given, -⟩ | ⟨typed, -⟩
  · have image := (meeting _ (faithful.wellFormed_newOrder wellFormed priced)).crosses_eq typed
      (show (labels.newOrder order).limitPrice = some (labels.price limit) by
        simp [Relabeling.newOrder, given])
    rw [image, (meeting _ wellFormed).crosses_eq typed given]
    show (!bestPriceFirst (labels.side order.side).opposite _ _) = _
    rw [side_opposite wellFormed.side, faithful.ahead _ (Side.opposite_known wellFormed.side)
      limit price (priced limit given) inside]
  · have image : (labels.newOrder order).orderType = .market := typed
    rw [NewOrder.crosses, NewOrder.crosses, if_pos typed, if_pos image]

/-- The reachable orders of a relabeled side. -/
theorem eligible (faithful : labels.Faithful scope ticks) {order : NewOrder}
    (wellFormed : order.WellFormed) (priced : ∀ limit ∈ order.limitPrice, scope limit)
    {levels : Levels} (within : ∀ price ∈ SortedMap.keys levels, scope price) :
    eligible (labels.newOrder order).crosses (labels.levels levels) =
      (AtlasLob.eligible order.crosses levels).map labels.order := by
  induction levels with
  | nil => rfl
  | cons entry rest ih =>
    have crosses := faithful.crosses wellFormed priced (within entry.1 (by simp))
    have later := ih fun price member => within price (by simp [member])
    simp only [AtlasLob.eligible, Relabeling.levels] at later ⊢
    rw [SortedMap.rename_cons, List.takeWhile_cons, List.takeWhile_cons]
    simp only [crosses]
    by_cases reached : order.crosses entry.1 = true
    · simp only [reached, ↓reduceIte, Levels.orders_cons, List.map_append, later]
    · simp [reached]

end Faithful

end Relabeling

/-- Every price of a book lies in a scope. -/
def Ladder.Within (scope : PriceTicks → Prop) (ladder : Ladder) : Prop :=
  ∀ side, side = .buy ∨ side = .sell → ∀ price ∈ SortedMap.keys (ladder.side side), scope price

namespace Ladder.Within

variable {scope : PriceTicks → Prop} {ladder : Ladder}

/-- Some of the levels of a book stay in the scope. -/
theorem revise (within : ladder.Within scope) (change : OrderNodeSpec → Option OrderNodeSpec) :
    (ladder.revise change).Within scope := by
  intro side known price member
  rw [side_revise] at member
  exact within side known price ((Levels.keys_revise_sublist change _).subset member)

/-- An order priced in the scope keeps a book in it. -/
theorem join (within : ladder.Within scope) {resting : OrderNodeSpec}
    (known : resting.side = .buy ∨ resting.side = .sell) (inside : scope resting.price) :
    (ladder.join resting).Within scope := by
  intro side sideKnown price member
  by_cases own : side = resting.side
  · rw [own, Ladder.join, side_setSide] at member
    rcases Levels.mem_keys_join.mp member with rfl | old
    · exact inside
    · exact within _ known price old
  · have other : side = resting.side.opposite := by
      rcases known with buy | sell <;> rcases sideKnown with rfl | rfl <;>
        simp_all [Side.opposite]
    rw [other, Ladder.join, side_opposite_setSide] at member
    exact within _ (Side.opposite_known known) price member

/-- The best prices of a book lie in the scope. -/
theorem best (within : ladder.Within scope) {side : Side} (known : side = .buy ∨ side = .sell)
    {level : TopOfBookLevel} (first : Ladder.best (ladder.side side) = some level) :
    scope level.price := by
  have inside := within side known
  cases levels : ladder.side side with
  | nil => simp [levels, Ladder.best] at first
  | cons entry rest =>
    rw [levels] at first inside
    simp only [Ladder.best, List.head?_cons, Option.map_some, Option.some.injEq] at first
    rw [← first]
    exact inside entry.1 (by simp)

end Ladder.Within

namespace Relabeling.Faithful

variable {labels : Relabeling} {scope ticks : PriceTicks → Prop} {ladder : Ladder}
  {order : NewOrder}

/-- The reachable orders of a relabeled book. -/
theorem reach (faithful : labels.Faithful scope ticks) (within : ladder.Within scope)
    (wellFormed : order.WellFormed) (priced : ∀ limit ∈ order.limitPrice, scope limit) :
    (labels.ladder ladder).reach (labels.newOrder order) =
      (ladder.reach order).map labels.order := by
  have known := Side.opposite_known wellFormed.side
  have other : (labels.newOrder order).side.opposite = labels.side order.side.opposite :=
    side_opposite wellFormed.side
  rw [Ladder.reach, other, ladder_side ladder known]
  exact faithful.eligible wellFormed priced (within _ known)

/-- The executions of a relabeled aggressor. -/
theorem fills (faithful : labels.Faithful scope ticks) (within : ladder.Within scope)
    (wellFormed : order.WellFormed) (priced : ∀ limit ∈ order.limitPrice, scope limit) :
    (labels.ladder ladder).fills (labels.newOrder order) =
      (ladder.fills order).map labels.fill := by
  rw [Ladder.fills, faithful.reach within wellFormed priced]
  exact fillQueue_map order.quantity (ladder.reach order)

/-- What is left of a relabeled aggressor. -/
theorem left (faithful : labels.Faithful scope ticks) (within : ladder.Within scope)
    (wellFormed : order.WellFormed) (priced : ∀ limit ∈ order.limitPrice, scope limit) :
    (labels.ladder ladder).left (labels.newOrder order) = ladder.left order := by
  rw [Ladder.left, faithful.reach within wellFormed priced]
  exact residual_map order.quantity (ladder.reach order)

/-- What becomes of it. -/
theorem disposition (faithful : labels.Faithful scope ticks) (within : ladder.Within scope)
    (wellFormed : order.WellFormed) (priced : ∀ limit ∈ order.limitPrice, scope limit) :
    (labels.ladder ladder).disposition (labels.newOrder order) = ladder.disposition order := by
  rw [Ladder.disposition, faithful.left within wellFormed priced]
  rfl

/-- A relabeled book after the executions. -/
theorem struck (faithful : labels.Faithful scope ticks) (within : ladder.Within scope)
    (wellFormed : order.WellFormed) (priced : ∀ limit ∈ order.limitPrice, scope limit)
    (replaced : Option OrderNodeSpec) :
    (labels.ladder ladder).struck (labels.newOrder order) (replaced.map labels.order) =
      labels.ladder (ladder.struck order replaced) := by
  have removed : ((replaced.map labels.order).map removalOf).toList =
      (replaced.map removalOf).toList.map labels.fill := by
    cases replaced <;> rfl
  rw [Ladder.struck, faithful.fills within wellFormed priced, removed, ← List.map_append]
  exact revise_ladder (faithful.settle _) ladder

/-- The queue a relabeled order joins. -/
theorem queueAt (faithful : labels.Faithful scope ticks) {levels : Levels}
    (within : ∀ price ∈ SortedMap.keys levels, scope price) {price : PriceTicks}
    (inside : scope price) :
    (labels.levels levels).queueAt (labels.price price) =
      (levels.queueAt price).map labels.order := by
  have apart : ∀ other ∈ SortedMap.keys levels, labels.price other = labels.price price →
      other = price := fun other member same =>
    faithful.price_injective (within other member) inside same
  rw [Levels.queueAt, Levels.queueAt, Relabeling.levels, SortedMap.find?_rename apart]
  cases SortedMap.find? price levels <;> rfl

/-- A relabeled order joins a relabeled side. -/
theorem join_levels (faithful : labels.Faithful scope ticks) {levels : Levels}
    (within : ∀ price ∈ SortedMap.keys levels, scope price) {side : Side}
    (known : side = .buy ∨ side = .sell) {resting : OrderNodeSpec} (inside : scope resting.price) :
    (labels.levels levels).join (labels.side side) (labels.order resting) =
      labels.levels (levels.join side resting) := by
  have apart : ∀ other ∈ SortedMap.keys levels,
      labels.price other = labels.price resting.price → other = resting.price :=
    fun other member same => faithful.price_injective (within other member) inside same
  have ordered : ∀ other ∈ SortedMap.keys levels,
      bestPriceFirst (labels.side side) (labels.price other) (labels.price resting.price) =
        bestPriceFirst side other resting.price := fun other member =>
    faithful.ahead side known other resting.price (within other member) inside
  simp only [Levels.join, order_price, Relabeling.levels, SortedMap.find?_rename apart]
  cases found : SortedMap.find? resting.price levels with
  | none =>
    simp only [Option.map_none]
    rw [SortedMap.rename_insert ordered]
    rfl
  | some queue =>
    simp only [Option.map_some]
    rw [SortedMap.rename_set apart, List.map_append]
    rfl

/-- A relabeled order joins a relabeled book. -/
theorem join (faithful : labels.Faithful scope ticks) (within : ladder.Within scope)
    {resting : OrderNodeSpec} (known : resting.side = .buy ∨ resting.side = .sell)
    (inside : scope resting.price) :
    (labels.ladder ladder).join (labels.order resting) = labels.ladder (ladder.join resting) := by
  rw [Ladder.join, Ladder.join, order_side, ladder_side ladder known,
    faithful.join_levels (within _ known) known inside, ladder_setSide ladder known]

/-- A resting residual has a limit price. -/
theorem rested_terms (wellFormed : order.WellFormed) (rests : ladder.disposition order = .rest) :
    ∃ limit, order.limitPrice = some limit := by
  rcases wellFormed.terms with ⟨limit, -, given, -⟩ | ⟨typed, -⟩
  · exact ⟨limit, given⟩
  · rw [Ladder.disposition, classifyResidual, if_pos typed] at rests
    split_ifs at rests

/-- The order that rests what is left of a relabeled aggressor. -/
theorem rested (faithful : labels.Faithful scope ticks) (within : ladder.Within scope)
    (wellFormed : order.WellFormed) (priced : ∀ limit ∈ order.limitPrice, scope limit)
    (rests : ladder.disposition order = .rest) (sequence : Sequence) :
    (labels.ladder ladder).rested (labels.newOrder order) (labels.sequence sequence) =
      labels.order (ladder.rested order sequence) := by
  obtain ⟨limit, given⟩ := rested_terms wellFormed rests
  rw [Ladder.rested, faithful.left within wellFormed priced]
  simp [Relabeling.newOrder, Relabeling.order, Ladder.rested, given]

/-- The price of a resting residual. -/
theorem rested_scope (wellFormed : order.WellFormed)
    (priced : ∀ limit ∈ order.limitPrice, scope limit) (rests : ladder.disposition order = .rest)
    (sequence : Sequence) : scope (ladder.rested order sequence).price := by
  obtain ⟨limit, given⟩ := rested_terms wellFormed rests
  have inside := priced limit given
  simpa [Ladder.rested, given] using inside

/-- The book after an aggressor stays in the scope. -/
theorem after_within (within : ladder.Within scope) (wellFormed : order.WellFormed)
    (priced : ∀ limit ∈ order.limitPrice, scope limit) (replaced : Option OrderNodeSpec)
    (sequence : Sequence) : (ladder.after order replaced sequence).Within scope := by
  rw [Ladder.after, Ladder.struck]
  split_ifs with rests
  · exact (within.revise _).join wellFormed.side (rested_scope wellFormed priced rests sequence)
  · exact within.revise _

/-- A relabeled book after a relabeled aggressor. -/
theorem after (faithful : labels.Faithful scope ticks) (within : ladder.Within scope)
    (wellFormed : order.WellFormed) (priced : ∀ limit ∈ order.limitPrice, scope limit)
    (replaced : Option OrderNodeSpec) (sequence : Sequence) :
    (labels.ladder ladder).after (labels.newOrder order) (replaced.map labels.order)
        (labels.sequence sequence) =
      labels.ladder (ladder.after order replaced sequence) := by
  have struck := faithful.struck within wellFormed priced replaced
  rw [Ladder.after, Ladder.after, faithful.disposition within wellFormed priced, struck]
  by_cases rests : ladder.disposition order = .rest
  · rw [if_pos rests, if_pos rests, faithful.rested within wellFormed priced rests]
    exact faithful.join (within.revise _) wellFormed.side
      (rested_scope wellFormed priced rests sequence)
  · rw [if_neg rests, if_neg rests]

/-- Whether the level of a relabeled residual would exceed a word. -/
theorem overflows (faithful : labels.Faithful scope ticks) (within : ladder.Within scope)
    (wellFormed : order.WellFormed) (priced : ∀ limit ∈ order.limitPrice, scope limit)
    (replaced : Option OrderNodeSpec) :
    (labels.ladder ladder).overflows (labels.newOrder order) (replaced.map labels.order) =
      ladder.overflows order replaced := by
  rw [Ladder.overflows, Ladder.overflows, faithful.disposition within wellFormed priced]
  by_cases rests : ladder.disposition order = .rest
  · obtain ⟨limit, given⟩ := rested_terms wellFormed rests
    have image : (labels.newOrder order).limitPrice.getD 0 = labels.price limit := by
      simp [Relabeling.newOrder, given]
    have side : (labels.newOrder order).side = labels.side order.side := rfl
    have struck : (ladder.struck order replaced).Within scope := within.revise _
    have queue := faithful.queueAt (struck order.side wellFormed.side) (priced limit given)
    rw [faithful.struck within wellFormed priced, faithful.left within wellFormed priced, image,
      side, ladder_side _ wellFormed.side, queue, total_map, given, Option.getD_some]
  · simp [rests]

/-- The report of a relabeled execution. -/
theorem tradeEvent (order : NewOrder) (fill : Fill) :
    Ladder.tradeEvent (labels.newOrder order) (labels.fill fill) =
      labels.payload (Ladder.tradeEvent order fill) := rfl

/-- The report of what is left of a relabeled aggressor. -/
theorem closingEvent (faithful : labels.Faithful scope ticks) (within : ladder.Within scope)
    (wellFormed : order.WellFormed) (priced : ∀ limit ∈ order.limitPrice, scope limit) :
    (labels.ladder ladder).closingEvent (labels.newOrder order) =
      labels.payload (ladder.closingEvent order) := by
  rw [Ladder.closingEvent, Ladder.closingEvent, faithful.disposition within wellFormed priced,
    faithful.left within wellFormed priced]
  cases rests : ladder.disposition order with
  | rest =>
    obtain ⟨limit, given⟩ := rested_terms wellFormed rests
    simp [Relabeling.payload, Relabeling.newOrder, given]
  | filled => rfl
  | iocCanceled => rfl
  | marketExhausted => rfl

/-- Different tops of books in the scope stay different. -/
theorem top_injective (faithful : labels.Faithful scope ticks) {other : Ladder}
    (within : ladder.Within scope) (otherWithin : other.Within scope)
    (same : labels.top ladder.top = labels.top other.top) : ladder.top = other.top := by
  have levels : ∀ side, side = .buy ∨ side = .sell →
      (Ladder.best (ladder.side side)).map labels.topLevel =
        (Ladder.best (other.side side)).map labels.topLevel →
      Ladder.best (ladder.side side) = Ladder.best (other.side side) := by
    intro side known images
    cases first : Ladder.best (ladder.side side) with
    | none => cases second : Ladder.best (other.side side) <;> simp_all
    | some level =>
      cases second : Ladder.best (other.side side) with
      | none => simp_all
      | some otherLevel =>
        rw [first, second] at images
        simp only [Option.map_some, Option.some.injEq, Relabeling.topLevel,
          TopOfBookLevel.mk.injEq] at images
        have prices := faithful.price_injective (within.best known first)
          (otherWithin.best known second) images.1
        cases level
        cases otherLevel
        simp_all
  have bids := levels .buy (Or.inl rfl)
  have asks := levels .sell (Or.inr rfl)
  cases mirrored : labels.mirrored <;>
    simp_all [Relabeling.top, Ladder.top]

/-- The report of a changed top of relabeled books. -/
theorem changeEvents (faithful : labels.Faithful scope ticks) {later : Ladder}
    (within : ladder.Within scope) (laterWithin : later.Within scope) :
    Ladder.changeEvents (labels.ladder ladder) (labels.ladder later) =
      (Ladder.changeEvents ladder later).map labels.payload := by
  rw [Ladder.changeEvents, Ladder.changeEvents, top_ladder, top_ladder]
  by_cases same : ladder.top = later.top
  · rw [if_pos same, if_pos (congrArg labels.top same), List.map_nil]
  · rw [if_neg same, if_neg fun images =>
      same (faithful.top_injective within laterWithin images)]
    rfl

/-- The report of a relabeled aggressor. -/
theorem report (faithful : labels.Faithful scope ticks) (within : ladder.Within scope)
    (wellFormed : order.WellFormed) (priced : ∀ limit ∈ order.limitPrice, scope limit)
    (replaced : Option OrderNodeSpec) (sequence : Sequence) (opening : List EventPayload) :
    (labels.ladder ladder).report (labels.newOrder order) (replaced.map labels.order)
        (labels.sequence sequence) (opening.map labels.payload) =
      (ladder.report order replaced sequence opening).map labels.payload := by
  have changes := faithful.changeEvents within
    (after_within within wellFormed priced replaced sequence)
  rw [Ladder.report, Ladder.report, faithful.fills within wellFormed priced,
    faithful.closingEvent within wellFormed priced, faithful.after within wellFormed priced,
    changes]
  simp [Function.comp_def, tradeEvent]

/-- A relabeled book after a withdrawal. -/
theorem without (faithful : labels.Faithful scope ticks) (ladder : Ladder) (old : OrderNodeSpec) :
    (labels.ladder ladder).without (labels.order old) = labels.ladder (ladder.without old) :=
  revise_ladder (faithful.settle [removalOf old]) ladder

/-- The report of a withdrawal from a relabeled book. -/
theorem withdrawalReport (faithful : labels.Faithful scope ticks) (within : ladder.Within scope)
    (old : OrderNodeSpec) :
    (labels.ladder ladder).withdrawalReport (labels.order old) =
      (ladder.withdrawalReport old).map labels.payload := by
  have changes := faithful.changeEvents within
    (within.revise (AtlasLob.settle [removalOf old]))
  rw [Ladder.withdrawalReport, Ladder.withdrawalReport, faithful.without, Ladder.without, changes]
  simp [Relabeling.payload]

end Relabeling.Faithful

end AtlasLob
