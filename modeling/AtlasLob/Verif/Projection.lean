import AtlasLob.Spec.Top
import AtlasLob.Verif.Planning

/-!
# Projections describe the changed ladder

The projected top of an admitted command is the top of the ladder after it, and the projection
of an aggressor fails exactly when the level of its residual would not fit a word.
-/

namespace AtlasLob

open PriceLevel

/-- The sum of a queue less that of a part of it. -/
theorem checkedSubtract_aggregate {whole : List OrderNodeSpec} (part rest : List OrderNodeSpec)
    (fits : total whole < 2 ^ 64) (split : total part + total rest = total whole) :
    Word.checkedSubtract (aggregate whole) (aggregate part) = some (aggregate rest) := by
  have wholeReading := aggregate_toNat fits
  have partReading : (aggregate part).toNat = total part := aggregate_toNat (by omega)
  have restReading : (aggregate rest).toNat = total rest := aggregate_toNat (by omega)
  rw [Word.checkedSubtract_of_le (by omega), Option.some.injEq]
  apply Word.eq_of_toNat
  rw [Word.toNat_sub_of_toNat_le (by omega)]
  omega

/-- A level that keeps some of its queue stays. -/
theorem remainingLevel_eq (price : PriceTicks) {whole : List OrderNodeSpec}
    (part rest : List OrderNodeSpec) (fits : total whole < 2 ^ 64)
    (split : total part + total rest = total whole)
    (left : total rest ≠ 0) :
    remainingLevel (describe price whole) (aggregate part) =
      .ok (.remains ⟨price, aggregate rest⟩) := by
  have nonzero : aggregate rest ≠ 0 := by
    rw [ne_eq, Word.eq_zero_iff, aggregate_toNat (by omega)]
    exact left
  rw [remainingLevel, describe_aggregateQuantity, checkedSubtract_aggregate part rest fits split]
  simp only [nonzero, ↓reduceIte, describe_price]

/-- The sum of a queue with one more order. -/
theorem aggregate_singleton_append (part : List OrderNodeSpec) (order : OrderNodeSpec) :
    aggregate (part ++ [order]) = aggregate part + order.remainingQuantity := by
  rw [aggregate_append, aggregate_cons, aggregate_nil, UInt64.add_zero]

/-- An execution against an order of a level reduces the level by what it takes. -/
theorem projectTrade_eq {price : PriceTicks} {part rest : List OrderNodeSpec}
    {order : OrderNodeSpec} (wellFormed : Queue price (part ++ order :: rest))
    {executed : Quantity} (bounded : executed.toNat ≤ order.remainingQuantity.toNat)
    (remaining : Quantity) :
    projectTrade (describe price (part ++ order :: rest)) (aggregate part)
      (plannedOf ⟨order, executed, remaining⟩) order = .ok (aggregate part + executed) := by
  have fits := wellFormed.fits
  have sum : total (part ++ order :: rest) = total part + (order.remainingQuantity.toNat +
      total rest) := by
    rw [total_append, total_cons]
  have partReading : (aggregate part).toNat = total part := aggregate_toNat (by omega)
  have wholeReading := aggregate_toNat fits
  have added := Word.checkedAdd_of_fits (show (aggregate part).toNat + executed.toNat < 2 ^ 64 by
    omega)
  have sumReading := Word.toNat_add_of_fits (show (aggregate part).toNat + executed.toNat < 2 ^ 64
    by omega)
  have within : ¬ aggregate (part ++ order :: rest) < aggregate part + executed := by
    rw [UInt64.lt_iff_toNat_lt]
    omega
  have matched : matchesTrade (plannedOf ⟨order, executed, remaining⟩)
      (describe price (part ++ order :: rest)) order = true := by
    simp [matchesTrade, plannedOf, wellFormed.priced order (by simp)]
  have execution : (plannedOf ⟨order, executed, remaining⟩).executionQuantity = executed := by
    rw [plannedOf]
  rw [projectTrade, matched, execution, added]
  simp only [Bool.not_true, Bool.false_eq_true, ↓reduceIte, describe_aggregateQuantity, within]

/-- A level whose next order is not filled stays with what is left of it. -/
theorem projectLast_eq {price : PriceTicks} {part rest : List OrderNodeSpec}
    {order : OrderNodeSpec} (wellFormed : Queue price (part ++ order :: rest))
    {quantity : Quantity} (partly : quantity < order.remainingQuantity) :
    projectLast (describe price (part ++ order :: rest)) (aggregate part + quantity) [] =
      .ok (.remains ⟨price, aggregate
        (order.withRemaining (order.remainingQuantity - quantity) :: rest)⟩) := by
  have fits := wellFormed.fits
  have short := UInt64.lt_iff_toNat_lt.mp partly
  have left := Word.toNat_sub_of_toNat_le (Nat.le_of_lt short)
  have sum : total (part ++ order :: rest) = total part + (order.remainingQuantity.toNat +
      total rest) := by
    rw [total_append, total_cons]
  have halves := remainingLevel_eq price (part ++ [order.withRemaining quantity])
    (order.withRemaining (order.remainingQuantity - quantity) :: rest) fits (by
      simp only [total_append, total_cons, total_nil,
        OrderNodeSpec.withRemaining_remainingQuantity, left]
      omega) (by
      simp only [total_cons, OrderNodeSpec.withRemaining_remainingQuantity, left]
      omega)
  rw [aggregate_singleton_append, OrderNodeSpec.withRemaining_remainingQuantity] at halves
  rw [projectLast]
  simpa using halves

/-- The projection of one level: it stays with what the executions leave, or it is passed. -/
theorem projectLevel_eq {price : PriceTicks} (quantity : Quantity) (later : List PlannedTrade)
    (part queue : List OrderNodeSpec) (wellFormed : Queue price (part ++ queue))
    (last : leftover quantity queue ≠ [] → later = []) :
    projectLevel (describe price (part ++ queue)) (aggregate part)
        ((fillQueue quantity queue).map plannedOf ++ later) queue =
      if leftover quantity queue = [] then .ok (.passed later (aggregate (part ++ queue)))
      else .ok (.remains ⟨price, aggregate (leftover quantity queue)⟩) := by
  induction queue generalizing part quantity with
  | nil => simp [projectLevel, leftover, fillQueue]
  | cons order rest ih =>
    have unfilled := Word.toNat_pos (wellFormed.unfilled order (by simp))
    by_cases zero : quantity = 0
    · subst zero
      rw [leftover_zero] at last ⊢
      rw [last (by simp), fillQueue_zero, List.map_nil, List.nil_append, if_neg (by simp),
        projectLevel]
      exact remainingLevel_eq price part (order :: rest) wellFormed.fits
        (by rw [total_append]) (by rw [total_cons]; omega)
    · have taken : (min quantity order.remainingQuantity).toNat ≤
          order.remainingQuantity.toNat := by
        rw [Word.toNat_min]
        omega
      have left := Word.toNat_sub_of_toNat_le taken
      have after : (plannedOf ⟨order, min quantity order.remainingQuantity,
          quantity - min quantity order.remainingQuantity⟩).restingRemainingAfter =
            order.remainingQuantity - min quantity order.remainingQuantity := by
        rw [plannedOf]
      rw [fillQueue, if_neg zero, List.map_cons, List.cons_append, projectLevel,
        projectTrade_eq wellFormed taken]
      simp only [after]
      by_cases partly : quantity < order.remainingQuantity
      · have short := UInt64.lt_iff_toNat_lt.mp partly
        have least : min quantity order.remainingQuantity = quantity := by
          apply Word.eq_of_toNat
          rw [Word.toNat_min]
          omega
        have remains : order.remainingQuantity - min quantity order.remainingQuantity ≠ 0 := by
          rw [ne_eq, Word.eq_zero_iff, left, least]
          omega
        rw [leftover, if_neg zero, if_pos partly] at last ⊢
        rw [if_pos remains, last (by simp), least, UInt64.sub_self, fillQueue_zero, List.map_nil,
          List.append_nil, projectLast_eq wellFormed partly, if_neg (by simp)]
      · have covers := partly
        rw [UInt64.lt_iff_toNat_lt, Nat.not_lt] at covers
        have least : min quantity order.remainingQuantity = order.remainingQuantity := by
          apply Word.eq_of_toNat
          rw [Word.toNat_min]
          omega
        have gone : order.remainingQuantity - min quantity order.remainingQuantity = 0 := by
          rw [least, UInt64.sub_self]
        rw [leftover, if_neg zero, if_neg partly] at last ⊢
        rw [if_neg (by simpa using gone), least]
        have tail := ih (quantity - order.remainingQuantity) (part ++ [order])
          (by simpa using wellFormed) last
        rw [aggregate_singleton_append, List.append_assoc, List.singleton_append] at tail
        exact tail

/-- The projection of a side is the best level of what the executions leave. -/
theorem projectSideAfterTrades_eq (crosses : PriceTicks → Bool) (quantity : Quantity)
    {levels : Levels}
    (queues : ∀ price queue, (price, queue) ∈ levels → Queue price queue ∧ queue ≠ []) :
    projectSideAfterTrades ((fillQueue quantity (eligible crosses levels)).map plannedOf)
        (visibleLevels levels) =
      .ok (Ladder.best (sweep crosses quantity levels)) := by
  induction levels generalizing quantity with
  | nil => rfl
  | cons entry rest ih =>
    obtain ⟨price, queue⟩ := entry
    obtain ⟨wellFormed, nonempty⟩ := queues price queue (by simp)
    have fits := wellFormed.fits
    rw [visibleLevels, List.map_cons, projectSideAfterTrades, sweep]
    cases reached : crosses price with
    | false =>
      have level := projectLevel_eq 0 [] [] queue wellFormed (by simp)
      rw [leftover_zero, fillQueue_zero, if_neg nonempty, List.map_nil] at level
      rw [eligible_cons_of_not_crosses reached, fillQueue, List.map_nil]
      simp only [Bool.false_eq_true, ↓reduceIte]
      rw [show projectLevel (describe price queue) 0 [] queue =
        .ok (.remains ⟨price, aggregate queue⟩) from level]
      rfl
    | true =>
      have tail := ih (residual quantity queue) fun key other member =>
        queues key other (by simp [member])
      have level := projectLevel_eq quantity
        ((fillQueue (residual quantity queue) (eligible crosses rest)).map plannedOf) [] queue
        wellFormed (by
          intro left
          rw [residual_of_leftover left, fillQueue_zero, List.map_nil])
      rw [eligible_cons_of_crosses reached, fillQueue_append, List.map_append]
      simp only [↓reduceIte]
      rw [List.nil_append, aggregate_nil] at level
      rw [level]
      by_cases swept : leftover quantity queue = []
      · have whole := checkedSubtract_aggregate queue [] fits (by simp)
        simp only [swept, ↓reduceIte, describe_aggregateQuantity, whole, aggregate_nil, ne_eq,
          not_true_eq_false]
        exact tail
      · simp only [swept, ↓reduceIte]
        rfl

/-- The sum of a level with a residual that fits. -/
theorem checkedAdd_aggregate {queue : List OrderNodeSpec} {quantity : Quantity}
    (fits : total queue + quantity.toNat < 2 ^ 64) :
    Word.checkedAdd (aggregate queue) quantity = some (aggregate queue + quantity) :=
  Word.checkedAdd_of_fits (by rw [aggregate_toNat (by omega)]; exact fits)

/-- The sum of a level with a residual that does not fit. -/
theorem checkedAdd_aggregate_overflow {queue : List OrderNodeSpec} {quantity : Quantity}
    (fits : total queue < 2 ^ 64) (overflow : ¬ total queue + quantity.toNat < 2 ^ 64) :
    Word.checkedAdd (aggregate queue) quantity = none :=
  Word.checkedAdd_of_overflow (by rw [aggregate_toNat fits]; omega)

/-- Every reachable order is at a price the aggressor trades at. -/
theorem crosses_of_mem_eligible {crosses : PriceTicks → Bool} {levels : Levels}
    (queues : ∀ price queue, (price, queue) ∈ levels → Queue price queue) {order : OrderNodeSpec}
    (inside : order ∈ eligible crosses levels) : crosses order.price = true := by
  obtain ⟨price, queue, taken, member⟩ := Levels.mem_orders.mp inside
  have reached := List.mem_takeWhile_imp taken
  rw [(queues price queue ((List.takeWhile_sublist _).subset taken)).priced order member]
  exact reached

/-- Without an execution, all of a quantity is left. -/
theorem residual_of_fillQueue_nil {quantity : Quantity} {orders : List OrderNodeSpec}
    (none : fillQueue quantity orders = []) : residual quantity orders = quantity := by
  have parts := fillQueue_executed quantity orders
  rw [none] at parts
  apply Word.eq_of_toNat
  simpa using parts

/-- The resting orders a plan may name. -/
def Nameable (order : OrderNodeSpec) : Prop :=
  order.orderId ≠ 0 ∧ order.clientId ≠ 0 ∧ 0 < order.price ∧ order.remainingQuantity ≠ 0 ∧
    order.prioritySequence ≠ 0

namespace MatchPlan

/-- An execution against a resting order is consistent in itself. -/
theorem malformed_plannedOf {fill : Fill} (sound : fill.Sound) (named : Nameable fill.order) :
    malformed (plannedOf fill) = false := by
  obtain ⟨id, client, price, unfilled, priority⟩ := named
  have within : ¬ fill.order.remainingQuantity < fill.executed := by
    rw [UInt64.lt_iff_toNat_lt]
    have := sound.bounded
    omega
  have priced : ¬ fill.order.price ≤ 0 := by grind
  have decisive : (decide (fill.order.remainingQuantity - fill.executed ≠ 0) &&
      decide (fill.aggressorRemaining ≠ 0)) = false := by
    rcases sound.decisive with full | spent
    · rw [full, UInt64.sub_self]
      rfl
    · rw [spent, Bool.and_eq_false_iff]
      exact Or.inr rfl
  simp only [malformed, plannedOf, id, client, priced, sound.positive, unfilled, priority, within,
    ne_eq, not_true_eq_false, decide_false, Bool.or_self, Bool.false_or]
  exact decisive

/-- The parts of a quantity that an execution splits. -/
theorem checkedAdd_parts (quantity available : Quantity) :
    Word.checkedAdd (min quantity available) (quantity - min quantity available) =
      some quantity := by
  have bound := quantity.toNat_lt
  have taken := Word.toNat_min quantity available
  have left := Word.toNat_sub_of_toNat_le
    (show (min quantity available).toNat ≤ quantity.toNat by omega)
  have fits : (min quantity available).toNat + (quantity - min quantity available).toNat <
      2 ^ 64 := by omega
  rw [Word.checkedAdd_of_fits fits, Option.some.injEq]
  apply Word.eq_of_toNat
  rw [Word.toNat_add_of_fits fits]
  omega

/-- The executions of a quantity chain from it to what is left of it. -/
theorem validTrades_eq {queue : List OrderNodeSpec} (named : ∀ order ∈ queue, Nameable order)
    (quantity : Quantity) (previous : Option Quantity)
    (chained : ∀ remaining ∈ previous, remaining = quantity) :
    validTrades previous ((fillQueue quantity queue).map plannedOf) =
      some (if fillQueue quantity queue = [] then previous
        else some (residual quantity queue)) := by
  induction queue generalizing quantity previous with
  | nil => rfl
  | cons order rest ih =>
    by_cases zero : quantity = 0
    · subst zero
      simp [validTrades]
    · have sound := fillQueue_sound (fun other inside => (named other inside).2.2.2.1)
        (show ⟨order, min quantity order.remainingQuantity,
          quantity - min quantity order.remainingQuantity⟩ ∈ fillQueue quantity (order :: rest) by
            rw [fillQueue, if_neg zero]; exact List.mem_cons_self)
      have shape := malformed_plannedOf sound (named order (by simp))
      have same : (previous.any fun remaining => decide (remaining ≠ quantity)) = false := by
        cases previous with
        | none => rfl
        | some remaining => simp [chained remaining rfl]
      have tail := ih (fun other inside => named other (by simp [inside]))
        (quantity - min quantity order.remainingQuantity)
        (some (quantity - min quantity order.remainingQuantity)) (by simp)
      rw [fillQueue, if_neg zero, List.map_cons, validTrades, shape, residual,
        if_neg Bool.false_ne_true, if_neg (List.cons_ne_nil _ _)]
      rw [show (plannedOf ⟨order, min quantity order.remainingQuantity,
          quantity - min quantity order.remainingQuantity⟩).executionQuantity =
          min quantity order.remainingQuantity from rfl,
        show (plannedOf ⟨order, min quantity order.remainingQuantity,
          quantity - min quantity order.remainingQuantity⟩).aggressorRemaining =
          quantity - min quantity order.remainingQuantity from rfl, checkedAdd_parts]
      simp only [same, Bool.false_eq_true, ↓reduceIte]
      rw [tail]
      split_ifs with last
      · rw [residual_of_fillQueue_nil last]
      · rfl

end MatchPlan
namespace TopOfBookSnapshot

variable {side : Side}

@[simp] theorem side_setSide (top : TopOfBookSnapshot) (side : Side)
    (best : Option TopOfBookLevel) : (top.setSide side best).side side = best := by
  by_cases buy : side = .buy <;> simp [TopOfBookSnapshot.side, setSide, buy]

@[simp] theorem side_opposite_setSide (top : TopOfBookSnapshot) (side : Side)
    (best : Option TopOfBookLevel) :
    (top.setSide side best).side side.opposite = top.side side.opposite := by
  have apart : Side.sell ≠ Side.buy := by decide
  by_cases buy : side = .buy <;>
    simp [TopOfBookSnapshot.side, setSide, Side.opposite, buy, apart]

@[simp] theorem side_setSide_opposite (top : TopOfBookSnapshot) (side : Side)
    (best : Option TopOfBookLevel) :
    (top.setSide side.opposite best).side side = top.side side := by
  have apart : Side.sell ≠ Side.buy := by decide
  by_cases buy : side = .buy <;>
    simp [TopOfBookSnapshot.side, setSide, Side.opposite, buy, apart]

/-- The two sides are everything. -/
theorem eq_of_sides {first second : TopOfBookSnapshot} (side : Side)
    (own : first.side side = second.side side)
    (other : first.side side.opposite = second.side side.opposite) : first = second := by
  have apart : Side.sell ≠ Side.buy := by decide
  obtain ⟨firstBid, firstAsk⟩ := first
  obtain ⟨secondBid, secondAsk⟩ := second
  by_cases buy : side = .buy
  · simp only [TopOfBookSnapshot.side, Side.opposite, buy, ↓reduceIte, apart] at own other
    rw [own, other]
  · simp only [TopOfBookSnapshot.side, Side.opposite, buy, ↓reduceIte] at own other
    rw [own, other]

end TopOfBookSnapshot

namespace Ladder

/-- One side of the top. -/
@[simp] theorem top_side (ladder : Ladder) (side : Side) :
    ladder.top.side side = best (ladder.side side) := by
  by_cases buy : side = .buy <;> simp [top, TopOfBookSnapshot.side, Ladder.side, buy]

/-- The top of a well-formed ladder is not crossed. -/
theorem Valid.top_isCrossed {instrument : InstrumentId} {ladder : Ladder}
    (valid : ladder.Valid instrument) : ladder.top.isCrossed = false := by
  rw [TopOfBookSnapshot.isCrossed, top]
  cases bid : best ladder.bids with
  | none => rfl
  | some bestBid =>
    cases ask : best ladder.asks with
    | none => rfl
    | some bestAsk =>
      have ordered := valid.uncrossed _ (best_price valid.bids.sorted bid).1 _
        (best_price valid.asks.sorted ask).1
      simp only [decide_eq_false_iff_not]
      grind

end Ladder

namespace Aggresses

variable {instrument : InstrumentId} {ladder : Ladder} {order : NewOrder}
  {replaced : Option OrderNodeSpec} {sequence : Sequence}

/-- A plan may name every reachable order. -/
theorem nameable (aggresses : Aggresses instrument ladder order replaced sequence) :
    ∀ resting ∈ ladder.reach order, Nameable resting := by
  intro resting inside
  have known := Side.opposite_known aggresses.wellFormed.side
  have member := mem_reach inside
  obtain ⟨price, queue, level, here⟩ := Levels.mem_orders.mp
    ((reach_sublist ladder order).subset inside)
  have wellFormed := (aggresses.valid.side known).queue price queue level
  refine ⟨aggresses.valid.named_order member, aggresses.valid.owned_order member, ?_,
    wellFormed.unfilled resting here, wellFormed.issued resting here⟩
  rw [wellFormed.priced resting here]
  exact wellFormed.positive

/-- Without an execution, all of an aggressor is left. -/
theorem left_of_no_fill (none : ladder.fills order = []) : ladder.left order = order.quantity :=
  residual_of_fillQueue_nil none

/-- A filled aggressor was executed. -/
theorem fills_of_filled (aggresses : Aggresses instrument ladder order replaced sequence)
    (filled : ladder.left order = 0) : ladder.fills order ≠ [] := by
  intro none
  rw [left_of_no_fill none] at filled
  exact aggresses.wellFormed.quantity filled

/-- The plan of an aggressor is consistent in itself. -/
theorem validShape (aggresses : Aggresses instrument ladder order replaced sequence) :
    (planOf ladder order).validShape = true := by
  have trades := MatchPlan.validTrades_eq aggresses.nameable order.quantity none (by simp)
  rw [show fillQueue order.quantity (ladder.reach order) = ladder.fills order from rfl,
    show residual order.quantity (ladder.reach order) = ladder.left order from rfl] at trades
  have emptiness : (decide (ladder.disposition order = .filled) &&
      ((ladder.fills order).map plannedOf).isEmpty) = false := by
    rw [Bool.and_eq_false_iff]
    by_cases zero : ladder.left order = 0
    · have nonempty := aggresses.fills_of_filled zero
      exact Or.inr (by simpa using nonempty)
    · refine Or.inl (decide_eq_false ?_)
      rw [Ladder.disposition, classifyResidual, if_neg zero]
      split_ifs <;> simp
  rw [MatchPlan.validShape, Represents.residualAgrees, planOf_trades, planOf_residualDisposition,
    emptiness, trades, planOf_residualQuantity]
  split_ifs with none <;> simp

/-- A plan starts from the quantity of its order. -/
theorem initialQuantity (ladder : Ladder) (order : NewOrder) :
    (planOf ladder order).initialQuantity = some order.quantity := by
  rw [MatchPlan.initialQuantity, planOf_trades, planOf_residualQuantity]
  cases reached : ladder.reach order with
  | nil =>
    have none : ladder.fills order = [] := by rw [Ladder.fills, reached]; rfl
    rw [none, left_of_no_fill none]
    rfl
  | cons resting rest =>
    by_cases zero : order.quantity = 0
    · have none : ladder.fills order = [] := by rw [Ladder.fills, zero, fillQueue_zero]
      rw [none, left_of_no_fill none]
      rfl
    · rw [Ladder.fills, reached, fillQueue, if_neg zero, List.map_cons]
      exact MatchPlan.checkedAdd_parts order.quantity resting.remainingQuantity

/-- The plan of an exchange is one of a resting limit order. -/
theorem validForOrder {old : OrderNodeSpec}
    (aggresses : Aggresses instrument ladder order (some old) sequence) :
    (planOf ladder order).validForOrder order = true := by
  have known := Side.opposite_known aggresses.wellFormed.side
  obtain ⟨-, -, -, limit, gtc⟩ := aggresses.replaces old rfl
  have crosses : (planOf ladder order).trades.all
      (fun trade => order.crosses trade.executionPrice) = true := by
    rw [planOf_trades, List.all_map, List.all_eq_true]
    intro fill inside
    exact crosses_of_mem_eligible (aggresses.valid.side known).queue (mem_of_mem_fillQueue inside)
  have disposed : ladder.disposition order =
      if ladder.left order = 0 then .filled else .rest := by
    have market : ¬ OrderType.limit = OrderType.market := by decide
    have ioc : ¬ TimeInForce.gtc = TimeInForce.ioc := by decide
    rw [Ladder.disposition, classifyResidual, limit, gtc, if_neg market, if_neg ioc]
  rw [MatchPlan.validForOrder, aggresses.validShape, initialQuantity, crosses,
    planOf_residualDisposition, planOf_residualQuantity, disposed]
  simp

/-- The residual a projection is given. -/
def projected (ladder : Ladder) (order : NewOrder) : Option ProjectedRestingResidual :=
  if ladder.disposition order = .rest then some ⟨order.limitPrice.getD 0, ladder.left order⟩
  else none

/-- The residual of a plan. -/
theorem projectedResidual (aggresses : Aggresses instrument ladder order replaced sequence) :
    AtlasLob.projectedResidual order (planOf ladder order) = .ok (projected ladder order) := by
  rw [AtlasLob.projectedResidual, planOf_residualDisposition, planOf_residualQuantity, projected]
  by_cases rests : ladder.disposition order = .rest
  · obtain ⟨-, price, -, given, -⟩ := aggresses.rest_terms rests
    simp [rests, given]
  · simp [rests]

/-- The residual a projection is given is the plan's. -/
theorem validRestingResidual (aggresses : Aggresses instrument ladder order replaced sequence) :
    (planOf ladder order).validRestingResidual (projected ladder order) = true := by
  unfold MatchPlan.validRestingResidual
  rw [planOf_residualDisposition, planOf_residualQuantity, projected]
  by_cases rests : ladder.disposition order = .rest
  · obtain ⟨-, price, -, given, positive⟩ := aggresses.rest_terms rests
    simp [rests, given, positive]
  · simp [rests]

/-- The other side after an aggressor. -/
theorem after_opposite (ladder : Ladder) (order : NewOrder) (replaced : Option OrderNodeSpec)
    (sequence : Sequence) :
    (ladder.after order replaced sequence).side order.side.opposite =
      (ladder.struck order replaced).side order.side.opposite := by
  rw [Ladder.after]
  split_ifs
  · exact Ladder.side_opposite_setSide _ order.side _
  · rfl

/-- The own side after an aggressor whose residual rests. -/
theorem after_own_rest (aggresses : Aggresses instrument ladder order replaced sequence)
    (rests : ladder.disposition order = .rest) :
    (ladder.after order replaced sequence).side order.side =
      ((withoutReplaced ladder replaced).side order.side).join order.side
        (ladder.rested order sequence) := by
  rw [Ladder.after, if_pos rests, ← aggresses.struck_own]
  exact Ladder.side_setSide _ order.side _

/-- The own side after an aggressor that does not rest. -/
theorem after_own (aggresses : Aggresses instrument ladder order replaced sequence)
    (gone : ladder.disposition order ≠ .rest) :
    (ladder.after order replaced sequence).side order.side =
      (withoutReplaced ladder replaced).side order.side := by
  rw [Ladder.after, if_neg gone, aggresses.struck_own]

/-- Whether the level of a resting residual fits. -/
theorem overflows_eq (aggresses : Aggresses instrument ladder order replaced sequence)
    (rests : ladder.disposition order = .rest) :
    ladder.overflows order replaced = false ↔
      total (((withoutReplaced ladder replaced).side order.side).queueAt
        (order.limitPrice.getD 0)) + (ladder.left order).toNat < 2 ^ 64 := by
  rw [Ladder.overflows, aggresses.struck_own]
  simp [rests]

end Aggresses

namespace Represents

variable {instrument : InstrumentId} {book : InstrumentBook} {ladder : Ladder}
  {pending : Option Pending} {order : NewOrder} {replaced : Option OrderNodeSpec}
  {old : OrderNodeSpec} {sequence : Sequence} (checks : Bool)

/-- The top of a book is that of its ladder. -/
theorem snapshotTopOfBook (represents : Represents instrument book ladder pending) :
    AtlasLob.snapshotTopOfBook book = ladder.top := by
  have best : ∀ side, (book.bestLevel side).map snapshotLevel =
      Ladder.best (ladder.side side) := by
    intro side
    rw [InstrumentBook.bestLevel, represents.side_eq, describeSide, SortedMap.mapValues,
      List.head?_map, Ladder.best]
    cases (ladder.side side).head? <;> rfl
  rw [AtlasLob.snapshotTopOfBook, best, best]
  rfl

/-- The queues of a side. -/
theorem queues (valid : ladder.Valid instrument) {side : Side}
    (known : side = .buy ∨ side = .sell) :
    ∀ price queue, (price, queue) ∈ ladder.side side → Queue price queue ∧ queue ≠ [] :=
  fun price queue member =>
    ⟨(valid.side known).queue price queue member, (valid.side known).nonempty price queue member⟩

/-- The other side after an aggressor's executions. -/
theorem projectTrades (represents : Represents instrument book ladder pending)
    (aggresses : Aggresses instrument ladder order replaced sequence) :
    projectSideAfterTrades (planOf ladder order).trades (book.levels order.side.opposite) =
      .ok (Ladder.best ((ladder.struck order replaced).side order.side.opposite)) := by
  have known := Side.opposite_known aggresses.wellFormed.side
  rw [represents.visible known, planOf_trades, aggresses.struck_opposite]
  exact projectSideAfterTrades_eq order.crosses order.quantity (queues represents.valid known)

/-- A level of a book is its queue, described. -/
theorem findLevel_of_mem (represents : Represents instrument book ladder pending) (side : Side)
    {price : PriceTicks} (present : price ∈ SortedMap.keys (ladder.side side)) :
    book.findLevel side price = some (describe price ((ladder.side side).queueAt price)) := by
  rw [represents.findLevel]
  cases found : SortedMap.find? price (ladder.side side) with
  | none => exact absurd present (SortedMap.find?_eq_none.mp found)
  | some held =>
    rw [Levels.queueAt, found]
    rfl

/-- A price without a queue has no level in the book. -/
theorem findLevel_of_not_mem (represents : Represents instrument book ladder pending)
    (side : Side) {price : PriceTicks} (absent : price ∉ SortedMap.keys (ladder.side side)) :
    book.findLevel side price = none := by
  rw [represents.findLevel, SortedMap.find?_eq_none.mpr absent]
  rfl

/-- The queue of a price fits, whether it has a level or not. -/
theorem queueAt_fits (valid : ladder.Valid instrument) {side : Side}
    (known : side = .buy ∨ side = .sell) (price : PriceTicks) :
    total ((ladder.side side).queueAt price) < 2 ^ 64 := by
  by_cases present : price ∈ SortedMap.keys (ladder.side side)
  · exact (valid.queueAt known present).1.fits
  · rw [Levels.queueAt_of_not_mem present, total_nil]
    omega

/-- The sum of the level a residual rests on. -/
theorem restedAggregate (represents : Represents instrument book ladder pending) {side : Side}
    (known : side = .buy ∨ side = .sell) (price : PriceTicks) (quantity : Quantity) :
    AtlasLob.restedAggregate (book.findLevel side price) quantity =
      if total ((ladder.side side).queueAt price) + quantity.toNat < 2 ^ 64 then
        .ok (aggregate ((ladder.side side).queueAt price) + quantity)
      else .error .aggregateOverflow := by
  by_cases present : price ∈ SortedMap.keys (ladder.side side)
  · rw [represents.findLevel_of_mem side present, AtlasLob.restedAggregate]
    simp only [describe_aggregateQuantity]
    split_ifs with fits
    · rw [checkedAdd_aggregate fits]
    · rw [checkedAdd_aggregate_overflow (queueAt_fits represents.valid known price) fits]
  · have small := quantity.toNat_lt
    rw [represents.findLevel_of_not_mem side present, AtlasLob.restedAggregate,
      Levels.queueAt_of_not_mem present, aggregate_nil, UInt64.zero_add, total_nil,
      if_pos (by omega)]

/-- The own side of an aggressor once its residual rests. -/
theorem applyRestingResidual (represents : Represents instrument book ladder pending)
    (rested : OrderNodeSpec) (known : rested.side = .buy ∨ rested.side = .sell)
    (joined : total ((ladder.side rested.side).queueAt rested.price) +
        rested.remainingQuantity.toNat < 2 ^ 64 →
      SortedMap.Sorted (bestPriceFirst rested.side)
        ((ladder.side rested.side).join rested.side rested)) :
    AtlasLob.applyRestingResidual book rested.side ⟨rested.price, rested.remainingQuantity⟩
        (Ladder.best (ladder.side rested.side)) =
      if total ((ladder.side rested.side).queueAt rested.price) +
          rested.remainingQuantity.toNat < 2 ^ 64 then
        .ok (Ladder.best ((ladder.side rested.side).join rested.side rested))
      else .error .aggregateOverflow := by
  have sorted := (represents.valid.side known).sorted
  rw [AtlasLob.applyRestingResidual]
  simp only
  rw [represents.restedAggregate known]
  split_ifs with fits
  · rw [Ladder.best_join sorted rested (joined fits), aggregate_singleton_append]
  · rfl

/-- What an order leaves at its price. -/
theorem oldAfter (valid : ladder.Valid instrument) (member : old ∈ ladder.orders) :
    Word.checkedSubtract (aggregate ((ladder.side old.side).queueAt old.price))
        old.remainingQuantity =
      some (aggregate (((ladder.side old.side).queueAt old.price).filterMap
        (reduceBy old.orderId old.remainingQuantity))) := by
  have fits := queueAt_fits valid (valid.sided member) old.price
  have split := valid.total_without member
  have single : aggregate [old] = old.remainingQuantity := by
    rw [aggregate_cons, aggregate_nil, UInt64.add_zero]
  have parts := checkedSubtract_aggregate [old]
    (((ladder.side old.side).queueAt old.price).filterMap
    (reduceBy old.orderId old.remainingQuantity)) fits (by rw [total_cons, total_nil]; omega)
  rwa [single] at parts

/-- The first level a revision leaves, read off the sums a projection computes. -/
theorem firstReplaced (represents : Represents instrument book ladder pending)
    (known : old.side = .buy ∨ old.side = .sell) (changed : Levels)
    (sorted : SortedMap.Sorted (bestPriceFirst old.side) changed)
    (kept : ∀ price, price ∈ SortedMap.keys changed ↔
      price ∈ SortedMap.keys (ladder.side old.side) ∧ aggregate (changed.queueAt price) ≠ 0)
    (target : CancelProjectionTarget) (after : Quantity)
    (residual : Option (PriceTicks × Quantity))
    (sums : ∀ price queue, (price, queue) ∈ ladder.side old.side →
      replacedAggregate target after residual (describe price queue) =
        aggregate (changed.queueAt price)) :
    AtlasLob.firstReplaced book old.side target after residual = Ladder.best changed := by
  have best := Ladder.best_eq_find? (represents.valid.side known).sorted sorted
    (show ∀ price, price ∈ SortedMap.keys changed ↔ price ∈ SortedMap.keys (ladder.side old.side) ∧
      decide (aggregate (changed.queueAt price) ≠ 0) = true by simpa using kept)
  rw [best, AtlasLob.firstReplaced, represents.side_eq, describeSide, SortedMap.mapValues,
    List.find?_map, Option.map_map]
  have same : (ladder.side old.side).find? ((fun entry => decide (replacedAggregate target after
      residual entry.2 ≠ 0)) ∘ fun entry => (entry.1, describe entry.1 entry.2)) =
      (ladder.side old.side).find? fun entry =>
        decide (aggregate (changed.queueAt entry.1) ≠ 0) := by
    refine List.find?_congr fun entry inside => ?_
    simp only [Function.comp_apply, sums entry.1 entry.2 inside]
  rw [same]
  cases found : (ladder.side old.side).find? fun entry =>
      decide (aggregate (changed.queueAt entry.1) ≠ 0) with
  | none => rfl
  | some entry =>
    have inside := List.mem_of_find?_eq_some found
    simp only [Option.map_some, Function.comp_apply, sums entry.1 entry.2 inside, describe_price]

/-- The side of an order without it. -/
theorem removed_side (ladder : Ladder) (old : OrderNodeSpec) :
    (withoutReplaced ladder (some old)).side old.side =
      (ladder.side old.side).revise (reduceBy old.orderId old.remainingQuantity) := by
  rw [withoutReplaced, Ladder.side_revise]

/-- A removal alone. -/
theorem projectSideAfterReplace_none (represents : Represents instrument book ladder pending)
    (member : old ∈ ladder.orders) :
    AtlasLob.projectSideAfterReplace book old.side (makeCancelProjectionTarget old) none =
      .ok (Ladder.best ((withoutReplaced ladder (some old)).side old.side)) := by
  have valid := represents.valid
  have known := valid.sided member
  obtain ⟨-, -, -, present⟩ := valid.queueAt_split member
  have first := represents.firstReplaced known _
    ((valid.side known).revise (reduceBy_shrinks _ _)).sorted (valid.mem_keys_without member)
    (makeCancelProjectionTarget old) _ none fun price queue level =>
      (valid.aggregate_without member level).symm
  rw [AtlasLob.projectSideAfterReplace]
  simp only [makeCancelProjectionTarget] at first ⊢
  rw [represents.findLevel_of_mem old.side present]
  simp only [describe_aggregateQuantity]
  rw [oldAfter valid member, removed_side]
  simp only [first]

/-- The sum at the price of a residual once the replaced order has left. -/
theorem replacedBefore (represents : Represents instrument book ladder pending)
    (member : old ∈ ladder.orders) (price : PriceTicks) :
    AtlasLob.replacedBefore book old.side (makeCancelProjectionTarget old)
        (aggregate (((ladder.side old.side).queueAt old.price).filterMap
          (reduceBy old.orderId old.remainingQuantity))) price =
      aggregate (((ladder.side old.side).revise
        (reduceBy old.orderId old.remainingQuantity)).queueAt price) := by
  rw [AtlasLob.replacedBefore, represents.valid.queueAt_without member, makeCancelProjectionTarget]
  simp only
  split_ifs with same
  · rw [same]
  · by_cases present : price ∈ SortedMap.keys (ladder.side old.side)
    · rw [represents.findLevel_of_mem old.side present, Option.map_some, Option.getD_some,
        describe_aggregateQuantity]
    · rw [represents.findLevel_of_not_mem old.side present, Levels.queueAt_of_not_mem present]
      rfl

/-- The sums a replacement projects when its residual joins a level. -/
theorem replacedAggregate_joined (valid : ladder.Valid instrument) (member : old ∈ ladder.orders)
    (rested : OrderNodeSpec) {price : PriceTicks} {queue : List OrderNodeSpec}
    (level : (price, queue) ∈ ladder.side old.side) :
    replacedAggregate (makeCancelProjectionTarget old)
        (aggregate (((ladder.side old.side).queueAt old.price).filterMap
          (reduceBy old.orderId old.remainingQuantity)))
        (some (rested.price, aggregate (((ladder.side old.side).revise
          (reduceBy old.orderId old.remainingQuantity)).queueAt rested.price ++ [rested])))
        (describe price queue) =
      aggregate ((((ladder.side old.side).revise
        (reduceBy old.orderId old.remainingQuantity)).join old.side rested).queueAt price) := by
  rw [replacedAggregate, makeCancelProjectionTarget, describe_price]
  simp only
  by_cases here : price = rested.price
  · rw [if_pos here, here, Levels.queueAt_join_same]
  · rw [if_neg here, Levels.queueAt_join_other here, valid.aggregate_without member level]
    rfl

/-- The prices of a side without an order and with a residual at one of its levels. -/
theorem mem_keys_joined (valid : ladder.Valid instrument) (member : old ∈ ladder.orders)
    {rested : OrderNodeSpec} (present : rested.price ∈ SortedMap.keys (ladder.side old.side))
    (sum : aggregate (((ladder.side old.side).revise
      (reduceBy old.orderId old.remainingQuantity)).queueAt rested.price ++ [rested]) ≠ 0)
    (price : PriceTicks) :
    price ∈ SortedMap.keys (((ladder.side old.side).revise
        (reduceBy old.orderId old.remainingQuantity)).join old.side rested) ↔
      price ∈ SortedMap.keys (ladder.side old.side) ∧
        aggregate ((((ladder.side old.side).revise
          (reduceBy old.orderId old.remainingQuantity)).join old.side rested).queueAt price) ≠
            0 := by
  rw [Levels.mem_keys_join]
  by_cases here : price = rested.price
  · subst here
    rw [Levels.queueAt_join_same]
    exact ⟨fun _ => ⟨present, sum⟩, fun _ => Or.inl rfl⟩
  · rw [Levels.queueAt_join_other here, ← valid.mem_keys_without member]
    simp [here]

/-- A residual that opens a level against the first level left. -/
theorem openedLevel {side : Side} {levels : Levels}
    (sorted : SortedMap.Sorted (bestPriceFirst side) levels) {rested : TopOfBookLevel}
    (missing : book.findLevel side rested.price = none)
    (absent : rested.price ∉ SortedMap.keys levels) :
    AtlasLob.openedLevel book side rested (Ladder.best levels) =
      some (preferLevel side rested (Ladder.best levels)) := by
  rw [AtlasLob.openedLevel, missing]
  cases found : Ladder.best levels with
  | none => rfl
  | some current =>
    have apart : rested.price ≠ current.price := by
      intro same
      rw [same] at absent
      exact absent (Ladder.best_price sorted found).1
    simp only [Option.isNone_none, Option.all_some, Bool.true_and, preferLevel, apart, decide_false,
      Bool.or_false]
    split_ifs <;> rfl

/-- A removal with a residual. -/
theorem projectSideAfterReplace_rest (represents : Represents instrument book ladder pending)
    (member : old ∈ ladder.orders) (rested : OrderNodeSpec)
    (unfilled : rested.remainingQuantity ≠ 0)
    (joined : total (((withoutReplaced ladder (some old)).side old.side).queueAt rested.price) +
        rested.remainingQuantity.toNat < 2 ^ 64 →
      SortedMap.Sorted (bestPriceFirst old.side)
        (((withoutReplaced ladder (some old)).side old.side).join old.side rested)) :
    AtlasLob.projectSideAfterReplace book old.side (makeCancelProjectionTarget old)
        (some ⟨rested.price, rested.remainingQuantity⟩) =
      if total (((withoutReplaced ladder (some old)).side old.side).queueAt rested.price) +
          rested.remainingQuantity.toNat < 2 ^ 64 then
        .ok (Ladder.best
          (((withoutReplaced ladder (some old)).side old.side).join old.side rested))
      else .error .aggregateOverflow := by
  have valid := represents.valid
  have known := valid.sided member
  have removed : (withoutReplaced ladder (some old)).Valid instrument :=
    valid.revise (reduceBy_shrinks _ _)
  have bound := queueAt_fits removed known rested.price
  have sorted := (removed.side known).sorted
  obtain ⟨-, -, -, opened⟩ := valid.queueAt_split member
  rw [removed_side] at joined bound sorted ⊢
  rw [AtlasLob.projectSideAfterReplace]
  simp only
  rw [show (makeCancelProjectionTarget old).price = old.price from rfl,
    show (makeCancelProjectionTarget old).remainingQuantity = old.remainingQuantity from rfl,
    represents.findLevel_of_mem old.side opened]
  simp only [describe_aggregateQuantity]
  rw [oldAfter valid member]
  simp only
  rw [represents.replacedBefore member]
  split_ifs with fits
  · have positive := Word.toNat_pos unfilled
    have sum : aggregate (((ladder.side old.side).revise
        (reduceBy old.orderId old.remainingQuantity)).queueAt rested.price ++ [rested]) ≠ 0 := by
      rw [ne_eq, Word.eq_zero_iff, aggregate_toNat] <;>
        rw [total_append, total_cons, total_nil] <;> omega
    rw [checkedAdd_aggregate fits, ← aggregate_singleton_append]
    simp only
    by_cases present : rested.price ∈ SortedMap.keys (ladder.side old.side)
    · rw [represents.firstReplaced known _ (joined fits) (mem_keys_joined valid member present sum)
        _ _ _ fun price queue level => replacedAggregate_joined valid member rested level,
        AtlasLob.openedLevel, represents.findLevel_of_mem old.side present]
      rfl
    · have first := represents.firstReplaced known _ sorted (valid.mem_keys_without member)
        (makeCancelProjectionTarget old) _ (some (rested.price, _)) fun price queue level => by
          have apart : price ≠ rested.price := by
            rintro rfl
            exact present (SortedMap.mem_keys level)
          rw [replacedAggregate_joined valid member rested level,
            Levels.queueAt_join_other apart]
      rw [first, openedLevel sorted (represents.findLevel_of_not_mem old.side present)
        (fun inside => present ((Levels.keys_revise_sublist _ _).subset inside)),
        Ladder.best_join sorted rested (joined fits)]
  · rw [checkedAdd_aggregate_overflow bound fits]

end Represents

end AtlasLob
