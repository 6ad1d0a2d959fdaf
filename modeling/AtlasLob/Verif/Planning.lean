import AtlasLob.Spec.Aggressor
import AtlasLob.Verif.BookBatch

/-!
# Plans describe the aggressor

The plan of an admitted order lists exactly the executions of the ladder its book represents, the
projected number of orders is the number after the aggressor, and the plan binds to the book.
-/

namespace AtlasLob

open PriceLevel

/-- The planned form of an execution. -/
def plannedOf (fill : Fill) : PlannedTrade where
  restingOrderId := fill.order.orderId
  restingClientId := fill.order.clientId
  executionPrice := fill.order.price
  executionQuantity := fill.executed
  aggressorRemaining := fill.aggressorRemaining
  restingRemainingBefore := fill.order.remainingQuantity
  restingRemainingAfter := fill.order.remainingQuantity - fill.executed
  expectedRestingPriority := fill.order.prioritySequence

/-- The plan of an aggressor. -/
def planOf (ladder : Ladder) (order : NewOrder) : MatchPlan :=
  ⟨(ladder.fills order).map plannedOf, ladder.left order, ladder.disposition order⟩

theorem planOf_trades (ladder : Ladder) (order : NewOrder) :
    (planOf ladder order).trades = (ladder.fills order).map plannedOf := by
  rw [planOf]

theorem planOf_residualQuantity (ladder : Ladder) (order : NewOrder) :
    (planOf ladder order).residualQuantity = ladder.left order := by
  rw [planOf]

theorem planOf_residualDisposition (ladder : Ladder) (order : NewOrder) :
    (planOf ladder order).residualDisposition = ladder.disposition order := by
  rw [planOf]

/-- A side as an iteration sees it. -/
def visibleLevels (levels : Levels) : List (PriceLevel × List OrderNodeSpec) :=
  levels.map fun entry => (describe entry.1 entry.2, entry.2)

namespace MatchPlan

/-- Counting a level counts its executions. -/
theorem countLevel_eq (quantity : Quantity) {count : Nat} {queue : List OrderNodeSpec}
    (bound : count + queue.length < 2 ^ 64) :
    countLevel quantity count queue =
      .ok (residual quantity queue, count + (fillQueue quantity queue).length) := by
  induction queue generalizing quantity count with
  | nil => rfl
  | cons order rest ih =>
    rw [List.length_cons] at bound
    by_cases zero : quantity = 0
    · subst zero
      simp [countLevel, fillQueue]
    · rw [countLevel, if_neg zero, Word.atMax64_of_lt (by omega)]
      simp only [Bool.false_eq_true, ↓reduceIte]
      rw [ih _ (by omega), residual, fillQueue, if_neg zero, List.length_cons]
      congr 2
      omega

/-- Counting a side counts the executions of the reachable orders. -/
theorem countTrades_eq (order : NewOrder) (quantity : Quantity) {count : Nat} {levels : Levels}
    (bound : count + levels.orders.length < 2 ^ 64) :
    countTrades order quantity count (visibleLevels levels) =
      .ok (count + (fillQueue quantity (eligible order.crosses levels)).length) := by
  induction levels generalizing quantity count with
  | nil => rfl
  | cons entry rest ih =>
    obtain ⟨price, queue⟩ := entry
    simp only [Levels.orders_cons, List.length_append] at bound
    rw [visibleLevels, List.map_cons, countTrades, describe_price]
    cases reached : order.crosses price with
    | false => simp [eligible_cons_of_not_crosses reached, fillQueue]
    | true =>
      have counted := countLevel_eq quantity (show count + queue.length < 2 ^ 64 by omega)
      have fewer : (fillQueue quantity queue).length ≤ queue.length := by
        obtain ⟨later, split⟩ := fillQueue_prefix quantity queue
        have := congrArg List.length split
        rw [List.length_append, List.length_map] at this
        omega
      simp only [Bool.not_true, Bool.false_eq_true, ↓reduceIte, counted, Run.ok_bind]
      rw [eligible_cons_of_crosses reached, fillQueue_append, List.length_append]
      by_cases spent : residual quantity queue = 0
      · simp [spent]
      · rw [if_neg spent]
        have later := ih (residual quantity queue)
          (show count + (fillQueue quantity queue).length + (Levels.orders rest).length < 2 ^ 64 by
            omega)
        rw [visibleLevels] at later
        rw [later]
        congr 1
        omega

/-- Populating a level lists its executions. -/
theorem populateLevel_eq (quantity : Quantity) (trades : List PlannedTrade)
    (queue : List OrderNodeSpec) :
    populateLevel quantity trades queue =
      (residual quantity queue, trades ++ (fillQueue quantity queue).map plannedOf) := by
  induction queue generalizing quantity trades with
  | nil => simp [populateLevel, residual, fillQueue]
  | cons order rest ih =>
    by_cases zero : quantity = 0
    · subst zero
      simp [populateLevel]
    · rw [populateLevel, if_neg zero, ih, residual, fillQueue, if_neg zero, List.map_cons,
        List.append_assoc]
      rfl

/-- Populating a side lists the executions of the reachable orders. -/
theorem populateTrades_eq (order : NewOrder) (quantity : Quantity) (trades : List PlannedTrade)
    (levels : Levels) :
    populateTrades order quantity trades (visibleLevels levels) =
      (residual quantity (eligible order.crosses levels),
        trades ++ (fillQueue quantity (eligible order.crosses levels)).map plannedOf) := by
  induction levels generalizing quantity trades with
  | nil => simp [visibleLevels, populateTrades, eligible, Levels.orders, residual, fillQueue]
  | cons entry rest ih =>
    obtain ⟨price, queue⟩ := entry
    rw [visibleLevels, List.map_cons, populateTrades, describe_price]
    cases reached : order.crosses price with
    | false => simp [eligible_cons_of_not_crosses reached, fillQueue, residual]
    | true =>
      simp only [Bool.not_true, Bool.false_eq_true, ↓reduceIte, populateLevel_eq]
      rw [eligible_cons_of_crosses reached, fillQueue_append, residual_append, List.map_append]
      by_cases spent : residual quantity queue = 0
      · simp [spent]
      · rw [if_neg spent]
        have later := ih (residual quantity queue)
          (trades ++ (fillQueue quantity queue).map plannedOf)
        rw [visibleLevels] at later
        rw [later, List.append_assoc]

end MatchPlan

/-- Counting the filled orders of sound executions counts the exhausted ones. -/
theorem countFilled_eq {fills : List Fill} (sound : ∀ fill ∈ fills, fill.Sound) (filled : Nat)
    (bound : filled + (exhausted fills).length < 2 ^ 64) :
    countFilled filled (fills.map plannedOf) = .ok (filled + (exhausted fills).length) := by
  induction fills generalizing filled with
  | nil => rfl
  | cons fill rest ih =>
    have first := sound fill (by simp)
    have tail := ih fun other inside => sound other (by simp [inside])
    have left := Word.toNat_sub_of_toNat_le first.bounded
    have within : ¬ fill.order.remainingQuantity < fill.executed := by
      rw [UInt64.lt_iff_toNat_lt]
      have := first.bounded
      omega
    have checks : (decide ((plannedOf fill).executionQuantity = 0) ||
        decide ((plannedOf fill).restingRemainingBefore < (plannedOf fill).executionQuantity) ||
        decide ((plannedOf fill).restingRemainingAfter ≠
          (plannedOf fill).restingRemainingBefore - (plannedOf fill).executionQuantity)) =
        false := by
      simp [plannedOf, first.positive, within]
    rw [List.map_cons, countFilled, checks]
    simp only [Bool.false_eq_true, ↓reduceIte]
    by_cases full : fill.executed = fill.order.remainingQuantity
    · have zero : (plannedOf fill).restingRemainingAfter = 0 := by
        rw [plannedOf, Word.eq_zero_iff, left, full, Nat.sub_self]
      have more : (exhausted (fill :: rest)).length = (exhausted rest).length + 1 := by
        rw [exhausted, List.filter_cons_of_pos (by simpa using full), List.length_cons, exhausted]
      rw [more] at bound ⊢
      rw [if_pos zero, Word.atMax64_of_lt (by omega)]
      simp only [Bool.false_eq_true, ↓reduceIte]
      rw [tail (filled + 1) (by omega)]
      congr 1
      omega
    · have nonzero : (plannedOf fill).restingRemainingAfter ≠ 0 := by
        intro zero
        rw [plannedOf, Word.eq_zero_iff, left] at zero
        have := first.bounded
        exact full (Word.eq_of_toNat (by omega))
      have same : (exhausted (fill :: rest)).length = (exhausted rest).length := by
        rw [exhausted, List.filter_cons_of_neg (by simpa using full), exhausted]
      rw [same] at bound ⊢
      rw [if_neg nonzero, tail filled bound]

namespace Represents

variable {instrument : InstrumentId} {book : InstrumentBook} {ladder : Ladder}
  {pending : Option Pending} {order : NewOrder} {replaced : Option OrderNodeSpec}
  {sequence : Sequence} (checks : Bool)

/-- The iteration over a side of a book. -/
theorem visible (represents : Represents instrument book ladder pending) {side : Side}
    (known : side = .buy ∨ side = .sell) :
    book.levels side = visibleLevels (ladder.side side) :=
  represents.levels known

/-- A book has fewer orders than there are words. -/
theorem orders_length_lt (represents : Represents instrument book ladder pending) :
    ladder.orders.length < 2 ^ 64 := by
  have bound := represents.length_lt
  rw [storedOrders, List.length_append] at bound
  omega

/-- An absent order is not found. -/
theorem find_fresh (represents : Represents instrument book ladder pending) {orderId : OrderId}
    (fresh : orderId ∉ ids ladder.orders) : book.find orderId = none := by
  rw [represents.find]
  cases found : ladder.find orderId with
  | none => rfl
  | some resting =>
    obtain ⟨member, same⟩ := represents.valid.find_eq_some_iff.mp found
    exact absurd (List.mem_map.mpr ⟨resting, member, same⟩) fresh

/-- The plan of an admitted order. -/
theorem planMatches (represents : Represents instrument book ladder none)
    (meets : Meets instrument ladder order) :
    AtlasLob.planMatches checks order book = .ok (.ok (planOf ladder order)) := by
  have accepted : order.validate = .none := NewOrder.validate_eq_none_iff.mpr meets.wellFormed
  have known := Side.opposite_known meets.wellFormed.side
  have routed : order.instrumentId = book.instrumentId :=
    meets.routed.trans represents.routed.symm
  have fewer : 0 + (Levels.orders (ladder.side order.side.opposite)).length < 2 ^ 64 := by
    have lengths := (ladder.orders_perm order.side).length_eq
    have bound := represents.orders_length_lt
    rw [List.length_append] at lengths
    omega
  have populated := MatchPlan.populateTrades_eq order order.quantity []
    (ladder.side order.side.opposite)
  have counted := MatchPlan.countTrades_eq order order.quantity fewer
  rw [AtlasLob.planMatches, planOf]
  simp only [accepted, routed, represents.checkedInvariants checks (by simp),
    represents.find_fresh meets.fresh, represents.visible known, counted, populated,
    Run.ok_bind, ne_eq, not_true_eq_false, ↓reduceIte, Bool.not_true, Bool.false_eq_true,
    Option.isSome_none, List.nil_append, Nat.zero_add, List.length_map, Run.pure_eq]
  rfl

/-- The plan agrees with its own residual. -/
theorem residualAgrees (ladder : Ladder) (order : NewOrder) :
    (planOf ladder order).residualAgrees = true := by
  by_cases zero : ladder.left order = 0
  · have filled : ladder.disposition order = .filled := by
      rw [Ladder.disposition, classifyResidual, if_pos zero]
    simp [MatchPlan.residualAgrees, planOf, filled, zero]
  · rw [MatchPlan.residualAgrees, planOf]
    simp only
    split
    · next filled =>
      rw [Ladder.disposition, classifyResidual, if_neg zero] at filled
      split_ifs at filled
    all_goals simp [zero]

/-- The projected number of orders is the number after the aggressor. -/
theorem projectActiveOrderCount (aggresses : Aggresses instrument ladder order replaced sequence)
    {current : Nat} (bound : current < 2 ^ 64 - 1) (covers : ladder.orders.length ≤ current) :
    AtlasLob.projectActiveOrderCount (planOf ladder order) current replaced.isSome =
      .ok (current - ladder.orders.length +
        (ladder.after order replaced sequence).orders.length) := by
  have lengths := aggresses.after_length
  have leaving := aggresses.leaving_le
  have filled := countFilled_eq aggresses.executable.sound 0 (by omega)
  have removed : (if replaced.isSome then 0 + (exhausted (ladder.fills order)).length + 1
      else 0 + (exhausted (ladder.fills order)).length) =
        (exhausted (ladder.fills order)).length + replaced.toList.length := by
    cases replaced <;> simp
  have counts : (replaced.isSome &&
      Word.atMax64 (0 + (exhausted (ladder.fills order)).length)) = false := by
    rw [Word.atMax64_of_lt (by omega), Bool.and_false]
  rw [AtlasLob.projectActiveOrderCount, residualAgrees, planOf_trades, filled,
    planOf_residualDisposition]
  simp only [Bool.not_true, Bool.false_eq_true, ↓reduceIte, bind, Except.bind, counts, removed]
  rw [if_neg (by omega)]
  by_cases rests : ladder.disposition order = .rest
  · rw [if_pos rests] at lengths ⊢
    rw [Word.atMax64_of_lt (by omega)]
    simp only [Bool.false_eq_true, ↓reduceIte, pure, Except.pure, Except.ok.injEq]
    omega
  · rw [if_neg rests] at lengths ⊢
    simp only [pure, Except.pure, Except.ok.injEq]
    omega

/-- Binding a level binds its executions. -/
theorem bindLevel (represents : Represents instrument book ladder pending)
    {queue : List OrderNodeSpec} (inside : ∀ resting ∈ queue, resting ∈ ladder.orders)
    (quantity : Quantity) (later : List PlannedTrade) (bound : List PrevalidatedBookReduction) :
    AtlasLob.bindLevel book ⟨quantity, (fillQueue quantity queue).map plannedOf ++ later, bound⟩
        queue =
      .ok ⟨residual quantity queue, later, bound ++ reductionsOf (fillQueue quantity queue)⟩ := by
  induction queue generalizing quantity bound with
  | nil => simp [AtlasLob.bindLevel, fillQueue, residual, reductionsOf]
  | cons resting rest ih =>
    by_cases zero : quantity = 0
    · subst zero
      simp [AtlasLob.bindLevel, reductionsOf]
    · have found := represents.findNode_of_mem (inside resting (by simp))
      have matched :
          (decide (book.findNode (MatchPlan.plannedTrade quantity resting).restingOrderId ≠
          some resting.orderId) || !plannedTradeMatches (MatchPlan.plannedTrade quantity resting)
            resting quantity) = false := by
        simp [MatchPlan.plannedTrade, found, plannedTradeMatches]
      have tail := ih (fun other member => inside other (by simp [member]))
        (quantity - min quantity resting.remainingQuantity)
        (bound ++ [boundReduction (MatchPlan.plannedTrade quantity resting) resting])
      have head : plannedOf ⟨resting, min quantity resting.remainingQuantity,
          quantity - min quantity resting.remainingQuantity⟩ =
            MatchPlan.plannedTrade quantity resting := rfl
      rw [fillQueue, if_neg zero, List.map_cons, List.cons_append, head, AtlasLob.bindLevel,
        if_neg zero]
      simp only [matched, Bool.false_eq_true, ↓reduceIte]
      rw [show (MatchPlan.plannedTrade quantity resting).aggressorRemaining =
        quantity - min quantity resting.remainingQuantity from rfl, tail]
      rw [residual, reductionsOf, reductionsOf, List.map_cons, List.append_assoc]
      rfl

/-- Binding a side binds the executions of the reachable orders. -/
theorem bindLevels (represents : Represents instrument book ladder pending) (order : NewOrder)
    {levels : Levels} (inside : ∀ resting ∈ levels.orders, resting ∈ ladder.orders)
    (quantity : Quantity) (bound : List PrevalidatedBookReduction) :
    AtlasLob.bindLevels book order ⟨quantity,
        (fillQueue quantity (eligible order.crosses levels)).map plannedOf, bound⟩
        (visibleLevels levels) =
      .ok ⟨residual quantity (eligible order.crosses levels), [],
        bound ++ reductionsOf (fillQueue quantity (eligible order.crosses levels))⟩ := by
  induction levels generalizing quantity bound with
  | nil =>
    simp [AtlasLob.bindLevels, visibleLevels, eligible, Levels.orders, fillQueue, residual,
      reductionsOf]
  | cons entry rest ih =>
    obtain ⟨price, queue⟩ := entry
    rw [visibleLevels, List.map_cons, AtlasLob.bindLevels, describe_price]
    cases reached : order.crosses price with
    | false =>
      simp [eligible_cons_of_not_crosses reached, fillQueue, residual, reductionsOf]
    | true =>
      by_cases zero : quantity = 0
      · subst zero
        simp [reductionsOf]
      · have first := represents.bindLevel
          (fun resting member => inside resting (List.mem_append_left _ member)) quantity
          ((fillQueue (residual quantity queue) (eligible order.crosses rest)).map plannedOf) bound
        have tail := ih (fun resting member => inside resting (List.mem_append_right _ member))
          (residual quantity queue) (bound ++ reductionsOf (fillQueue quantity queue))
        rw [eligible_cons_of_crosses reached, fillQueue_append, List.map_append, residual_append]
        simp only [Bool.not_true, zero, decide_false, Bool.or_false, Bool.false_eq_true,
          ↓reduceIte, first]
        rw [visibleLevels] at tail
        rw [tail, reductionsOf, reductionsOf, reductionsOf, List.map_append, List.append_assoc]

/-- The plan of an admitted order binds to its book. -/
theorem bindMatchPlan (represents : Represents instrument book ladder pending)
    (meets : Meets instrument ladder order) :
    AtlasLob.bindMatchPlan order (planOf ladder order) book =
      .ok (reductionsOf (ladder.fills order)) := by
  have validSide : order.side.isValid = true := by
    simpa [Side.isValid] using meets.wellFormed.side
  have known := Side.opposite_known meets.wellFormed.side
  have bound := represents.bindLevels order (fun resting member =>
    (ladder.orders_perm order.side).mem_iff.mpr (List.mem_append_right _ member)) order.quantity []
  rw [AtlasLob.bindMatchPlan, validSide]
  simp only [Bool.not_true, meets.wellFormed.quantity, decide_false, Bool.or_self,
    Bool.false_eq_true, ↓reduceIte]
  rw [bindSide, represents.visible known, planOf_trades]
  simp only [Ladder.fills, Ladder.reach, bound, planOf, Ladder.left, Ladder.disposition,
    List.isEmpty_nil, Bool.not_true, Bool.false_eq_true, ↓reduceIte, ne_eq, not_true_eq_false,
    List.nil_append]

end Represents

end AtlasLob
