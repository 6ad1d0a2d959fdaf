import AtlasLob.Spec.Ladder

/-!
# Price-time matching

An aggressor fills resting orders in matching order until its quantity or the reachable levels
run out. The fills, the quantity left over and the orders left behind are three readings of the
same recursion; applying the fills one by one to a side leaves exactly the swept side.
-/

namespace AtlasLob

open PriceLevel

/-- One execution against a resting order. -/
structure Fill where
  order : OrderNodeSpec
  executed : Quantity
  /-- What the aggressor has left after it. -/
  aggressorRemaining : Quantity
  deriving DecidableEq

/-- The execution that takes all of the order a replacement removes. -/
def removalOf (old : OrderNodeSpec) : Fill := ⟨old, old.remainingQuantity, 0⟩

/-- Take a quantity from the order of an ID; an order with nothing left is gone. -/
def reduceBy (orderId : OrderId) (quantity : Quantity) (order : OrderNodeSpec) :
    Option OrderNodeSpec :=
  if order.orderId = orderId then
    if order.remainingQuantity ≤ quantity then none
    else some (order.withRemaining (order.remainingQuantity - quantity))
  else some order

/-- The executions of a quantity against orders, first come first served. -/
def fillQueue (quantity : Quantity) : List OrderNodeSpec → List Fill
  | [] => []
  | order :: rest =>
    if quantity = 0 then []
    else ⟨order, min quantity order.remainingQuantity,
      quantity - min quantity order.remainingQuantity⟩ ::
        fillQueue (quantity - min quantity order.remainingQuantity) rest

/-- What is left of the quantity. -/
def residual (quantity : Quantity) : List OrderNodeSpec → Quantity
  | [] => quantity
  | order :: rest => residual (quantity - min quantity order.remainingQuantity) rest

/-- What is left of the orders. -/
def leftover (quantity : Quantity) : List OrderNodeSpec → List OrderNodeSpec
  | [] => []
  | order :: rest =>
    if quantity = 0 then order :: rest
    else if quantity < order.remainingQuantity then
      order.withRemaining (order.remainingQuantity - quantity) :: rest
    else leftover (quantity - order.remainingQuantity) rest

/-- The orders an aggressor can reach. -/
def eligible (crosses : PriceTicks → Bool) (levels : Levels) : List OrderNodeSpec :=
  Levels.orders (levels.takeWhile fun entry => crosses entry.1)

/-- What is left of a side. -/
def sweep (crosses : PriceTicks → Bool) (quantity : Quantity) : Levels → Levels
  | [] => []
  | (price, queue) :: rest =>
    if crosses price then
      if leftover quantity queue = [] then sweep crosses (residual quantity queue) rest
      else (price, leftover quantity queue) :: rest
    else (price, queue) :: rest

/-- The effect of executions on every order. -/
def settle : List Fill → OrderNodeSpec → Option OrderNodeSpec
  | [], order => some order
  | fill :: rest, order => (reduceBy fill.order.orderId fill.executed order).bind (settle rest)

/-- Taking a quantity shrinks orders. -/
theorem reduceBy_shrinks (orderId : OrderId) (quantity : Quantity) :
    Shrinks (reduceBy orderId quantity) := by
  intro order image kept
  rw [reduceBy] at kept
  split_ifs at kept with same exhausted
  · rw [Option.some.injEq] at kept
    rw [UInt64.le_iff_toNat_le, Nat.not_le] at exhausted
    have left := Word.toNat_sub_of_toNat_le (Nat.le_of_lt exhausted)
    refine ⟨_, kept.symm, fun _ zero => ?_, by omega⟩
    rw [Word.eq_zero_iff, left] at zero
    omega
  · rw [Option.some.injEq] at kept
    exact ⟨order.remainingQuantity, kept.symm, id, le_refl _⟩

/-- Other orders keep what they have. -/
theorem reduceBy_of_ne {orderId : OrderId} {quantity : Quantity} {order : OrderNodeSpec}
    (apart : order.orderId ≠ orderId) : reduceBy orderId quantity order = some order := by
  rw [reduceBy, if_neg apart]

/-- Taking a quantity from one order of a queue with distinct IDs. -/
theorem filterMap_reduceBy {before behind : List OrderNodeSpec} {order : OrderNodeSpec}
    (distinct : (ids (before ++ order :: behind)).Nodup) (quantity : Quantity) :
    (before ++ order :: behind).filterMap (reduceBy order.orderId quantity) =
      before ++ (reduceBy order.orderId quantity order).toList ++ behind := by
  simp only [ids, List.map_append, List.map_cons, List.nodup_append, List.nodup_cons,
    List.mem_map, List.mem_cons] at distinct
  have keep : ∀ orders : List OrderNodeSpec, (∀ other ∈ orders, other.orderId ≠ order.orderId) →
      orders.filterMap (reduceBy order.orderId quantity) = orders := by
    intro orders apart
    rw [List.filterMap_congr fun other inside => reduceBy_of_ne (apart other inside),
      List.filterMap_some]
  have keptBefore := keep before (by grind)
  have keptBehind := keep behind (by grind)
  rw [List.filterMap_append, keptBefore, List.filterMap_cons]
  cases reduceBy order.orderId quantity order <;> simp [keptBehind]

/-- Taking a quantity from one resting order changes its level alone. -/
theorem Ladder.Valid.reduceBy_at {instrument : InstrumentId} {ladder : Ladder}
    {order : OrderNodeSpec} (valid : ladder.Valid instrument) (member : order ∈ ladder.orders)
    {front back : Levels} {before behind : List OrderNodeSpec}
    (located : ladder.side order.side =
      front ++ (order.price, before ++ order :: behind) :: back) (quantity : Quantity) :
    ladder.revise (reduceBy order.orderId quantity) = ladder.setSide order.side (front ++
      Levels.entry order.price
          (before ++ (reduceBy order.orderId quantity order).toList ++ behind) ++
        back) := by
  have distinct : (ids (before ++ order :: behind)).Nodup := by
    have all := (Ladder.ids_perm (ladder.orders_perm order.side)).nodup_iff.mp valid.distinct
    rw [located, Levels.orders_append, Levels.orders_cons] at all
    simp only [ids, List.map_append, List.nodup_append] at all ⊢
    exact all.1.2.1.1
  have fixed : ∀ other : OrderNodeSpec, other.orderId ≠ order.orderId →
      reduceBy order.orderId quantity other = some other := fun other apart => reduceBy_of_ne apart
  rw [valid.revise_at member fixed located, Levels.reviseEntry_toList,
    filterMap_reduceBy distinct]

/-- Executions shrink orders. -/
theorem settle_shrinks (fills : List Fill) : Shrinks (settle fills) := by
  induction fills with
  | nil =>
    intro order image kept
    rw [settle, Option.some.injEq] at kept
    exact ⟨order.remainingQuantity, kept.symm, id, le_refl _⟩
  | cons fill rest ih =>
    intro order image kept
    rw [settle, Option.bind_eq_some_iff] at kept
    obtain ⟨middle, first, second⟩ := kept
    obtain ⟨reduced, rfl, positive, smaller⟩ := reduceBy_shrinks _ _ order middle first
    obtain ⟨final, rfl, stillPositive, below⟩ := ih _ image second
    rw [OrderNodeSpec.withRemaining_remainingQuantity] at stillPositive below
    exact ⟨final, rfl, fun nonzero => stillPositive (positive nonzero), by omega⟩

/-- Orders without an execution keep what they have. -/
theorem settle_of_not_mem {fills : List Fill} {order : OrderNodeSpec}
    (outside : ∀ fill ∈ fills, order.orderId ≠ fill.order.orderId) :
    settle fills order = some order := by
  induction fills with
  | nil => rfl
  | cons fill rest ih =>
    rw [settle, reduceBy_of_ne (outside fill (by simp)), Option.bind_some]
    exact ih fun other member => outside other (by simp [member])

/-- Executions against different orders: each order meets at most one. -/
theorem settle_eq {fills : List Fill} (distinct : (ids (fills.map Fill.order)).Nodup)
    (order : OrderNodeSpec) :
    settle fills order = match fills.find? fun fill => fill.order.orderId = order.orderId with
      | none => some order
      | some fill => reduceBy order.orderId fill.executed order := by
  induction fills with
  | nil => rfl
  | cons fill rest ih =>
    rw [List.map_cons, ids, List.map_cons, List.nodup_cons] at distinct
    by_cases own : fill.order.orderId = order.orderId
    · rw [List.find?_cons_of_pos (by simpa using own), settle, own]
      show _ = reduceBy order.orderId fill.executed order
      cases kept : reduceBy order.orderId fill.executed order with
      | none => rfl
      | some image =>
        have same := (reduceBy_shrinks _ _).orderId_eq kept
        refine settle_of_not_mem fun other inside => ?_
        rw [same, ← own]
        intro equal
        exact distinct.1 (equal ▸ List.mem_map.mpr
          ⟨other.order, List.mem_map.mpr ⟨other, inside, rfl⟩, rfl⟩)
    · rw [List.find?_cons_of_neg (by simpa using own), settle, reduceBy_of_ne (Ne.symm own),
        Option.bind_some, ih distinct.2]

/-- Executions in two parts act one after the other. -/
theorem settle_append (front back : List Fill) (order : OrderNodeSpec) :
    settle (front ++ back) order = (settle front order).bind (settle back) := by
  induction front generalizing order with
  | nil => rfl
  | cons fill rest ih =>
    rw [List.cons_append, settle, settle, Option.bind_assoc]
    congr 1
    funext image
    exact ih image

@[simp] theorem fillQueue_zero (orders : List OrderNodeSpec) : fillQueue 0 orders = [] := by
  cases orders <;> simp [fillQueue]

/-- What is left of the quantity, exactly. -/
theorem residual_toNat (quantity : Quantity) (orders : List OrderNodeSpec) :
    (residual quantity orders).toNat = quantity.toNat - total orders := by
  induction orders generalizing quantity with
  | nil => simp [residual]
  | cons order rest ih =>
    rw [residual, ih, Word.toNat_sub_min, total_cons]
    omega

@[simp] theorem residual_zero (orders : List OrderNodeSpec) : residual 0 orders = 0 := by
  rw [Word.eq_zero_iff, residual_toNat]
  simp

/-- Filling a concatenation fills the second part with what the first one left. -/
theorem fillQueue_append (quantity : Quantity) (front back : List OrderNodeSpec) :
    fillQueue quantity (front ++ back) =
      fillQueue quantity front ++ fillQueue (residual quantity front) back := by
  induction front generalizing quantity with
  | nil => rfl
  | cons order rest ih =>
    rw [List.cons_append, fillQueue, fillQueue, residual]
    by_cases zero : quantity = 0
    · subst zero
      have none : (0 : Quantity) - min 0 order.remainingQuantity = 0 := by
        rw [Word.eq_zero_iff, Word.toNat_sub_min]
        simp
      simp [none]
    · simp only [zero, ↓reduceIte, ih, List.cons_append]

/-- The residual of a concatenation. -/
theorem residual_append (quantity : Quantity) (front back : List OrderNodeSpec) :
    residual quantity (front ++ back) = residual (residual quantity front) back := by
  induction front generalizing quantity with
  | nil => rfl
  | cons order rest ih => rw [List.cons_append, residual, residual, ih]

/-- The filled orders come first. -/
theorem fillQueue_prefix (quantity : Quantity) (orders : List OrderNodeSpec) :
    ∃ rest, orders = (fillQueue quantity orders).map Fill.order ++ rest := by
  induction orders generalizing quantity with
  | nil => exact ⟨[], rfl⟩
  | cons order rest ih =>
    rw [fillQueue]
    by_cases zero : quantity = 0
    · exact ⟨order :: rest, by simp [zero]⟩
    · obtain ⟨later, split⟩ := ih (quantity - min quantity order.remainingQuantity)
      refine ⟨later, ?_⟩
      rw [if_neg zero, List.map_cons, List.cons_append, ← split]

/-- A filled order is one of the orders. -/
theorem mem_of_mem_fillQueue {quantity : Quantity} {orders : List OrderNodeSpec} {fill : Fill}
    (member : fill ∈ fillQueue quantity orders) : fill.order ∈ orders := by
  obtain ⟨rest, split⟩ := fillQueue_prefix quantity orders
  rw [split]
  exact List.mem_append_left _ (List.mem_map.mpr ⟨fill, member, rfl⟩)

/-- The filled orders are distinct when the orders are. -/
theorem fillQueue_nodup {quantity : Quantity} {orders : List OrderNodeSpec}
    (distinct : (ids orders).Nodup) :
    (ids ((fillQueue quantity orders).map Fill.order)).Nodup := by
  obtain ⟨rest, split⟩ := fillQueue_prefix quantity orders
  rw [split, ids, List.map_append] at distinct
  exact (List.nodup_append.mp distinct).1

/-- What one execution takes. -/
structure Fill.Sound (fill : Fill) : Prop where
  /-- Something is executed. -/
  positive : fill.executed ≠ 0
  /-- No more than rests. -/
  bounded : fill.executed.toNat ≤ fill.order.remainingQuantity.toNat
  /-- Something is left of the resting order only when the aggressor is done. -/
  decisive : fill.executed = fill.order.remainingQuantity ∨ fill.aggressorRemaining = 0

/-- Every execution is sound. -/
theorem fillQueue_sound {quantity : Quantity} {orders : List OrderNodeSpec}
    (unfilled : ∀ order ∈ orders, order.remainingQuantity ≠ 0) {fill : Fill}
    (member : fill ∈ fillQueue quantity orders) : fill.Sound := by
  induction orders generalizing quantity with
  | nil => simp [fillQueue] at member
  | cons order rest ih =>
    rw [fillQueue] at member
    by_cases zero : quantity = 0
    · simp [zero] at member
    · rw [if_neg zero, List.mem_cons] at member
      rcases member with rfl | later
      · refine ⟨Word.min_ne_zero zero (unfilled order (by simp)), ?_, ?_⟩
        · show (min quantity order.remainingQuantity).toNat ≤ order.remainingQuantity.toNat
          rw [Word.toNat_min]
          omega
        · rcases Nat.le_total quantity.toNat order.remainingQuantity.toNat with fewer | more
          · refine Or.inr (Word.eq_zero_iff.mpr ?_)
            rw [Word.toNat_sub_min]
            omega
          · refine Or.inl (Word.eq_of_toNat ?_)
            show (min quantity order.remainingQuantity).toNat = order.remainingQuantity.toNat
            rw [Word.toNat_min]
            omega
      · exact ih (fun other inside => unfilled other (by simp [inside])) later

/-- The executed units and the residual make up the quantity. -/
theorem fillQueue_executed (quantity : Quantity) (orders : List OrderNodeSpec) :
    ((fillQueue quantity orders).map fun fill => fill.executed.toNat).sum +
      (residual quantity orders).toNat = quantity.toNat := by
  induction orders generalizing quantity with
  | nil => simp [fillQueue, residual]
  | cons order rest ih =>
    rw [fillQueue]
    by_cases zero : quantity = 0
    · simp [zero]
    · have rest := ih (quantity - min quantity order.remainingQuantity)
      rw [if_neg zero, List.map_cons, List.sum_cons, residual]
      rw [Word.toNat_sub_min] at rest
      rw [Word.toNat_min]
      omega

@[simp] theorem leftover_zero (orders : List OrderNodeSpec) : leftover 0 orders = orders := by
  cases orders <;> simp [leftover]

/-- A quantity that covers an order consumes it. -/
theorem sub_min_of_le {quantity remaining : Quantity} (covers : ¬ quantity < remaining) :
    quantity - min quantity remaining = quantity - remaining := by
  rw [UInt64.lt_iff_toNat_lt, Nat.not_lt] at covers
  apply Word.eq_of_toNat
  rw [Word.toNat_sub_min, Word.toNat_sub_of_toNat_le covers]
  omega

/-- What is left of the orders, in units. -/
theorem total_leftover (quantity : Quantity) (orders : List OrderNodeSpec) :
    total (leftover quantity orders) = total orders - quantity.toNat := by
  induction orders generalizing quantity with
  | nil => simp [leftover]
  | cons order rest ih =>
    rw [leftover]
    by_cases zero : quantity = 0
    · simp [zero]
    · rw [if_neg zero]
      by_cases partly : quantity < order.remainingQuantity
      · rw [UInt64.lt_iff_toNat_lt] at partly
        rw [if_pos (UInt64.lt_iff_toNat_lt.mpr partly), total_cons, total_cons,
          OrderNodeSpec.withRemaining_remainingQuantity,
          Word.toNat_sub_of_toNat_le (Nat.le_of_lt partly)]
        omega
      · have covers := partly
        rw [UInt64.lt_iff_toNat_lt, Nat.not_lt] at covers
        rw [if_neg partly, ih, total_cons, Word.toNat_sub_of_toNat_le covers]
        omega

/-- Something is left of the orders only when nothing is left of the quantity. -/
theorem residual_of_leftover {quantity : Quantity} {orders : List OrderNodeSpec}
    (left : leftover quantity orders ≠ []) : residual quantity orders = 0 := by
  induction orders generalizing quantity with
  | nil => simp [leftover] at left
  | cons order rest ih =>
    rw [leftover] at left
    by_cases zero : quantity = 0
    · simp [zero]
    · rw [if_neg zero] at left
      by_cases partly : quantity < order.remainingQuantity
      · have short := UInt64.lt_iff_toNat_lt.mp partly
        rw [Word.eq_zero_iff, residual_toNat, total_cons]
        omega
      · rw [if_neg partly] at left
        rw [residual, sub_min_of_le partly]
        exact ih left

/-- A quantity that is not exhausted leaves no order. -/
theorem leftover_of_residual {quantity : Quantity} {orders : List OrderNodeSpec}
    (remains : residual quantity orders ≠ 0) : leftover quantity orders = [] := by
  by_contra left
  exact remains (residual_of_leftover left)

/-- Applying the executions to the orders leaves the leftover. -/
theorem filterMap_settle {quantity : Quantity} {orders : List OrderNodeSpec}
    (distinct : (ids orders).Nodup) :
    orders.filterMap (settle (fillQueue quantity orders)) = leftover quantity orders := by
  induction orders generalizing quantity with
  | nil => rfl
  | cons order rest ih =>
    rw [ids, List.map_cons, List.nodup_cons] at distinct
    have others : ∀ other ∈ rest, other.orderId ≠ order.orderId := by
      intro other inside same
      exact distinct.1 (List.mem_map.mpr ⟨other, inside, same⟩)
    rw [fillQueue, leftover]
    by_cases zero : quantity = 0
    · simp only [zero, ↓reduceIte]
      exact List.filterMap_some
    · rw [if_neg zero, if_neg zero]
      -- The later executions do not touch this order, and this one does not touch the others.
      have first : settle (⟨order, min quantity order.remainingQuantity,
          quantity - min quantity order.remainingQuantity⟩ ::
            fillQueue (quantity - min quantity order.remainingQuantity) rest) order =
          reduceBy order.orderId (min quantity order.remainingQuantity) order := by
        rw [settle]
        cases kept : reduceBy order.orderId (min quantity order.remainingQuantity) order with
        | none => rfl
        | some image =>
          have same := (reduceBy_shrinks _ _).orderId_eq kept
          refine settle_of_not_mem fun fill member => ?_
          rw [same]
          exact (others fill.order (mem_of_mem_fillQueue member)).symm
      have later : rest.filterMap (settle (⟨order, min quantity order.remainingQuantity,
          quantity - min quantity order.remainingQuantity⟩ ::
            fillQueue (quantity - min quantity order.remainingQuantity) rest)) =
          leftover (quantity - min quantity order.remainingQuantity) rest := by
        rw [← ih distinct.2]
        refine List.filterMap_congr fun other inside => ?_
        rw [settle, reduceBy_of_ne (others other inside), Option.bind_some]
      rw [List.filterMap_cons, first, later, reduceBy, if_pos rfl]
      by_cases partly : quantity < order.remainingQuantity
      · have short := UInt64.lt_iff_toNat_lt.mp partly
        have taken : min quantity order.remainingQuantity = quantity := by
          apply Word.eq_of_toNat
          rw [Word.toNat_min]
          omega
        have beyond : ¬ order.remainingQuantity ≤ quantity := by
          rw [UInt64.le_iff_toNat_le]
          omega
        rw [taken, if_neg beyond, if_pos partly]
        simp
      · have covers := partly
        rw [UInt64.lt_iff_toNat_lt, Nat.not_lt] at covers
        have taken : min quantity order.remainingQuantity = order.remainingQuantity := by
          apply Word.eq_of_toNat
          rw [Word.toNat_min]
          omega
        rw [taken, if_pos (UInt64.le_iff_toNat_le.mpr (le_refl _)), if_neg partly]

/-- The orders a crossing level adds to the reachable ones. -/
theorem eligible_cons_of_crosses {crosses : PriceTicks → Bool} {price : PriceTicks}
    {queue : List OrderNodeSpec} {rest : Levels} (reached : crosses price = true) :
    eligible crosses ((price, queue) :: rest) = queue ++ eligible crosses rest := by
  simp [eligible, reached]

/-- The first level out of reach ends the reachable ones. -/
theorem eligible_cons_of_not_crosses {crosses : PriceTicks → Bool} {price : PriceTicks}
    {queue : List OrderNodeSpec} {rest : Levels} (outside : crosses price = false) :
    eligible crosses ((price, queue) :: rest) = [] := by
  simp [eligible, outside]

/-- Every reachable order is an order of the side. -/
theorem eligible_sublist (crosses : PriceTicks → Bool) (levels : Levels) :
    (eligible crosses levels).Sublist levels.orders := by
  have split : levels = levels.takeWhile (fun entry => crosses entry.1) ++
      levels.dropWhile (fun entry => crosses entry.1) := List.takeWhile_append_dropWhile.symm
  rw [eligible]
  nth_rewrite 2 [split]
  rw [Levels.orders_append]
  exact List.sublist_append_left _ _

/-- A spent aggressor leaves a side as it is. -/
theorem sweep_zero {crosses : PriceTicks → Bool} {levels : Levels}
    (nonempty : ∀ price queue, (price, queue) ∈ levels → queue ≠ []) :
    sweep crosses 0 levels = levels := by
  cases levels with
  | nil => rfl
  | cons entry rest =>
    obtain ⟨price, queue⟩ := entry
    simp [sweep, nonempty price queue (by simp)]

/-- Applying the executions to a side leaves the swept side. -/
theorem revise_settle {crosses : PriceTicks → Bool} {quantity : Quantity} {levels : Levels}
    (distinct : (ids levels.orders).Nodup)
    (nonempty : ∀ price queue, (price, queue) ∈ levels → queue ≠ []) :
    levels.revise (settle (fillQueue quantity (eligible crosses levels))) =
      sweep crosses quantity levels := by
  induction levels generalizing quantity with
  | nil => rfl
  | cons entry rest ih =>
    obtain ⟨price, queue⟩ := entry
    rw [sweep]
    cases reached : crosses price with
    | false =>
      rw [eligible_cons_of_not_crosses reached]
      exact Levels.revise_of_fixed nonempty fun order _ => rfl
    | true =>
      rw [eligible_cons_of_crosses reached, fillQueue_append]
      simp only [Levels.orders_cons, ids, List.map_append, List.nodup_append, List.mem_map,
        forall_exists_index, and_imp, forall_apply_eq_imp_iff₂] at distinct
      obtain ⟨inQueue, inRest, apart⟩ := distinct
      have restNonempty : ∀ price queue, (price, queue) ∈ rest → queue ≠ [] :=
        fun price queue member => nonempty price queue (by simp [member])
      have restEligible := (eligible_sublist crosses rest).subset
      have head : queue.filterMap (settle (fillQueue quantity queue ++
          fillQueue (residual quantity queue) (eligible crosses rest))) =
            leftover quantity queue := by
        rw [← filterMap_settle (show (ids queue).Nodup from inQueue)]
        refine List.filterMap_congr fun order inside => ?_
        rw [settle_append]
        cases kept : settle (fillQueue quantity queue) order with
        | none => rfl
        | some image =>
          have same := (settle_shrinks _).orderId_eq kept
          refine settle_of_not_mem fun fill member => ?_
          rw [same]
          exact apart order inside fill.order (restEligible (mem_of_mem_fillQueue member))
      have tail : Levels.revise (settle (fillQueue quantity queue ++
          fillQueue (residual quantity queue) (eligible crosses rest))) rest =
            sweep crosses (residual quantity queue) rest := by
        rw [← ih (show (ids (Levels.orders rest)).Nodup from inRest) restNonempty]
        refine Levels.revise_congr fun order inside => ?_
        rw [settle_append, settle_of_not_mem fun fill member => ?_, Option.bind_some]
        exact (apart fill.order (mem_of_mem_fillQueue member) order inside).symm
      rw [Levels.revise] at tail ⊢
      rw [List.filterMap_cons, tail, Levels.reviseEntry, head, if_pos rfl]
      by_cases emptied : leftover quantity queue = []
      · rw [if_pos emptied, if_pos emptied]
      · rw [if_neg emptied, if_neg emptied, residual_of_leftover emptied, sweep_zero restNonempty]

/-- An aggressor with something left has taken every level in reach. -/
theorem sweep_of_residual {crosses : PriceTicks → Bool} {quantity : Quantity} {levels : Levels}
    (remains : residual quantity (eligible crosses levels) ≠ 0) :
    sweep crosses quantity levels = levels.dropWhile fun entry => crosses entry.1 := by
  induction levels generalizing quantity with
  | nil => rfl
  | cons entry rest ih =>
    obtain ⟨price, queue⟩ := entry
    rw [sweep, List.dropWhile_cons]
    cases reached : crosses price with
    | false => simp
    | true =>
      rw [eligible_cons_of_crosses reached, residual_append] at remains
      have taken : residual quantity queue ≠ 0 := by
        intro zero
        rw [zero, residual_zero] at remains
        exact remains rfl
      rw [if_pos rfl, leftover_of_residual taken, if_pos rfl, ih remains]
      simp

/-- The executions that exhaust their order. -/
def exhausted (fills : List Fill) : List Fill :=
  fills.filter fun fill => fill.executed = fill.order.remainingQuantity

/-- Executions against different orders of a ladder. -/
structure Executable (ladder : Ladder) (fills : List Fill) : Prop where
  members : ∀ fill ∈ fills, fill.order ∈ ladder.orders
  sound : ∀ fill ∈ fills, fill.Sound
  distinct : (ids (fills.map Fill.order)).Nodup

namespace Executable

variable {instrument : InstrumentId} {ladder : Ladder} {order : OrderNodeSpec}

/-- Executions on one side do not touch the orders of the other. -/
theorem settle_opposite (valid : ladder.Valid instrument) {fills : List Fill}
    (executable : Executable ladder fills) {side : Side} (known : side = .buy ∨ side = .sell)
    (opposite : ∀ fill ∈ fills, fill.order.side ≠ side) {image : OrderNodeSpec}
    (inside : order ∈ Levels.orders (ladder.side side)) (same : image.orderId = order.orderId) :
    settle fills image = some image := by
  refine settle_of_not_mem fun fill present equal => opposite fill present ?_
  have member : order ∈ ladder.orders :=
    (ladder.orders_perm side).mem_iff.mpr (List.mem_append_left _ inside)
  rw [← valid.eq_of_orderId member (executable.members fill present) (same.symm.trans equal)]
  exact (valid.side known).sided order inside

/-- Executions on one side leave the other as it is. -/
theorem revise_opposite (valid : ladder.Valid instrument) {fills : List Fill}
    (executable : Executable ladder fills) {side : Side} (known : side = .buy ∨ side = .sell)
    (opposite : ∀ fill ∈ fills, fill.order.side ≠ side) :
    (ladder.side side).revise (settle fills) = ladder.side side :=
  Levels.revise_of_fixed (valid.side known).nonempty fun _ inside =>
    settle_opposite valid executable known opposite inside rfl

/-- An order is gone exactly when an execution exhausts it. -/
theorem settle_eq_none_iff (valid : ladder.Valid instrument) {fills : List Fill}
    (executable : Executable ladder fills) (member : order ∈ ladder.orders) :
    settle fills order = none ↔ order.orderId ∈ ids ((exhausted fills).map Fill.order) := by
  rw [settle_eq executable.distinct]
  cases found : fills.find? fun fill => decide (fill.order.orderId = order.orderId) with
  | none =>
    refine ⟨by simp, fun gone => ?_⟩
    obtain ⟨_, inside, same⟩ := List.mem_map.mp gone
    obtain ⟨fill, present, rfl⟩ := List.mem_map.mp inside
    have missing := List.find?_eq_none.mp found fill (List.mem_of_mem_filter present)
    simp [same] at missing
  | some fill =>
    have present := List.mem_of_find?_eq_some found
    have same : fill.order.orderId = order.orderId := by simpa using List.find?_some found
    have equal := valid.eq_of_orderId (executable.members fill present) member same
    have bounded := (executable.sound fill present).bounded
    simp only [reduceBy, ↓reduceIte]
    rw [equal] at bounded
    constructor
    · intro gone
      have exceeds : order.remainingQuantity ≤ fill.executed := by
        by_contra short
        simp [short] at gone
      have full : fill.executed = fill.order.remainingQuantity := by
        rw [equal]
        rw [UInt64.le_iff_toNat_le] at exceeds
        exact Word.eq_of_toNat (by omega)
      exact List.mem_map.mpr ⟨fill.order, List.mem_map.mpr
        ⟨fill, List.mem_filter.mpr ⟨present, by simpa using full⟩, rfl⟩, same⟩
    · intro gone
      obtain ⟨_, inside, again⟩ := List.mem_map.mp gone
      obtain ⟨other, exhausts, rfl⟩ := List.mem_map.mp inside
      obtain ⟨otherPresent, full⟩ := List.mem_filter.mp exhausts
      have distinct : (fills.map fun fill => fill.order.orderId).Nodup := by
        simpa [ids, Function.comp_def] using executable.distinct
      have one : other = fill :=
        List.inj_on_of_nodup_map distinct otherPresent present (again.trans same.symm)
      simp only [one, decide_eq_true_eq, equal] at full
      simp [full]

/-- As many orders leave a ladder as executions exhaust their order. -/
theorem length_settle (valid : ladder.Valid instrument) {fills : List Fill}
    (executable : Executable ladder fills) :
    (ladder.orders.filterMap (settle fills)).length + (exhausted fills).length =
      ladder.orders.length := by
  have gone : (ids (ladder.orders.filter fun other => (settle fills other).isNone)).Perm
      (ids ((exhausted fills).map Fill.order)) := by
    rw [List.perm_ext_iff_of_nodup]
    · intro orderId
      constructor
      · intro inside
        obtain ⟨other, present, rfl⟩ := List.mem_map.mp inside
        obtain ⟨member, left⟩ := List.mem_filter.mp present
        exact (executable.settle_eq_none_iff valid member).mp (by simpa using left)
      · intro inside
        obtain ⟨_, present, rfl⟩ := List.mem_map.mp inside
        obtain ⟨fill, exhausts, rfl⟩ := List.mem_map.mp present
        have member := executable.members fill (List.mem_of_mem_filter exhausts)
        refine List.mem_map.mpr ⟨fill.order, List.mem_filter.mpr ⟨member, ?_⟩, rfl⟩
        rw [Option.isNone_iff_eq_none, executable.settle_eq_none_iff valid member]
        exact inside
    · exact valid.distinct.sublist (List.filter_sublist.map _)
    · exact executable.distinct.sublist ((List.filter_sublist.map _).map _)
  have lengths := gone.length_eq
  simp only [ids, List.length_map] at lengths
  have kept : (ladder.orders.filterMap (settle fills)).length =
      (ladder.orders.filter fun other => (settle fills other).isSome).length := by
    generalize ladder.orders = orders
    induction orders with
    | nil => rfl
    | cons other rest ih =>
      rw [List.filterMap_cons, List.filter_cons]
      cases settle fills other <;> simp [ih]
  have split : ladder.orders.length = _ := List.length_eq_length_filter_add
    fun other => (settle fills other).isSome
  rw [kept, ← lengths, split]
  congr 2
  refine List.filter_congr fun other _ => ?_
  cases settle fills other <;> rfl

end Executable

/-- The ladder a residual will join: without the order it replaces. -/
def withoutReplaced (ladder : Ladder) (replaced : Option OrderNodeSpec) : Ladder :=
  match replaced with
  | none => ladder
  | some old => ladder.revise (reduceBy old.orderId old.remainingQuantity)

end AtlasLob
