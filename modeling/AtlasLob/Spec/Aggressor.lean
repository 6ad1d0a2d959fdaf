import AtlasLob.Spec.Market

/-!
# What an aggressor does to a ladder

The executions are against different orders of the other side, the order an exchange removes is
on the aggressor's own side, and what is left rests behind its price without crossing. So the
ladder after an aggressor is well formed whenever the level of the residual still fits.
-/

namespace AtlasLob

open PriceLevel

/-- A well-formed order meets a ladder of its instrument that does not know it. -/
structure Meets (instrument : InstrumentId) (ladder : Ladder) (order : NewOrder) : Prop where
  valid : ladder.Valid instrument
  wellFormed : order.WellFormed
  routed : order.instrumentId = instrument
  fresh : order.orderId ∉ ids ladder.orders

/-- What validation guarantees about an aggressor and the ladder it meets. -/
structure Aggresses (instrument : InstrumentId) (ladder : Ladder) (order : NewOrder)
    (replaced : Option OrderNodeSpec) (sequence : Sequence) : Prop
    extends Meets instrument ladder order where
  issued : sequence ≠ 0
  /-- The sequence is later than every resting priority. -/
  newer : ∀ resting ∈ ladder.orders, resting.prioritySequence < sequence
  /-- An exchange removes a resting order of its owner and side, and rests what is left. -/
  replaces : ∀ old ∈ replaced, old ∈ ladder.orders ∧ old.clientId = order.clientId ∧
    old.side = order.side ∧ order.orderType = .limit ∧ order.timeInForce = .gtc

namespace Aggresses

variable {instrument : InstrumentId} {ladder : Ladder} {order : NewOrder}
  {replaced : Option OrderNodeSpec} {sequence : Sequence}

/-- The reachable orders rest on the other side. -/
theorem reach_sublist (ladder : Ladder) (order : NewOrder) :
    (ladder.reach order).Sublist (Levels.orders (ladder.side order.side.opposite)) :=
  eligible_sublist _ _

/-- The reachable orders are resting orders. -/
theorem mem_reach {resting : OrderNodeSpec} (inside : resting ∈ ladder.reach order) :
    resting ∈ ladder.orders :=
  (ladder.orders_perm order.side).mem_iff.mpr
    (List.mem_append_right _ ((reach_sublist ladder order).subset inside))

/-- Every execution is against a resting order. -/
theorem mem_fills {fill : Fill} (inside : fill ∈ ladder.fills order) :
    fill.order ∈ ladder.orders :=
  mem_reach (mem_of_mem_fillQueue inside)

end Aggresses

namespace Meets

variable {instrument : InstrumentId} {ladder : Ladder} {order : NewOrder}

open Aggresses

/-- Every execution is against an order of the other side. -/
theorem opposite (meets : Meets instrument ladder order) {fill : Fill}
    (inside : fill ∈ ladder.fills order) : fill.order.side = order.side.opposite :=
  (meets.valid.side (Side.opposite_known meets.wellFormed.side)).sided _
    ((reach_sublist ladder order).subset (mem_of_mem_fillQueue inside))

/-- No execution is against the aggressor's own side. -/
theorem not_own (meets : Meets instrument ladder order) {fill : Fill}
    (inside : fill ∈ ladder.fills order) : fill.order.side ≠ order.side := by
  rw [meets.opposite inside]
  exact Side.opposite_ne meets.wellFormed.side

/-- The reachable orders have different IDs. -/
theorem reach_distinct (meets : Meets instrument ladder order) :
    (ids (ladder.reach order)).Nodup := by
  have all := (Ladder.ids_perm (ladder.orders_perm order.side)).nodup_iff.mp
    meets.valid.distinct
  rw [ids, List.map_append, List.nodup_append] at all
  exact all.2.1.sublist ((reach_sublist ladder order).map _)

/-- Every resting order has something left. -/
theorem unfilled (meets : Meets instrument ladder order)
    {resting : OrderNodeSpec} (inside : resting ∈ ladder.orders) :
    resting.remainingQuantity ≠ 0 := by
  obtain ⟨price, queue, level, member⟩ :=
    Levels.mem_orders.mp (meets.valid.mem_side inside)
  exact ((meets.valid.side (meets.valid.sided inside)).queue price queue level).unfilled
    resting member

/-- The executions are against different resting orders. -/
theorem executable (meets : Meets instrument ladder order) :
    Executable ladder (ladder.fills order) where
  members _ inside := mem_fills inside
  sound _ inside := fillQueue_sound (fun _ reached => meets.unfilled (mem_reach reached)) inside
  distinct := fillQueue_nodup meets.reach_distinct

/-- A limit order does not cross exactly what comes after its price on the other side. -/
theorem crosses_eq (meets : Meets instrument ladder order)
    {limit : PriceTicks} (priced : order.orderType = .limit)
    (given : order.limitPrice = some limit) (price : PriceTicks) :
    order.crosses price = !bestPriceFirst order.side.opposite limit price := by
  have apart : Side.sell ≠ Side.buy := by decide
  have market : ¬ OrderType.limit = OrderType.market := by decide
  rw [NewOrder.crosses, priced, given, if_neg market]
  rcases meets.wellFormed.side with buy | sell
  · simp only [buy, Side.opposite, bestPriceFirst, ↓reduceIte, apart]
    by_cases below : price ≤ limit
    · have : ¬ limit < price := by grind
      simp [below, this]
    · have : limit < price := by grind
      simp [below, this]
  · simp only [sell, Side.opposite, bestPriceFirst, ↓reduceIte, apart]
    by_cases above : limit ≤ price
    · have : ¬ price < limit := by grind
      simp [above, this]
    · have : price < limit := by grind
      simp [above, this]

/-- What does not cross at a price does not cross behind it either. -/
theorem crosses_behind (meets : Meets instrument ladder order) {price later : PriceTicks}
    (short : order.crosses price = false)
    (behind : bestPriceFirst order.side.opposite price later = true) :
    order.crosses later = false := by
  rcases meets.wellFormed.terms with ⟨limit, priced, given, -⟩ | ⟨market, -⟩
  · rw [meets.crosses_eq priced given, Bool.not_eq_false'] at short ⊢
    exact (bestPriceFirst_strictOrder order.side.opposite).trans short behind
  · rw [NewOrder.crosses, if_pos market] at short
    cases short

end Meets

namespace Aggresses

variable {instrument : InstrumentId} {ladder : Ladder} {order : NewOrder}
  {replaced : Option OrderNodeSpec} {sequence : Sequence}

/-- Taking all of a resting order is sound. -/
theorem removal_sound (aggresses : Aggresses instrument ladder order replaced sequence)
    {old : OrderNodeSpec} (inside : old ∈ ladder.orders) : (removalOf old).Sound where
  positive := aggresses.unfilled inside
  bounded := le_refl _
  decisive := Or.inl rfl

/-- So are they together with the order an exchange removes. -/
theorem executable_removal {old : OrderNodeSpec}
    (aggresses : Aggresses instrument ladder order (some old) sequence) :
    Executable ladder (removalOf old :: ladder.fills order) where
  members fill inside := by
    rcases List.mem_cons.mp inside with rfl | passive
    · exact (aggresses.replaces old rfl).1
    · exact mem_fills passive
  sound fill inside := by
    rcases List.mem_cons.mp inside with rfl | passive
    · exact aggresses.removal_sound (aggresses.replaces old rfl).1
    · exact aggresses.executable.sound fill passive
  distinct := by
    rw [List.map_cons, ids, List.map_cons, List.nodup_cons]
    refine ⟨fun repeated => ?_, aggresses.executable.distinct⟩
    obtain ⟨_, member, same⟩ := List.mem_map.mp repeated
    obtain ⟨fill, passive, rfl⟩ := List.mem_map.mp member
    have equal := aggresses.valid.eq_of_orderId (mem_fills passive)
      (aggresses.replaces old rfl).1 same
    refine aggresses.not_own passive ?_
    rw [equal]
    exact (aggresses.replaces old rfl).2.2.1

/-- The executions and the removal together. -/
theorem executable_all (aggresses : Aggresses instrument ladder order replaced sequence) :
    Executable ladder ((replaced.map removalOf).toList ++ ladder.fills order) := by
  cases replaced with
  | none => exact aggresses.executable
  | some old => exact aggresses.executable_removal

/-- The struck ladder is the ladder without the replaced order, with the executions settled. -/
theorem struck_eq (ladder : Ladder) (order : NewOrder) (replaced : Option OrderNodeSpec) :
    ladder.struck order replaced =
      (withoutReplaced ladder replaced).revise (settle (ladder.fills order)) := by
  cases replaced with
  | none => rfl
  | some old =>
    rw [withoutReplaced, Ladder.revise_revise]
    rfl

/-- The struck ladder is well formed. -/
theorem struck_valid (aggresses : Aggresses instrument ladder order replaced sequence) :
    (ladder.struck order replaced).Valid instrument :=
  aggresses.valid.revise (settle_shrinks _)

/-- The executions do not touch the aggressor's own side. -/
theorem struck_own (aggresses : Aggresses instrument ladder order replaced sequence) :
    (ladder.struck order replaced).side order.side =
      (withoutReplaced ladder replaced).side order.side := by
  have removed : (withoutReplaced ladder replaced).Valid instrument ∧
      ∀ image ∈ Levels.orders ((withoutReplaced ladder replaced).side order.side),
        ∃ source ∈ Levels.orders (ladder.side order.side), image.orderId = source.orderId := by
    cases replaced with
    | none => exact ⟨aggresses.valid, fun image inside => ⟨image, inside, rfl⟩⟩
    | some old =>
      refine ⟨aggresses.valid.revise (reduceBy_shrinks _ _), fun image inside => ?_⟩
      rw [withoutReplaced, Ladder.side_revise, Levels.orders_revise] at inside
      obtain ⟨source, present, kept⟩ := List.mem_filterMap.mp inside
      exact ⟨source, present, (reduceBy_shrinks _ _).orderId_eq kept⟩
  rw [struck_eq, Ladder.side_revise]
  refine Levels.revise_of_fixed (removed.1.side aggresses.wellFormed.side).nonempty
    fun image inside => ?_
  obtain ⟨source, present, same⟩ := removed.2 image inside
  exact Executable.settle_opposite aggresses.valid aggresses.executable
    aggresses.wellFormed.side (fun fill passive => aggresses.not_own passive) present same

/-- A removal does not touch the other side. -/
theorem removed_opposite (aggresses : Aggresses instrument ladder order replaced sequence) :
    (withoutReplaced ladder replaced).side order.side.opposite =
      ladder.side order.side.opposite := by
  cases replaced with
  | none => rfl
  | some old =>
    obtain ⟨member, -, sided, -⟩ := aggresses.replaces old rfl
    have known := Side.opposite_known aggresses.wellFormed.side
    rw [withoutReplaced, Ladder.side_revise]
    refine Levels.revise_of_fixed (aggresses.valid.side known).nonempty fun other inside => ?_
    refine reduceBy_of_ne fun same => ?_
    have present : other ∈ ladder.orders :=
      (ladder.orders_perm order.side).mem_iff.mpr (List.mem_append_right _ inside)
    have elsewhere := (aggresses.valid.side known).sided other inside
    rw [aggresses.valid.eq_of_orderId present member same, sided] at elsewhere
    exact Side.opposite_ne aggresses.wellFormed.side elsewhere.symm

/-- The other side is swept. -/
theorem struck_opposite (aggresses : Aggresses instrument ladder order replaced sequence) :
    (ladder.struck order replaced).side order.side.opposite =
      sweep order.crosses order.quantity (ladder.side order.side.opposite) := by
  have distinct := (Ladder.ids_perm (ladder.orders_perm order.side)).nodup_iff.mp
    aggresses.valid.distinct
  rw [ids, List.map_append, List.nodup_append] at distinct
  rw [struck_eq, Ladder.side_revise, aggresses.removed_opposite]
  exact revise_settle distinct.2.1
    (aggresses.valid.side (Side.opposite_known aggresses.wellFormed.side)).nonempty

/-- A residual rests only if the order has a limit and is good till canceled. -/
theorem rest_terms (aggresses : Aggresses instrument ladder order replaced sequence)
    (rests : ladder.disposition order = .rest) :
    ladder.left order ≠ 0 ∧ ∃ price, order.orderType = .limit ∧
      order.limitPrice = some price ∧ 0 < price := by
  have market : order.orderType ≠ .market := by
    intro market
    simp only [Ladder.disposition, classifyResidual, market, ↓reduceIte] at rests
    split_ifs at rests
  refine ⟨fun zero => ?_, ?_⟩
  · simp [Ladder.disposition, classifyResidual, zero] at rests
  · rcases aggresses.wellFormed.terms with ⟨price, limit, given, positive, -⟩ | ⟨bad, -⟩
    · exact ⟨price, limit, given, positive⟩
    · exact absurd bad market

/-- A resting residual comes before every price left on the other side. -/
theorem clears (aggresses : Aggresses instrument ladder order replaced sequence)
    (rests : ladder.disposition order = .rest) :
    ∀ price ∈ SortedMap.keys ((ladder.struck order replaced).side order.side.opposite),
      bestPriceFirst order.side.opposite (order.limitPrice.getD 0) price = true := by
  obtain ⟨remains, limit, priced, given, -⟩ := aggresses.rest_terms rests
  have sorted := (aggresses.valid.side (Side.opposite_known aggresses.wellFormed.side)).sorted
  have order' := bestPriceFirst_strictOrder order.side.opposite
  rw [aggresses.struck_opposite, sweep_of_residual remains, given, Option.getD_some]
  generalize ladder.side order.side.opposite = levels at sorted
  induction levels with
  | nil => simp
  | cons entry rest ih =>
    rw [SortedMap.Sorted, SortedMap.keys_cons, List.pairwise_cons] at sorted
    rw [List.dropWhile_cons]
    cases reached : order.crosses entry.1 with
    | true => exact ih sorted.2
    | false =>
      have first : bestPriceFirst order.side.opposite limit entry.1 = true := by
        simpa [aggresses.crosses_eq priced given] using reached
      intro price member
      simp only [Bool.false_eq_true, ↓reduceIte, SortedMap.keys_cons, List.mem_cons] at member
      rcases member with rfl | later
      · exact first
      · exact order'.trans first (sorted.1 price later)

/-- The order ID of a residual rests nowhere. -/
theorem struck_fresh (aggresses : Aggresses instrument ladder order replaced sequence) :
    order.orderId ∉ ids (ladder.struck order replaced).orders := by
  intro member
  rw [Ladder.struck, Ladder.orders_revise] at member
  exact aggresses.fresh (((settle_shrinks _).ids_sublist _).subset member)

/-- Every order of the struck ladder has an earlier priority. -/
theorem struck_newer (aggresses : Aggresses instrument ladder order replaced sequence)
    {resting : OrderNodeSpec} (inside : resting ∈ (ladder.struck order replaced).orders) :
    resting.prioritySequence < sequence := by
  rw [Ladder.struck, Ladder.orders_revise] at inside
  obtain ⟨source, present, kept⟩ := List.mem_filterMap.mp inside
  obtain ⟨remaining, rfl, -⟩ := settle_shrinks _ source resting kept
  exact aggresses.newer source present

/-- The residual is a queue behind the orders at its price. -/
theorem joins (aggresses : Aggresses instrument ladder order replaced sequence)
    (rests : ladder.disposition order = .rest) (fits : ladder.overflows order replaced = false) :
    Queue (order.limitPrice.getD 0) (((ladder.struck order replaced).side order.side).queueAt
      (order.limitPrice.getD 0) ++ [ladder.rested order sequence]) := by
  obtain ⟨remains, limit, -, given, positive⟩ := aggresses.rest_terms rests
  have bound : total (((ladder.struck order replaced).side order.side).queueAt
      (order.limitPrice.getD 0)) + (ladder.left order).toNat < 2 ^ 64 := by
    simpa [Ladder.overflows, rests] using fits
  rw [given, Option.getD_some] at bound ⊢
  have sideValid := aggresses.struck_valid.side aggresses.wellFormed.side
  have queue : ∀ resting ∈ ((ladder.struck order replaced).side order.side).queueAt limit,
      resting.price = limit ∧ resting.remainingQuantity ≠ 0 ∧ resting.prioritySequence ≠ 0 ∧
        resting.prioritySequence < sequence := by
    intro resting inside
    rw [Levels.queueAt] at inside
    cases found : SortedMap.find? limit ((ladder.struck order replaced).side order.side) with
    | none => simp [found] at inside
    | some held =>
      rw [found, Option.getD_some] at inside
      have level := SortedMap.mem_of_find? found
      have wellFormed := sideValid.queue limit held level
      refine ⟨wellFormed.priced resting inside, wellFormed.unfilled resting inside,
        wellFormed.issued resting inside, aggresses.struck_newer ?_⟩
      exact ((ladder.struck order replaced).orders_perm order.side).mem_iff.mpr
        (List.mem_append_left _ (Levels.mem_orders.mpr ⟨_, _, level, inside⟩))
  have increasing : (((ladder.struck order replaced).side order.side).queueAt limit).Pairwise
      fun first second => first.prioritySequence < second.prioritySequence := by
    rw [Levels.queueAt]
    cases found : SortedMap.find? limit ((ladder.struck order replaced).side order.side) with
    | none => exact List.Pairwise.nil
    | some held => exact (sideValid.queue limit held (SortedMap.mem_of_find? found)).increasing
  have last : ladder.rested order sequence = ⟨order.orderId, order.clientId, order.instrumentId,
      order.side, limit, ladder.left order, sequence⟩ := by
    rw [Ladder.rested, given, Option.getD_some]
  rw [last]
  refine ⟨positive, ?_, ?_, ?_, ?_, ?_⟩
  · intro resting inside
    rcases List.mem_append.mp inside with early | new
    · exact (queue resting early).1
    · rw [List.mem_singleton.mp new]
  · intro resting inside
    rcases List.mem_append.mp inside with early | new
    · exact (queue resting early).2.1
    · rw [List.mem_singleton.mp new]
      exact remains
  · intro resting inside
    rcases List.mem_append.mp inside with early | new
    · exact (queue resting early).2.2.1
    · rw [List.mem_singleton.mp new]
      exact aggresses.issued
  · rw [List.pairwise_append]
    refine ⟨increasing, List.pairwise_singleton _ _, fun resting early other new => ?_⟩
    rw [List.mem_singleton.mp new]
    exact (queue resting early).2.2.2
  · rw [total_append, total_cons, total_nil]
    exact bound

/-- The residual may join the struck ladder. -/
theorem admits (aggresses : Aggresses instrument ladder order replaced sequence)
    (rests : ladder.disposition order = .rest) (fits : ladder.overflows order replaced = false) :
    (ladder.struck order replaced).Admits instrument (ladder.rested order sequence) where
  joins :=
    { queue := aggresses.joins rests fits
      sided := rfl
      routed := aggresses.routed
      named := aggresses.wellFormed.id
      owned := aggresses.wellFormed.client }
  known := aggresses.wellFormed.side
  fresh := aggresses.struck_fresh
  clears := aggresses.clears rests

/-- The ladder after an aggressor is well formed. -/
theorem after_valid (aggresses : Aggresses instrument ladder order replaced sequence)
    (fits : ladder.overflows order replaced = false) :
    (ladder.after order replaced sequence).Valid instrument := by
  rw [Ladder.after]
  split_ifs with rests
  · exact aggresses.struck_valid.join (aggresses.admits rests fits)
  · exact aggresses.struck_valid

/-- The order a ladder gains from an aggressor. -/
def newcomer (ladder : Ladder) (order : NewOrder) (sequence : Sequence) : Option OrderNodeSpec :=
  if ladder.disposition order = .rest then some (ladder.rested order sequence) else none

/-- The orders after an aggressor: those that are left and the newcomer. -/
theorem after_perm (ladder : Ladder) (order : NewOrder) (replaced : Option OrderNodeSpec)
    (sequence : Sequence) :
    (ladder.after order replaced sequence).orders.Perm ((newcomer ladder order sequence).toList ++
      ladder.orders.filterMap
        (settle ((replaced.map removalOf).toList ++ ladder.fills order))) := by
  rw [Ladder.after, newcomer]
  split_ifs with rests
  · rw [← Ladder.orders_revise]
    exact Ladder.orders_join_perm _ _
  · rw [← Ladder.orders_revise]
    exact List.Perm.refl _

/-- The orders that leave a ladder: the replaced one and those the executions exhaust. -/
theorem exhausted_all (ladder : Ladder) (order : NewOrder) (replaced : Option OrderNodeSpec) :
    exhausted ((replaced.map removalOf).toList ++ ladder.fills order) =
      (replaced.map removalOf).toList ++ exhausted (ladder.fills order) := by
  cases replaced with
  | none => rfl
  | some old => simp [exhausted, removalOf]

/-- No more orders leave than rest. -/
theorem leaving_le (aggresses : Aggresses instrument ladder order replaced sequence) :
    (exhausted (ladder.fills order)).length + replaced.toList.length ≤ ladder.orders.length := by
  have kept := aggresses.executable_all.length_settle aggresses.valid
  rw [exhausted_all, List.length_append] at kept
  have same : (replaced.map removalOf).toList.length = replaced.toList.length := by
    cases replaced <;> rfl
  omega

/-- The number of orders after an aggressor. -/
theorem after_length (aggresses : Aggresses instrument ladder order replaced sequence) :
    (ladder.after order replaced sequence).orders.length +
        ((exhausted (ladder.fills order)).length + replaced.toList.length) =
      ladder.orders.length + (if ladder.disposition order = .rest then 1 else 0) := by
  have kept := aggresses.executable_all.length_settle aggresses.valid
  have removed : (replaced.map removalOf).toList.length = replaced.toList.length := by
    cases replaced <;> rfl
  rw [exhausted_all, List.length_append] at kept
  have arrivals : (newcomer ladder order sequence).toList.length =
      if ladder.disposition order = .rest then 1 else 0 := by
    rw [newcomer]
    split_ifs <;> rfl
  rw [(after_perm ladder order replaced sequence).length_eq, List.length_append]
  omega

end Aggresses

end AtlasLob
