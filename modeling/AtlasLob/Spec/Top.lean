import AtlasLob.Spec.Aggressor

/-!
# The best level of a changed side

The best level of a side is its first one, so it is known from the prices of the side and from
the queue at the best of them. This reading survives revisions and joins, which the projections
compute without building the changed side.
-/

namespace AtlasLob

open PriceLevel

namespace Levels

/-- The queue of a level that is in the side. -/
theorem queueAt_of_mem {levels : Levels} (distinct : (SortedMap.keys levels).Nodup)
    {price : PriceTicks} {queue : List OrderNodeSpec} (member : (price, queue) ∈ levels) :
    levels.queueAt price = queue := by
  rw [queueAt, SortedMap.find?_of_mem distinct member, Option.getD_some]

/-- A price without a level has an empty queue. -/
theorem queueAt_of_not_mem {levels : Levels} {price : PriceTicks}
    (absent : price ∉ SortedMap.keys levels) : levels.queueAt price = [] := by
  rw [queueAt, SortedMap.find?_eq_none.mpr absent, Option.getD_none]

/-- A revision acts on every queue. -/
theorem queueAt_revise {levels : Levels} (change : OrderNodeSpec → Option OrderNodeSpec)
    (distinct : (SortedMap.keys levels).Nodup) (price : PriceTicks) :
    (levels.revise change).queueAt price = (levels.queueAt price).filterMap change := by
  have revised : (SortedMap.keys (levels.revise change)).Nodup :=
    distinct.sublist (keys_revise_sublist change levels)
  by_cases present : price ∈ SortedMap.keys levels
  · obtain ⟨⟨_, queue⟩, member, rfl⟩ := List.mem_map.mp present
    rw [queueAt_of_mem distinct member]
    by_cases emptied : queue.filterMap change = []
    · rw [emptied]
      refine queueAt_of_not_mem fun inside => ?_
      obtain ⟨⟨_, image⟩, kept, same⟩ := List.mem_map.mp inside
      simp only at same
      subst same
      obtain ⟨before, source, rfl, nonempty⟩ := mem_revise.mp kept
      rw [← queueAt_of_mem distinct source, queueAt_of_mem distinct member] at nonempty
      exact nonempty emptied
    · exact queueAt_of_mem revised (mem_revise.mpr ⟨queue, member, rfl, emptied⟩)
  · rw [queueAt_of_not_mem present, List.filterMap_nil]
    exact queueAt_of_not_mem fun inside =>
      present ((keys_revise_sublist change levels).subset inside)

/-- A revision keeps exactly the prices at which something is left. -/
theorem mem_keys_revise {levels : Levels} {change : OrderNodeSpec → Option OrderNodeSpec}
    (distinct : (SortedMap.keys levels).Nodup) {price : PriceTicks} :
    price ∈ SortedMap.keys (levels.revise change) ↔
      price ∈ SortedMap.keys levels ∧ (levels.queueAt price).filterMap change ≠ [] := by
  constructor
  · intro inside
    obtain ⟨⟨_, image⟩, kept, rfl⟩ := List.mem_map.mp inside
    obtain ⟨before, source, rfl, nonempty⟩ := mem_revise.mp kept
    exact ⟨SortedMap.mem_keys source, by rwa [queueAt_of_mem distinct source]⟩
  · rintro ⟨inside, nonempty⟩
    obtain ⟨⟨_, queue⟩, member, rfl⟩ := List.mem_map.mp inside
    rw [queueAt_of_mem distinct member] at nonempty
    exact SortedMap.mem_keys (mem_revise.mpr ⟨queue, member, rfl, nonempty⟩)

/-- The queue a join extends. -/
theorem queueAt_join_same (side : Side) (levels : Levels) (order : OrderNodeSpec) :
    (levels.join side order).queueAt order.price = levels.queueAt order.price ++ [order] := by
  rw [join, queueAt, queueAt]
  cases found : SortedMap.find? order.price levels with
  | none =>
    simp only
    rw [SortedMap.find?_insert (SortedMap.find?_eq_none.mp found), if_pos rfl]
    rfl
  | some queue =>
    simp only
    rw [SortedMap.find?_set found, if_pos rfl]
    rfl

/-- The other queues stay. -/
theorem queueAt_join_other {side : Side} {levels : Levels} {order : OrderNodeSpec}
    {price : PriceTicks} (apart : price ≠ order.price) :
    (levels.join side order).queueAt price = levels.queueAt price := by
  rw [join, queueAt, queueAt]
  cases found : SortedMap.find? order.price levels with
  | none =>
    simp only
    rw [SortedMap.find?_insert (SortedMap.find?_eq_none.mp found), if_neg apart]
  | some queue =>
    simp only
    rw [SortedMap.find?_set found, if_neg apart]

end Levels

namespace Ladder

variable {side : Side} {levels : Levels}

/-- The best level is at the price that comes before all others. -/
theorem best_of_first (sorted : SortedMap.Sorted (bestPriceFirst side) levels)
    {price : PriceTicks} (member : price ∈ SortedMap.keys levels)
    (first : ∀ other ∈ SortedMap.keys levels, other = price ∨
      bestPriceFirst side price other = true) :
    best levels = some ⟨price, aggregate (levels.queueAt price)⟩ := by
  cases levels with
  | nil => simp at member
  | cons entry rest =>
    have strict := bestPriceFirst_strictOrder side
    rw [SortedMap.Sorted, SortedMap.keys_cons, List.pairwise_cons] at sorted
    have here : entry.1 = price := by
      rcases first entry.1 (by simp) with same | later
      · exact same
      · rcases List.mem_cons.mp member with same | inside
        · exact same.symm
        · have back := strict.trans later (sorted.1 price inside)
          rw [strict.irrefl] at back
          cases back
    simp [best, Levels.queueAt, SortedMap.find?, here]

/-- A side without levels has no best one. -/
theorem best_of_empty (empty : SortedMap.keys levels = []) : best levels = none := by
  rw [SortedMap.keys, List.map_eq_nil_iff] at empty
  rw [empty]
  rfl

/-- The first price of a side. -/
theorem best_price {top : TopOfBookLevel}
    (sorted : SortedMap.Sorted (bestPriceFirst side) levels) (found : best levels = some top) :
    top.price ∈ SortedMap.keys levels ∧
      top.aggregateQuantity = aggregate (levels.queueAt top.price) ∧
      ∀ other ∈ SortedMap.keys levels, other = top.price ∨
        bestPriceFirst side top.price other = true := by
  cases levels with
  | nil => simp [best] at found
  | cons entry rest =>
    simp only [best, List.head?_cons, Option.map_some, Option.some.injEq] at found
    subst found
    rw [SortedMap.Sorted, SortedMap.keys_cons, List.pairwise_cons] at sorted
    refine ⟨by simp, by simp [Levels.queueAt, SortedMap.find?], fun other inside => ?_⟩
    rcases List.mem_cons.mp inside with same | later
    · exact Or.inl same
    · exact Or.inr (sorted.1 other later)

/-- The best level once an order has joined. -/
theorem best_join (sorted : SortedMap.Sorted (bestPriceFirst side) levels)
    (order : OrderNodeSpec)
    (joined : SortedMap.Sorted (bestPriceFirst side) (levels.join side order)) :
    best (levels.join side order) = some (preferLevel side
      ⟨order.price, aggregate (levels.queueAt order.price ++ [order])⟩ (best levels)) := by
  have strict := bestPriceFirst_strictOrder side
  cases found : best levels with
  | none =>
    have empty : levels = [] := by
      cases levels with
      | nil => rfl
      | cons entry rest => simp [best] at found
    subst empty
    rfl
  | some current =>
    obtain ⟨present, sum, first⟩ := best_price sorted found
    simp only [preferLevel]
    by_cases better : (bestPriceFirst side order.price current.price ||
        decide (order.price = current.price)) = true
    · rw [if_pos better, ← Levels.queueAt_join_same side]
      refine best_of_first joined (Levels.mem_keys_join.mpr (Or.inl rfl)) fun other inside => ?_
      rcases Levels.mem_keys_join.mp inside with same | old
      · exact Or.inl same
      · rw [Bool.or_eq_true, decide_eq_true_eq] at better
        rcases better with before | equal
        · rcases first other old with same | later
          · rw [same]
            exact Or.inr before
          · exact Or.inr (strict.trans before later)
        · rw [equal]
          exact first other old
    · rw [if_neg better]
      rw [Bool.or_eq_true, decide_eq_true_eq, not_or] at better
      have behind : bestPriceFirst side current.price order.price = true := by
        by_contra unordered
        exact unordered (strict.total better.2 (by simpa using better.1))
      have kept : current = ⟨current.price, aggregate ((levels.join side order).queueAt
          current.price)⟩ := by
        rw [Levels.queueAt_join_other (Ne.symm better.2), ← sum]
      rw [kept]
      refine best_of_first joined (Levels.mem_keys_join.mpr (Or.inr present)) fun other inside => ?_
      rcases Levels.mem_keys_join.mp inside with same | old
      · rw [same]
        exact Or.inr behind
      · exact first other old

/-- The first level that is kept comes before all others that are. -/
theorem first_of_find? (sorted : SortedMap.Sorted (bestPriceFirst side) levels)
    {keep : PriceTicks → Bool} {entry : PriceTicks × List OrderNodeSpec}
    (found : levels.find? (fun other => keep other.1) = some entry) :
    entry.1 ∈ SortedMap.keys levels ∧ keep entry.1 = true ∧
      ∀ other ∈ SortedMap.keys levels, keep other = true → other = entry.1 ∨
        bestPriceFirst side entry.1 other = true := by
  induction levels with
  | nil => simp at found
  | cons first rest ih =>
    rw [SortedMap.Sorted, SortedMap.keys_cons, List.pairwise_cons] at sorted
    rw [List.find?_cons] at found
    cases kept : keep first.1 with
    | true =>
      simp only [kept, Option.some.injEq] at found
      subst found
      refine ⟨by simp, kept, fun other inside _ => ?_⟩
      rcases List.mem_cons.mp inside with same | later
      · exact Or.inl same
      · exact Or.inr (sorted.1 other later)
    | false =>
      simp only [kept] at found
      obtain ⟨inside, keeps, earliest⟩ := ih sorted.2 found
      refine ⟨by simp [inside], keeps, fun other member keepsOther => ?_⟩
      rcases List.mem_cons.mp member with same | later
      · rw [same, kept] at keepsOther
        cases keepsOther
      · exact earliest other later keepsOther

/-- The best level of a changed side is at the first old price at which something is left. -/
theorem best_eq_find? {changed : Levels} (sorted : SortedMap.Sorted (bestPriceFirst side) levels)
    (changedSorted : SortedMap.Sorted (bestPriceFirst side) changed) {keep : PriceTicks → Bool}
    (kept : ∀ price, price ∈ SortedMap.keys changed ↔
      price ∈ SortedMap.keys levels ∧ keep price = true) :
    best changed = (levels.find? fun entry => keep entry.1).map fun entry =>
      ⟨entry.1, aggregate (changed.queueAt entry.1)⟩ := by
  cases found : levels.find? fun entry => keep entry.1 with
  | none =>
    refine best_of_empty (List.eq_nil_iff_forall_not_mem.mpr fun price inside => ?_)
    obtain ⟨present, keeps⟩ := (kept price).mp inside
    obtain ⟨entry, member, rfl⟩ := List.mem_map.mp present
    exact List.find?_eq_none.mp found entry member keeps
  | some entry =>
    obtain ⟨present, keeps, first⟩ := first_of_find? sorted found
    refine best_of_first changedSorted ((kept entry.1).mpr ⟨present, keeps⟩) fun other inside => ?_
    obtain ⟨old, keepsOther⟩ := (kept other).mp inside
    exact first other old keepsOther

namespace Valid

variable {instrument : InstrumentId} {ladder : Ladder} {old : OrderNodeSpec}

/-- The levels of a side have different prices. -/
theorem keys_nodup (valid : ladder.Valid instrument) {side : Side}
    (known : side = .buy ∨ side = .sell) : (SortedMap.keys (ladder.side side)).Nodup :=
  (valid.side known).sorted.nodup (bestPriceFirst_strictOrder side)

/-- The queue at a price of a side is well formed. -/
theorem queueAt (valid : ladder.Valid instrument) {side : Side}
    (known : side = .buy ∨ side = .sell) {price : PriceTicks}
    (present : price ∈ SortedMap.keys (ladder.side side)) :
    Queue price ((ladder.side side).queueAt price) ∧ (ladder.side side).queueAt price ≠ [] := by
  obtain ⟨⟨_, queue⟩, member, rfl⟩ := List.mem_map.mp present
  rw [Levels.queueAt_of_mem (valid.keys_nodup known) member]
  exact ⟨(valid.side known).queue _ _ member, (valid.side known).nonempty _ _ member⟩

/-- Where a resting order stands in the queue at its price. -/
theorem queueAt_split (valid : ladder.Valid instrument) (member : old ∈ ladder.orders) :
    ∃ before behind, (ladder.side old.side).queueAt old.price = before ++ old :: behind ∧
      old.price ∈ SortedMap.keys (ladder.side old.side) := by
  obtain ⟨front, before, behind, back, located⟩ := valid.locate member
  refine ⟨before, behind, Levels.queueAt_of_mem (valid.keys_nodup (valid.sided member)) ?_, ?_⟩
  · rw [located]
    simp
  · rw [located]
    simp

/-- Without an order, the queue at its price loses it and the other queues stay. -/
theorem queueAt_without (valid : ladder.Valid instrument) (member : old ∈ ladder.orders)
    (price : PriceTicks) :
    ((ladder.side old.side).revise (reduceBy old.orderId old.remainingQuantity)).queueAt price =
      if price = old.price then ((ladder.side old.side).queueAt price).filterMap
        (reduceBy old.orderId old.remainingQuantity)
      else (ladder.side old.side).queueAt price := by
  have known := valid.sided member
  rw [Levels.queueAt_revise _ (valid.keys_nodup known)]
  split_ifs with same
  · rfl
  · by_cases present : price ∈ SortedMap.keys (ladder.side old.side)
    · obtain ⟨⟨_, queue⟩, level, rfl⟩ := List.mem_map.mp present
      rw [Levels.queueAt_of_mem (valid.keys_nodup known) level]
      rw [List.filterMap_congr (g := some) fun other inside => ?_, List.filterMap_some]
      refine reduceBy_of_ne fun equal => same ?_
      have resting : other ∈ ladder.orders := (ladder.orders_perm old.side).mem_iff.mpr
        (List.mem_append_left _ (Levels.mem_orders.mpr ⟨_, _, level, inside⟩))
      have priced := ((valid.side known).queue _ _ level).priced other inside
      rw [valid.eq_of_orderId resting member equal] at priced
      exact priced.symm
    · rw [Levels.queueAt_of_not_mem present, List.filterMap_nil]

/-- What an order leaves at its price. -/
theorem total_without (valid : ladder.Valid instrument) (member : old ∈ ladder.orders) :
    total (((ladder.side old.side).queueAt old.price).filterMap
        (reduceBy old.orderId old.remainingQuantity)) + old.remainingQuantity.toNat =
      total ((ladder.side old.side).queueAt old.price) := by
  obtain ⟨before, behind, split, present⟩ := valid.queueAt_split member
  have distinct : (ids (before ++ old :: behind)).Nodup := by
    have all := (Ladder.ids_perm (ladder.orders_perm old.side)).nodup_iff.mp valid.distinct
    have level : (old.price, before ++ old :: behind) ∈ ladder.side old.side := by
      rw [← split]
      obtain ⟨⟨_, queue⟩, inside, same⟩ := List.mem_map.mp present
      simp only at same
      subst same
      rwa [Levels.queueAt_of_mem (valid.keys_nodup (valid.sided member)) inside]
    obtain ⟨early, late, sides⟩ := List.append_of_mem level
    rw [sides, Levels.orders_append, Levels.orders_cons] at all
    simp only [ids, List.map_append, List.nodup_append] at all ⊢
    exact all.1.2.1.1
  have image : reduceBy old.orderId old.remainingQuantity old = none := by
    rw [reduceBy, if_pos rfl, if_pos (UInt64.le_iff_toNat_le.mpr (le_refl _))]
  rw [split, filterMap_reduceBy distinct, image]
  simp only [Option.toList_none, List.append_nil, total_append, total_cons]
  omega

/-- Without an order, the sum at a price of its side. -/
theorem aggregate_without (valid : ladder.Valid instrument) (member : old ∈ ladder.orders)
    {price : PriceTicks} {queue : List OrderNodeSpec}
    (level : (price, queue) ∈ ladder.side old.side) :
    aggregate (((ladder.side old.side).revise (reduceBy old.orderId old.remainingQuantity)).queueAt
        price) =
      if price = old.price then aggregate (((ladder.side old.side).queueAt old.price).filterMap
        (reduceBy old.orderId old.remainingQuantity))
      else aggregate queue := by
  rw [valid.queueAt_without member,
    Levels.queueAt_of_mem (valid.keys_nodup (valid.sided member)) level]
  split_ifs with same
  · subst same
    rw [Levels.queueAt_of_mem (valid.keys_nodup (valid.sided member)) level]
  · rfl

/-- Without an order, a price of its side stays exactly if its sum is not zero. -/
theorem mem_keys_without (valid : ladder.Valid instrument) (member : old ∈ ladder.orders)
    (price : PriceTicks) :
    price ∈ SortedMap.keys
        ((ladder.side old.side).revise (reduceBy old.orderId old.remainingQuantity)) ↔
      price ∈ SortedMap.keys (ladder.side old.side) ∧
        aggregate (((ladder.side old.side).revise
          (reduceBy old.orderId old.remainingQuantity)).queueAt price) ≠ 0 := by
  have known := valid.sided member
  rw [Levels.mem_keys_revise (valid.keys_nodup known),
    Levels.queueAt_revise _ (valid.keys_nodup known)]
  refine and_congr_right fun present => ?_
  have shrunk := (reduceBy_shrinks old.orderId old.remainingQuantity).queue
    (valid.queueAt known present).1
  exact ⟨fun nonempty => shrunk.aggregate_ne_zero nonempty,
    fun sum empty => sum (by rw [empty]; rfl)⟩

end Valid

end Ladder

end AtlasLob
