import AtlasLob.Core.PriceLevel

/-!
# Queues

What a price level is for: a FIFO queue of resting orders at one price, with an exact sum of
remaining quantities. Nothing here mentions links or cached counters.
-/

namespace AtlasLob

@[simp] theorem OrderNodeSpec.withRemaining_orderId (order : OrderNodeSpec)
    (remaining : Quantity) : (order.withRemaining remaining).orderId = order.orderId := rfl

@[simp] theorem OrderNodeSpec.withRemaining_remainingQuantity (order : OrderNodeSpec)
    (remaining : Quantity) : (order.withRemaining remaining).remainingQuantity = remaining := rfl

@[simp] theorem OrderNodeSpec.withRemaining_prioritySequence (order : OrderNodeSpec)
    (remaining : Quantity) :
    (order.withRemaining remaining).prioritySequence = order.prioritySequence := rfl

namespace PriceLevel

/-- The exact sum of the remaining quantities. -/
def total (orders : List OrderNodeSpec) : Nat :=
  (orders.map fun order => order.remainingQuantity.toNat).sum

/-- The machine sum of the remaining quantities. -/
def aggregate (orders : List OrderNodeSpec) : Quantity :=
  orders.foldr (fun order sum => order.remainingQuantity + sum) 0

/-- The order IDs of a queue. -/
def ids (orders : List OrderNodeSpec) : List OrderId := orders.map OrderNodeSpec.orderId

/-- A well-formed FIFO queue at a price. -/
structure Queue (price : PriceTicks) (orders : List OrderNodeSpec) : Prop where
  /-- The price is positive. -/
  positive : 0 < price
  /-- Every order is filed under its own price. -/
  priced : ∀ order ∈ orders, order.price = price
  /-- Every order has something left. -/
  unfilled : ∀ order ∈ orders, order.remainingQuantity ≠ 0
  /-- Every priority was issued. -/
  issued : ∀ order ∈ orders, order.prioritySequence ≠ 0
  /-- Arrival order is queue order. -/
  increasing : orders.Pairwise fun first second => first.prioritySequence < second.prioritySequence
  /-- The exact sum fits a word. -/
  fits : total orders < 2 ^ 64

@[simp] theorem total_nil : total [] = 0 := rfl

@[simp] theorem total_cons (order : OrderNodeSpec) (rest : List OrderNodeSpec) :
    total (order :: rest) = order.remainingQuantity.toNat + total rest := by
  simp [total]

@[simp] theorem total_append (front back : List OrderNodeSpec) :
    total (front ++ back) = total front + total back := by
  simp [total]

@[simp] theorem aggregate_nil : aggregate [] = 0 := rfl

@[simp] theorem aggregate_cons (order : OrderNodeSpec) (rest : List OrderNodeSpec) :
    aggregate (order :: rest) = order.remainingQuantity + aggregate rest := rfl

/-- The machine sum is the exact sum when that fits. -/
theorem aggregate_toNat {orders : List OrderNodeSpec} (fits : total orders < 2 ^ 64) :
    (aggregate orders).toNat = total orders := by
  induction orders with
  | nil => rfl
  | cons order rest ih =>
    rw [total_cons] at fits
    rw [aggregate_cons, total_cons, Word.toNat_add_of_fits, ih (by omega)]
    rw [ih (by omega)]
    exact fits

/-- The machine sum of a concatenation. -/
theorem aggregate_append (front back : List OrderNodeSpec) :
    aggregate (front ++ back) = aggregate front + aggregate back := by
  induction front with
  | nil => simp
  | cons order rest ih =>
    rw [List.cons_append, aggregate_cons, ih, aggregate_cons, UInt64.add_assoc]

/-- A queue has at most as many orders as units. -/
theorem length_le_total {orders : List OrderNodeSpec}
    (unfilled : ∀ order ∈ orders, order.remainingQuantity ≠ 0) : orders.length ≤ total orders := by
  induction orders with
  | nil => simp
  | cons order rest ih =>
    have head := Word.toNat_pos (unfilled order (by simp))
    have tail := ih fun other member => unfilled other (by simp [member])
    rw [total_cons, List.length_cons]
    omega

namespace Queue

variable {price : PriceTicks} {front back orders : List OrderNodeSpec} {order : OrderNodeSpec}

/-- Some of a queue's orders, in order, are a queue. -/
theorem sublist (queue : Queue price orders) {part : List OrderNodeSpec}
    (inside : part.Sublist orders) : Queue price part where
  positive := queue.positive
  priced other member := queue.priced other (inside.subset member)
  unfilled other member := queue.unfilled other (inside.subset member)
  issued other member := queue.issued other (inside.subset member)
  increasing := queue.increasing.sublist inside
  fits := by
    refine Nat.lt_of_le_of_lt ?_ queue.fits
    exact (inside.map _).sum_le_sum (by simp)

/-- The rest of a queue without one order. -/
theorem remove (queue : Queue price (front ++ order :: back)) : Queue price (front ++ back) :=
  queue.sublist (by simp)

/-- Reducing one order keeps a queue. -/
theorem reduce (queue : Queue price (front ++ order :: back)) {remaining : Quantity}
    (positive : remaining ≠ 0) (smaller : remaining.toNat ≤ order.remainingQuantity.toNat) :
    Queue price (front ++ order.withRemaining remaining :: back) where
  positive := queue.positive
  priced other member := by
    simp only [List.mem_append, List.mem_cons] at member
    rcases member with early | rfl | late
    · exact queue.priced other (by simp [early])
    · exact queue.priced order (by simp)
    · exact queue.priced other (by simp [late])
  unfilled other member := by
    simp only [List.mem_append, List.mem_cons] at member
    rcases member with early | rfl | late
    · exact queue.unfilled other (by simp [early])
    · exact positive
    · exact queue.unfilled other (by simp [late])
  issued other member := by
    simp only [List.mem_append, List.mem_cons] at member
    rcases member with early | rfl | late
    · exact queue.issued other (by simp [early])
    · exact queue.issued order (by simp)
    · exact queue.issued other (by simp [late])
  increasing := by
    have increasing := queue.increasing
    simpa only [List.pairwise_append, List.pairwise_cons, List.mem_cons, forall_eq_or_imp,
      OrderNodeSpec.withRemaining_prioritySequence] using increasing
  fits := by
    have fits := queue.fits
    simp only [total_append, total_cons, OrderNodeSpec.withRemaining_remainingQuantity] at fits ⊢
    omega

/-- The exact sum of the level that holds a queue. -/
theorem aggregate_toNat (queue : Queue price orders) : (aggregate orders).toNat = total orders :=
  PriceLevel.aggregate_toNat queue.fits

/-- A nonempty queue has a nonzero sum. -/
theorem aggregate_ne_zero (queue : Queue price orders) (nonempty : orders ≠ []) :
    aggregate orders ≠ 0 := by
  rw [ne_eq, Word.eq_zero_iff, queue.aggregate_toNat]
  have := length_le_total queue.unfilled
  have := List.length_pos_iff.mpr nonempty
  omega

end Queue

end PriceLevel

end AtlasLob
