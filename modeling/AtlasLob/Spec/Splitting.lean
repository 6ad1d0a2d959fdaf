import AtlasLob.Spec.Market

/-!
# Taking in two parts

Taking a quantity from orders at once or in two parts leaves the same orders, and takes the same
from each of them: the part that ends inside an order is continued there.
-/

namespace AtlasLob

open PriceLevel

/-- Replacing a value twice keeps the second one. -/
theorem SortedMap.set_set {κ ν : Type} [DecidableEq κ] (key : κ) (first second : ν)
    (entries : List (κ × ν)) :
    SortedMap.set key second (SortedMap.set key first entries) =
      SortedMap.set key second entries := by
  induction entries with
  | nil => rfl
  | cons entry rest ih =>
    obtain ⟨stored, old⟩ := entry
    by_cases same : stored = key
    · simp only [SortedMap.set, same, ↓reduceIte]
    · simp only [SortedMap.set, same, ↓reduceIte, ih]

/-- The two sides are everything. -/
theorem Ladder.eq_of_sides {first second : Ladder} (side : Side)
    (own : first.side side = second.side side)
    (other : first.side side.opposite = second.side side.opposite) : first = second := by
  have apart : Side.sell ≠ Side.buy := by decide
  obtain ⟨firstBids, firstAsks⟩ := first
  obtain ⟨secondBids, secondAsks⟩ := second
  by_cases buy : side = .buy
  · simp only [Ladder.side, Side.opposite, buy, ↓reduceIte, apart] at own other
    rw [own, other]
  · simp only [Ladder.side, Side.opposite, buy, ↓reduceIte] at own other
    rw [own, other]

section Takings

/-- What is taken from one resting order: its ID, its price and the units. -/
structure Taking where
  orderId : OrderId
  price : PriceTicks
  executed : Nat
  deriving DecidableEq

/-- One more taking in front of others; it is added to the first when both are from one order. -/
def meld (taking : Taking) : List Taking → List Taking
  | [] => [taking]
  | next :: rest =>
    if taking.orderId = next.orderId then
      { taking with executed := taking.executed + next.executed } :: rest
    else taking :: next :: rest

/-- The takings of each order, in the order of their first one. -/
def perOrder : List Taking → List Taking
  | [] => []
  | taking :: rest => meld taking (perOrder rest)

/-- Two takings from one order in a row are one. -/
theorem meld_meld (orderId : OrderId) (price : PriceTicks) (first second : Nat)
    (rest : List Taking) :
    meld ⟨orderId, price, first⟩ (meld ⟨orderId, price, second⟩ rest) =
      meld ⟨orderId, price, first + second⟩ rest := by
  cases rest with
  | nil =>
    simp only [meld, ↓reduceIte]
  | cons next later =>
    by_cases own : orderId = next.orderId
    · simp only [meld, own, ↓reduceIte, Nat.add_assoc]
    · simp only [meld, own, ↓reduceIte]

/-- What an execution takes. -/
def Fill.taking (fill : Fill) : Taking :=
  ⟨fill.order.orderId, fill.order.price, fill.executed.toNat⟩

end Takings

section Orders

variable {first second : Quantity}

/-- A quantity that ends inside the orders is continued in what it leaves. -/
theorem residual_add_of_left {orders : List OrderNodeSpec}
    (fits : first.toNat + second.toNat < 2 ^ 64) (left : leftover first orders ≠ []) :
    residual (first + second) orders = residual second (leftover first orders) := by
  have spent := residual_toNat first orders
  rw [residual_of_leftover left] at spent
  have covered : first.toNat ≤ total orders := by
    have zero : (0 : Quantity).toNat = 0 := rfl
    omega
  apply Word.eq_of_toNat
  rw [residual_toNat, residual_toNat, total_leftover, Word.toNat_add_of_fits fits]
  omega

/-- A quantity that takes all of the orders goes on with what is left of it. -/
theorem residual_add_of_none {orders : List OrderNodeSpec}
    (fits : first.toNat + second.toNat < 2 ^ 64) (none : leftover first orders = []) :
    residual (first + second) orders = residual first orders + second := by
  have taken := total_leftover first orders
  rw [none, total_nil] at taken
  have remains := residual_toNat first orders
  apply Word.eq_of_toNat
  rw [Word.toNat_add_of_fits (by omega), residual_toNat, residual_toNat,
    Word.toNat_add_of_fits fits]
  omega

/-- What is left of a residual and a second part still fits. -/
theorem residual_fits (orders : List OrderNodeSpec)
    (fits : first.toNat + second.toNat < 2 ^ 64) :
    (residual first orders).toNat + second.toNat < 2 ^ 64 := by
  rw [residual_toNat]
  omega

/-- Taking a part of an order, then some of the rest of it. -/
theorem sub_add_eq {remaining : Quantity} (partly : first.toNat < remaining.toNat)
    (fits : first.toNat + second.toNat < 2 ^ 64)
    (covers : remaining.toNat - first.toNat ≤ second.toNat) :
    first + second - remaining = second - (remaining - first) := by
  apply Word.eq_of_toNat
  have rest := Word.toNat_sub_of_toNat_le (Nat.le_of_lt partly)
  rw [Word.toNat_sub_of_toNat_le (by rw [Word.toNat_add_of_fits fits]; omega),
    Word.toNat_add_of_fits fits, Word.toNat_sub_of_toNat_le (by omega), rest]
  omega

/-- Taking all of an order out of the first part. -/
theorem add_sub_eq {remaining : Quantity} (covers : remaining.toNat ≤ first.toNat)
    (fits : first.toNat + second.toNat < 2 ^ 64) :
    first + second - remaining = first - remaining + second := by
  have less := Word.toNat_sub_of_toNat_le covers
  apply Word.eq_of_toNat
  rw [Word.toNat_sub_of_toNat_le (by rw [Word.toNat_add_of_fits fits]; omega),
    Word.toNat_add_of_fits fits, Word.toNat_add_of_fits (by omega), less]
  omega

/-- Taking in two parts leaves the same orders. -/
theorem leftover_add (orders : List OrderNodeSpec)
    (fits : first.toNat + second.toNat < 2 ^ 64) :
    leftover (first + second) orders = leftover second (leftover first orders) := by
  induction orders generalizing first with
  | nil => rfl
  | cons order rest ih =>
    have whole := Word.toNat_add_of_fits fits
    by_cases none : first = 0
    · rw [none, UInt64.zero_add, leftover_zero]
    · have some : first + second ≠ 0 := by
        have positive := Word.toNat_pos none
        rw [ne_eq, Word.eq_zero_iff]
        omega
      by_cases partly : first < order.remainingQuantity
      · have short := UInt64.lt_iff_toNat_lt.mp partly
        have kept := Word.toNat_sub_of_toNat_le (Nat.le_of_lt short)
        rw [leftover, leftover, if_neg some, if_neg none, if_pos partly, leftover]
        by_cases nothing : second = 0
        · rw [if_pos nothing, nothing, UInt64.add_zero, if_pos partly]
        · rw [if_neg nothing]
          by_cases again : second < order.remainingQuantity - first
          · have inside := UInt64.lt_iff_toNat_lt.mp again
            have within : first + second < order.remainingQuantity := by
              rw [UInt64.lt_iff_toNat_lt]
              omega
            have same : order.remainingQuantity - (first + second) =
                order.remainingQuantity - first - second := by
              apply Word.eq_of_toNat
              rw [Word.toNat_sub_of_toNat_le (by omega), Word.toNat_sub_of_toNat_le (by omega)]
              omega
            rw [if_pos within, OrderNodeSpec.withRemaining_remainingQuantity, if_pos again, same]
            rfl
          · have covers := again
            rw [UInt64.lt_iff_toNat_lt, Nat.not_lt] at covers
            have beyond : ¬first + second < order.remainingQuantity := by
              rw [UInt64.lt_iff_toNat_lt]
              omega
            rw [if_neg beyond, OrderNodeSpec.withRemaining_remainingQuantity, if_neg again,
              sub_add_eq short fits (by omega)]
      · have covers := partly
        rw [UInt64.lt_iff_toNat_lt, Nat.not_lt] at covers
        have less := Word.toNat_sub_of_toNat_le covers
        have beyond : ¬first + second < order.remainingQuantity := by
          rw [UInt64.lt_iff_toNat_lt]
          omega
        rw [leftover, leftover, if_neg some, if_neg none, if_neg partly, if_neg beyond,
          add_sub_eq covers fits]
        exact ih (by omega)

/-- Taking in two parts takes the same from each order. -/
theorem perOrder_fillQueue_add (orders : List OrderNodeSpec)
    (fits : first.toNat + second.toNat < 2 ^ 64) :
    perOrder ((fillQueue first orders).map Fill.taking ++
        (fillQueue second (leftover first orders)).map Fill.taking) =
      perOrder ((fillQueue (first + second) orders).map Fill.taking) := by
  induction orders generalizing first with
  | nil => rfl
  | cons order rest ih =>
    have whole := Word.toNat_add_of_fits fits
    by_cases none : first = 0
    · rw [none, UInt64.zero_add, leftover_zero, fillQueue_zero, List.map_nil, List.nil_append]
    · have some : first + second ≠ 0 := by
        have positive := Word.toNat_pos none
        rw [ne_eq, Word.eq_zero_iff]
        omega
      rw [fillQueue, if_neg none, fillQueue, if_neg some, leftover, if_neg none, List.map_cons,
        List.map_cons, List.cons_append, perOrder, perOrder]
      by_cases partly : first < order.remainingQuantity
      · have short := UInt64.lt_iff_toNat_lt.mp partly
        have kept := Word.toNat_sub_of_toNat_le (Nat.le_of_lt short)
        have spent : first - min first order.remainingQuantity = 0 := by
          rw [Word.eq_zero_iff, Word.toNat_sub_min]
          omega
        rw [if_pos partly, spent, fillQueue_zero, List.map_nil, List.nil_append]
        by_cases nothing : second = 0
        · rw [nothing, UInt64.add_zero, spent, fillQueue_zero, fillQueue_zero, List.map_nil]
        · have later : first + second - min (first + second) order.remainingQuantity =
              second - min second (order.remainingQuantity - first) := by
            apply Word.eq_of_toNat
            rw [Word.toNat_sub_min, Word.toNat_sub_min]
            omega
          have together : (min first order.remainingQuantity).toNat +
              (min second (order.remainingQuantity - first)).toNat =
              (min (first + second) order.remainingQuantity).toNat := by
            rw [Word.toNat_min, Word.toNat_min, Word.toNat_min]
            omega
          rw [fillQueue, if_neg nothing, List.map_cons, perOrder,
            OrderNodeSpec.withRemaining_remainingQuantity, later]
          simp only [Fill.taking]
          rw [← together]
          exact meld_meld _ _ _ _ _
      · have covers := partly
        rw [UInt64.lt_iff_toNat_lt, Nat.not_lt] at covers
        have less := Word.toNat_sub_of_toNat_le covers
        have beyond : ¬first + second < order.remainingQuantity := by
          rw [UInt64.lt_iff_toNat_lt]
          omega
        have same : min first order.remainingQuantity =
            min (first + second) order.remainingQuantity := by
          apply Word.eq_of_toNat
          rw [Word.toNat_min, Word.toNat_min]
          omega
        rw [if_neg partly, sub_min_of_le partly, sub_min_of_le beyond, add_sub_eq covers fits,
          ← ih (by omega)]
        simp only [Fill.taking, same]

/-- Sweeping in two parts leaves the same side. -/
theorem sweep_add {crosses : PriceTicks → Bool} (levels : Levels)
    (nonempty : ∀ price queue, (price, queue) ∈ levels → queue ≠ [])
    (fits : first.toNat + second.toNat < 2 ^ 64) :
    sweep crosses (first + second) levels = sweep crosses second (sweep crosses first levels) := by
  induction levels generalizing first with
  | nil => rfl
  | cons entry rest ih =>
    obtain ⟨price, queue⟩ := entry
    have others : ∀ price queue, (price, queue) ∈ rest → queue ≠ [] :=
      fun price queue member => nonempty price queue (List.mem_cons_of_mem _ member)
    cases reached : crosses price with
    | false =>
      simp only [sweep, reached, Bool.false_eq_true, ↓reduceIte]
    | true =>
      by_cases taken : leftover first queue = []
      · have whole : leftover (first + second) queue = [] := by
          rw [leftover_add queue fits, taken]
          rfl
        rw [sweep, if_pos reached, if_pos whole, residual_add_of_none fits taken,
          ih others (residual_fits queue fits)]
        congr 1
        rw [sweep, if_pos reached, if_pos taken]
      · have front : sweep crosses first ((price, queue) :: rest) =
            (price, leftover first queue) :: rest := by
          rw [sweep, if_pos reached, if_neg taken]
        rw [front, sweep, sweep, if_pos reached, if_pos reached, leftover_add queue fits,
          residual_add_of_left fits taken]

end Orders

end AtlasLob
