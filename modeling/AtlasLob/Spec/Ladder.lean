import AtlasLob.Core.InstrumentBook
import AtlasLob.Spec.Queue

/-!
# The abstract book

A ladder is what one instrument's book stands for: two lists of queues under their prices, best
price first. Orders change in two ways only. A revision shrinks or drops orders where they stand
and closes the levels it empties; a join puts one order behind everything at its price.
-/

namespace AtlasLob

open PriceLevel

/-- The other of the two sides is one of them. -/
theorem Side.opposite_known {side : Side} (known : side = .buy ∨ side = .sell) :
    side.opposite = .buy ∨ side.opposite = .sell := by
  rcases known with rfl | rfl
  · exact Or.inr rfl
  · exact Or.inl rfl

/-- The two sides differ. -/
theorem Side.opposite_ne {side : Side} (known : side = .buy ∨ side = .sell) :
    side.opposite ≠ side := by
  rcases known with rfl | rfl <;> decide

/-- Best price first is a strict order on either side. -/
theorem bestPriceFirst_strictOrder (side : Side) :
    SortedMap.StrictOrder (bestPriceFirst side) where
  irrefl price := by
    by_cases buy : side = .buy <;> simp [bestPriceFirst, buy]
  trans := by
    intro first second third early late
    by_cases buy : side = .buy <;> simp only [bestPriceFirst, buy, ↓reduceIte] at * <;> grind
  total := by
    intro left right apart unordered
    by_cases buy : side = .buy <;> simp only [bestPriceFirst, buy, ↓reduceIte] at * <;> grind

/-- One side: queues under their prices, best price first. -/
abbrev Levels := List (PriceTicks × List OrderNodeSpec)

/-- Orders are dropped, kept or reduced, and nothing else about them changes. -/
def Shrinks (change : OrderNodeSpec → Option OrderNodeSpec) : Prop :=
  ∀ order image, change order = some image → ∃ remaining, image = order.withRemaining remaining ∧
    (order.remainingQuantity ≠ 0 → remaining ≠ 0) ∧
      remaining.toNat ≤ order.remainingQuantity.toNat

namespace Shrinks

variable {change : OrderNodeSpec → Option OrderNodeSpec}

/-- A shrunk order keeps its identity. -/
theorem orderId_eq (shrinks : Shrinks change) {order image : OrderNodeSpec}
    (kept : change order = some image) : image.orderId = order.orderId := by
  obtain ⟨remaining, rfl, -⟩ := shrinks order image kept
  rfl

/-- Shrinking keeps some of the order IDs, in order. -/
theorem ids_sublist (shrinks : Shrinks change) (orders : List OrderNodeSpec) :
    (ids (orders.filterMap change)).Sublist (ids orders) := by
  induction orders with
  | nil => simp [ids]
  | cons order rest ih =>
    cases kept : change order with
    | none => simpa [ids, kept] using ih.cons order.orderId
    | some image => simpa [ids, kept, shrinks.orderId_eq kept] using ih

/-- Shrinking does not add units. -/
theorem total_le (shrinks : Shrinks change) (orders : List OrderNodeSpec) :
    total (orders.filterMap change) ≤ total orders := by
  induction orders with
  | nil => simp
  | cons order rest ih =>
    cases kept : change order with
    | none =>
      rw [List.filterMap_cons_none kept, total_cons]
      omega
    | some image =>
      obtain ⟨remaining, rfl, -, smaller⟩ := shrinks order image kept
      rw [List.filterMap_cons_some kept, total_cons, total_cons,
        OrderNodeSpec.withRemaining_remainingQuantity]
      omega

/-- A shrunk queue is a queue. -/
theorem queue (shrinks : Shrinks change) {price : PriceTicks} {orders : List OrderNodeSpec}
    (queue : Queue price orders) : Queue price (orders.filterMap change) where
  positive := queue.positive
  priced image member := by
    obtain ⟨order, inside, kept⟩ := List.mem_filterMap.mp member
    obtain ⟨remaining, rfl, -⟩ := shrinks order image kept
    exact queue.priced order inside
  unfilled image member := by
    obtain ⟨order, inside, kept⟩ := List.mem_filterMap.mp member
    obtain ⟨remaining, rfl, positive, -⟩ := shrinks order image kept
    exact positive (queue.unfilled order inside)
  issued image member := by
    obtain ⟨order, inside, kept⟩ := List.mem_filterMap.mp member
    obtain ⟨remaining, rfl, -⟩ := shrinks order image kept
    exact queue.issued order inside
  increasing := by
    rw [List.pairwise_filterMap]
    refine queue.increasing.imp fun {first second} earlier image kept other keptOther => ?_
    obtain ⟨_, rfl, -⟩ := shrinks first image kept
    obtain ⟨_, rfl, -⟩ := shrinks second other keptOther
    exact earlier
  fits := Nat.lt_of_le_of_lt (shrinks.total_le orders) queue.fits

end Shrinks

namespace Levels

/-- The orders of a side in matching order. -/
def orders (levels : Levels) : List OrderNodeSpec := levels.flatMap Prod.snd

/-- One level after a revision, if anything is left of it. -/
def reviseEntry (change : OrderNodeSpec → Option OrderNodeSpec)
    (entry : PriceTicks × List OrderNodeSpec) : Option (PriceTicks × List OrderNodeSpec) :=
  if entry.2.filterMap change = [] then none else some (entry.1, entry.2.filterMap change)

/-- Rewrite or drop every order where it stands and close the levels left empty. -/
def revise (change : OrderNodeSpec → Option OrderNodeSpec) (levels : Levels) : Levels :=
  levels.filterMap (reviseEntry change)

/-- Put an order behind everything at its price. -/
def join (side : Side) (order : OrderNodeSpec) (levels : Levels) : Levels :=
  match SortedMap.find? order.price levels with
  | some queue => SortedMap.set order.price (queue ++ [order]) levels
  | none => SortedMap.insert (bestPriceFirst side) order.price [order] levels

/-- A well-formed side of an instrument. -/
structure Valid (side : Side) (instrument : InstrumentId) (levels : Levels) : Prop where
  /-- Best price first, without repetition. -/
  sorted : SortedMap.Sorted (bestPriceFirst side) levels
  /-- Every level is a queue of its price. -/
  queue : ∀ price queue, (price, queue) ∈ levels → Queue price queue
  /-- No level is empty. -/
  nonempty : ∀ price queue, (price, queue) ∈ levels → queue ≠ []
  /-- Every order belongs to this side. -/
  sided : ∀ order ∈ levels.orders, order.side = side
  /-- Every order belongs to this instrument. -/
  routed : ∀ order ∈ levels.orders, order.instrumentId = instrument
  /-- Every order is named. -/
  named : ∀ order ∈ levels.orders, order.orderId ≠ 0
  /-- Every order has an owner. -/
  owned : ∀ order ∈ levels.orders, order.clientId ≠ 0

@[simp] theorem orders_nil : orders [] = [] := rfl

@[simp] theorem orders_cons (entry : PriceTicks × List OrderNodeSpec) (rest : Levels) :
    orders (entry :: rest) = entry.2 ++ orders rest := by
  simp [orders]

@[simp] theorem orders_append (front back : Levels) :
    orders (front ++ back) = orders front ++ orders back := by
  simp [orders]

/-- An order of a level is an order of the side. -/
theorem mem_orders {levels : Levels} {order : OrderNodeSpec} :
    order ∈ levels.orders ↔ ∃ price queue, (price, queue) ∈ levels ∧ order ∈ queue := by
  simp [orders]

/-- The orders of a revision. -/
theorem orders_revise (change : OrderNodeSpec → Option OrderNodeSpec) (levels : Levels) :
    (levels.revise change).orders = levels.orders.filterMap change := by
  induction levels with
  | nil => rfl
  | cons entry rest ih =>
    rw [orders_cons, List.filterMap_append, ← ih, revise, List.filterMap_cons]
    by_cases emptied : entry.2.filterMap change = []
    · simp [reviseEntry, emptied, revise]
    · simp [reviseEntry, emptied, revise]

/-- Two revisions in a row are one. -/
theorem revise_revise (first second : OrderNodeSpec → Option OrderNodeSpec) (levels : Levels) :
    (levels.revise first).revise second = levels.revise fun order => (first order).bind second := by
  rw [revise, revise, List.filterMap_filterMap, revise]
  refine List.filterMap_congr fun entry _ => ?_
  have both : (entry.2.filterMap first).filterMap second =
      entry.2.filterMap fun order => (first order).bind second := List.filterMap_filterMap
  by_cases emptied : entry.2.filterMap first = []
  · rw [emptied, List.filterMap_nil] at both
    simp [reviseEntry, emptied, ← both]
  · simp [reviseEntry, emptied, both]

/-- Revisions that agree on the orders of a side agree. -/
theorem revise_congr {first second : OrderNodeSpec → Option OrderNodeSpec} {levels : Levels}
    (agree : ∀ order ∈ levels.orders, first order = second order) :
    levels.revise first = levels.revise second := by
  refine List.filterMap_congr fun entry member => ?_
  have same : entry.2.filterMap first = entry.2.filterMap second :=
    List.filterMap_congr fun order inside =>
      agree order (mem_orders.mpr ⟨entry.1, entry.2, member, inside⟩)
  rw [reviseEntry, reviseEntry, same]

/-- Keeping every order of nonempty levels changes nothing. -/
theorem revise_of_fixed {change : OrderNodeSpec → Option OrderNodeSpec} {levels : Levels}
    (nonempty : ∀ price queue, (price, queue) ∈ levels → queue ≠ [])
    (fixed : ∀ order ∈ levels.orders, change order = some order) :
    levels.revise change = levels := by
  rw [revise_congr fixed]
  have entryFixed : ∀ entry ∈ levels, reviseEntry some entry = some entry := by
    intro entry member
    rw [reviseEntry, List.filterMap_some, if_neg (nonempty entry.1 entry.2 member)]
  rw [revise, List.filterMap_congr entryFixed, List.filterMap_some]

@[simp] theorem revise_append (change : OrderNodeSpec → Option OrderNodeSpec)
    (front back : Levels) : (front ++ back).revise change = front.revise change ++
      back.revise change := by
  simp [revise]

/-- A revision closes levels and moves none. -/
theorem keys_revise_sublist (change : OrderNodeSpec → Option OrderNodeSpec) (levels : Levels) :
    (SortedMap.keys (levels.revise change)).Sublist (SortedMap.keys levels) := by
  induction levels with
  | nil => simp [revise]
  | cons entry rest ih =>
    rw [revise, List.filterMap_cons]
    by_cases emptied : entry.2.filterMap change = []
    · simpa [reviseEntry, emptied, revise] using ih.cons entry.1
    · simpa [reviseEntry, emptied, revise] using ih

/-- The levels of a revision. -/
theorem mem_revise {change : OrderNodeSpec → Option OrderNodeSpec} {levels : Levels}
    {price : PriceTicks} {queue : List OrderNodeSpec} :
    (price, queue) ∈ levels.revise change ↔
      ∃ before, (price, before) ∈ levels ∧ queue = before.filterMap change ∧ queue ≠ [] := by
  simp only [revise, List.mem_filterMap, reviseEntry, Prod.exists, Option.ite_none_left_eq_some,
    Option.some.injEq, Prod.mk.injEq]
  constructor
  · rintro ⟨_, before, member, kept, rfl, rfl⟩
    exact ⟨before, member, rfl, kept⟩
  · rintro ⟨before, member, rfl, kept⟩
    exact ⟨price, before, member, kept, rfl, rfl⟩

/-- A shrinking revision keeps a side well formed. -/
theorem Valid.revise {side : Side} {instrument : InstrumentId} {levels : Levels}
    {change : OrderNodeSpec → Option OrderNodeSpec} (valid : Valid side instrument levels)
    (shrinks : Shrinks change) : Valid side instrument (levels.revise change) where
  sorted := List.Pairwise.sublist (keys_revise_sublist change levels) valid.sorted
  queue price queue member := by
    obtain ⟨before, inside, rfl, -⟩ := mem_revise.mp member
    exact shrinks.queue (valid.queue price before inside)
  nonempty price queue member := by
    obtain ⟨-, -, -, kept⟩ := mem_revise.mp member
    exact kept
  sided image member := by
    rw [orders_revise] at member
    obtain ⟨order, inside, kept⟩ := List.mem_filterMap.mp member
    obtain ⟨_, rfl, -⟩ := shrinks order image kept
    exact valid.sided order inside
  routed image member := by
    rw [orders_revise] at member
    obtain ⟨order, inside, kept⟩ := List.mem_filterMap.mp member
    obtain ⟨_, rfl, -⟩ := shrinks order image kept
    exact valid.routed order inside
  named image member := by
    rw [orders_revise] at member
    obtain ⟨order, inside, kept⟩ := List.mem_filterMap.mp member
    obtain ⟨_, rfl, -⟩ := shrinks order image kept
    exact valid.named order inside
  owned image member := by
    rw [orders_revise] at member
    obtain ⟨order, inside, kept⟩ := List.mem_filterMap.mp member
    obtain ⟨_, rfl, -⟩ := shrinks order image kept
    exact valid.owned order inside

/-- The empty side is well formed. -/
theorem Valid.nil (side : Side) (instrument : InstrumentId) : Valid side instrument [] where
  sorted := List.Pairwise.nil
  queue := by simp
  nonempty := by simp
  sided := by simp
  routed := by simp
  named := by simp
  owned := by simp

/-- The orders after a join. -/
theorem orders_join_perm (side : Side) (order : OrderNodeSpec) (levels : Levels) :
    (levels.join side order).orders.Perm (order :: levels.orders) := by
  rw [join]
  split
  · next queue found =>
    obtain ⟨front, back, rfl, absent⟩ := SortedMap.find?_split found
    rw [SortedMap.set_append _ absent]
    simp only [orders_append, orders_cons, List.append_assoc, List.singleton_append]
    have inner : (queue ++ order :: orders back).Perm (order :: (queue ++ orders back)) :=
      List.perm_middle
    exact (inner.append_left _).trans List.perm_middle
  · obtain ⟨front, back, rfl, inserted⟩ :=
      SortedMap.insert_split (bestPriceFirst side) order.price [order] levels
    rw [inserted]
    simp

/-- The queue an order joins. -/
def queueAt (levels : Levels) (price : PriceTicks) : List OrderNodeSpec :=
  (SortedMap.find? price levels).getD []

/-- The levels after a join: the joined queue and the levels at other prices. -/
theorem mem_join {side : Side} {order : OrderNodeSpec} {levels : Levels}
    {price : PriceTicks} {queue : List OrderNodeSpec}
    (member : (price, queue) ∈ levels.join side order) :
    (price = order.price ∧ queue = levels.queueAt order.price ++ [order]) ∨
      (price, queue) ∈ levels := by
  rw [join] at member
  split at member
  · next held found =>
    obtain ⟨front, back, rfl, absent⟩ := SortedMap.find?_split found
    rw [SortedMap.set_append _ absent] at member
    simp only [List.mem_append, List.mem_cons, Prod.mk.injEq] at member ⊢
    rcases member with early | ⟨rfl, rfl⟩ | late
    · exact Or.inr (Or.inl early)
    · exact Or.inl ⟨rfl, by rw [queueAt, found, Option.getD_some]⟩
    · exact Or.inr (Or.inr (Or.inr late))
  · next absent =>
    rcases SortedMap.mem_insert.mp member with fresh | old
    · rw [Prod.mk.injEq] at fresh
      exact Or.inl ⟨fresh.1, by rw [fresh.2, queueAt, absent]; rfl⟩
    · exact Or.inr old

/-- The prices after a join. -/
theorem mem_keys_join {side : Side} {order : OrderNodeSpec} {levels : Levels} {price : PriceTicks} :
    price ∈ SortedMap.keys (levels.join side order) ↔
      price = order.price ∨ price ∈ SortedMap.keys levels := by
  rw [join]
  split
  · next held found =>
    rw [SortedMap.keys_set]
    refine ⟨Or.inr, ?_⟩
    rintro (rfl | member)
    · exact SortedMap.mem_keys (SortedMap.mem_of_find? found)
    · exact member
  · exact SortedMap.mem_keys_insert

/-- What an order must bring to join a side. -/
structure Joins (side : Side) (instrument : InstrumentId) (levels : Levels)
    (order : OrderNodeSpec) : Prop where
  /-- Behind the queue at its price it still is a queue. -/
  queue : Queue order.price (levels.queueAt order.price ++ [order])
  sided : order.side = side
  routed : order.instrumentId = instrument
  named : order.orderId ≠ 0
  owned : order.clientId ≠ 0

/-- A join keeps a side well formed. -/
theorem Valid.join {side : Side} {instrument : InstrumentId} {levels : Levels}
    {order : OrderNodeSpec} (precedence : SortedMap.StrictOrder (bestPriceFirst side))
    (valid : Valid side instrument levels) (joins : Joins side instrument levels order) :
    Valid side instrument (levels.join side order) := by
  have members :
      ∀ other ∈ (levels.join side order).orders, other = order ∨ other ∈ levels.orders := by
    intro other member
    simpa using (orders_join_perm side order levels).mem_iff.mp member
  refine ⟨?_, ?_, ?_, ?_, ?_, ?_, ?_⟩
  · rw [Levels.join]
    split
    · exact valid.sorted.set _ _
    · next absent => exact valid.sorted.insert precedence _ (SortedMap.find?_eq_none.mp absent)
  · intro price queue member
    rcases mem_join member with ⟨rfl, rfl⟩ | old
    · exact joins.queue
    · exact valid.queue price queue old
  · intro price queue member
    rcases mem_join member with ⟨rfl, rfl⟩ | old
    · simp
    · exact valid.nonempty price queue old
  · intro other member
    rcases members other member with rfl | old
    · exact joins.sided
    · exact valid.sided other old
  · intro other member
    rcases members other member with rfl | old
    · exact joins.routed
    · exact valid.routed other old
  · intro other member
    rcases members other member with rfl | old
    · exact joins.named
    · exact valid.named other old
  · intro other member
    rcases members other member with rfl | old
    · exact joins.owned
    · exact valid.owned other old

/-- A revision that touches one order acts on that order's level alone. -/
theorem revise_at {change : OrderNodeSpec → Option OrderNodeSpec} {front back : Levels}
    {price : PriceTicks} {before behind : List OrderNodeSpec} {order : OrderNodeSpec}
    (nonempty : ∀ key queue, (key, queue) ∈ front ++ (price, before ++ order :: behind) :: back →
      queue ≠ [])
    (fixed : ∀ other ∈ orders front ++ before ++ behind ++ orders back, change other = some other) :
    Levels.revise change (front ++ (price, before ++ order :: behind) :: back) =
      front ++ (reviseEntry change (price, before ++ order :: behind)).toList ++ back := by
  have keptFront : Levels.revise change front = front := by
    refine revise_of_fixed (fun price queue member => nonempty price queue ?_)
      fun other member => fixed other ?_
    · simp [member]
    · simp [member]
  have keptBack : Levels.revise change back = back := by
    refine revise_of_fixed (fun price queue member => nonempty price queue ?_)
      fun other member => fixed other ?_
    · simp [member]
    · simp [member]
  rw [revise_append, keptFront, List.append_assoc, revise, List.filterMap_cons]
  rw [revise] at keptBack
  cases reviseEntry change (price, before ++ order :: behind) with
  | none => simp [keptBack]
  | some entry => simp [keptBack]

/-- A level in a list of levels, left out when it is empty. -/
def entry (price : PriceTicks) (queue : List OrderNodeSpec) : Levels :=
  if queue = [] then [] else [(price, queue)]

/-- A revised level. -/
theorem reviseEntry_toList (change : OrderNodeSpec → Option OrderNodeSpec)
    (price : PriceTicks) (queue : List OrderNodeSpec) :
    (reviseEntry change (price, queue)).toList =
      entry price (queue.filterMap change) := by
  by_cases emptied : queue.filterMap change = [] <;>
    simp [reviseEntry, entry, emptied]

@[simp] theorem orders_entry (price : PriceTicks) (queue : List OrderNodeSpec) :
    (entry price queue).orders = queue := by
  by_cases emptied : queue = [] <;> simp [entry, emptied]

/-- A nonempty level is in the list. -/
theorem entry_of_ne (price : PriceTicks) {queue : List OrderNodeSpec} (nonempty : queue ≠ []) :
    entry price queue = [(price, queue)] := by
  rw [entry, if_neg nonempty]

/-- A join changes one level, or opens it. -/
theorem join_split (side : Side) {levels : Levels} (order : OrderNodeSpec)
    (nonempty : ∀ price queue, (price, queue) ∈ levels → queue ≠ []) :
    ∃ front back, levels = front ++ entry order.price (levels.queueAt order.price) ++ back ∧
      levels.join side order =
        front ++ entry order.price (levels.queueAt order.price ++ [order]) ++ back := by
  rw [join, queueAt]
  cases found : SortedMap.find? order.price levels with
  | none =>
    obtain ⟨front, back, split, inserted⟩ :=
      SortedMap.insert_split (bestPriceFirst side) order.price [order] levels
    refine ⟨front, back, ?_, ?_⟩
    · simpa [entry] using split
    · simp [entry, inserted]
  | some queue =>
    obtain ⟨front, back, split, absent⟩ := SortedMap.find?_split found
    have filled := nonempty _ _ (SortedMap.mem_of_find? found)
    refine ⟨front, back, ?_, ?_⟩
    · simpa [entry, filled] using split
    · simp [entry, split, SortedMap.set_append _ absent]

/-- The queue of a level that stands alone in its side. -/
theorem queueAt_entry {front back : Levels} {price : PriceTicks} (queue : List OrderNodeSpec)
    (early : price ∉ SortedMap.keys front) (late : price ∉ SortedMap.keys back) :
    queueAt (front ++ entry price queue ++ back) price = queue := by
  rw [queueAt, SortedMap.find?_append_or, SortedMap.find?_append_or,
    SortedMap.find?_eq_none.mpr early, SortedMap.find?_eq_none.mpr late]
  by_cases emptied : queue = [] <;> simp [entry, emptied, SortedMap.find?]

/-- The queues at other prices do not depend on a level. -/
theorem queueAt_other {front back : Levels} {price other : PriceTicks} (apart : other ≠ price)
    (queue image : List OrderNodeSpec) :
    queueAt (front ++ entry price queue ++ back) other =
      queueAt (front ++ entry price image ++ back) other := by
  have missing : ∀ orders, SortedMap.find? other (entry price orders) = none := by
    intro orders
    by_cases emptied : orders = [] <;> simp [entry, emptied, SortedMap.find?, apart.symm]
  simp only [queueAt, SortedMap.find?_append_or, missing]

end Levels

/-- What one instrument's book stands for. -/
structure Ladder where
  bids : Levels
  asks : Levels
  deriving DecidableEq

namespace Ladder

/-- The empty ladder. -/
def empty : Ladder := ⟨[], []⟩

/-- One side. -/
def side (ladder : Ladder) (side : Side) : Levels :=
  if side = .buy then ladder.bids else ladder.asks

/-- Replace one side. -/
def setSide (ladder : Ladder) (side : Side) (levels : Levels) : Ladder :=
  if side = .buy then { ladder with bids := levels } else { ladder with asks := levels }

/-- Every resting order. -/
def orders (ladder : Ladder) : List OrderNodeSpec := ladder.bids.orders ++ ladder.asks.orders

/-- The resting order of an ID. -/
def find (ladder : Ladder) (orderId : OrderId) : Option OrderNodeSpec :=
  ladder.orders.find? fun order => order.orderId = orderId

/-- Rewrite or drop orders where they stand. -/
def revise (change : OrderNodeSpec → Option OrderNodeSpec) (ladder : Ladder) : Ladder :=
  ⟨ladder.bids.revise change, ladder.asks.revise change⟩

/-- Put an order behind everything at its price on its side. -/
def join (order : OrderNodeSpec) (ladder : Ladder) : Ladder :=
  ladder.setSide order.side ((ladder.side order.side).join order.side order)

/-- A well-formed book of an instrument. -/
structure Valid (instrument : InstrumentId) (ladder : Ladder) : Prop where
  /-- The instrument is named. -/
  named : instrument ≠ 0
  bids : ladder.bids.Valid .buy instrument
  asks : ladder.asks.Valid .sell instrument
  /-- No order ID occurs twice. -/
  distinct : (ids ladder.orders).Nodup
  /-- Every bid is below every ask. -/
  uncrossed : ∀ bid ∈ SortedMap.keys ladder.bids, ∀ ask ∈ SortedMap.keys ladder.asks, bid < ask

@[simp] theorem side_buy (ladder : Ladder) : ladder.side .buy = ladder.bids := rfl

@[simp] theorem side_sell (ladder : Ladder) : ladder.side .sell = ladder.asks := rfl

@[simp] theorem setSide_buy (ladder : Ladder) (levels : Levels) :
    ladder.setSide .buy levels = ⟨levels, ladder.asks⟩ := rfl

@[simp] theorem setSide_sell (ladder : Ladder) (levels : Levels) :
    ladder.setSide .sell levels = ⟨ladder.bids, levels⟩ := rfl

/-- A replaced side is what it was replaced by. -/
@[simp] theorem side_setSide (ladder : Ladder) (side : Side) (levels : Levels) :
    (ladder.setSide side levels).side side = levels := by
  by_cases buy : side = .buy <;> simp [Ladder.side, setSide, buy]

/-- The other side stays. -/
@[simp] theorem side_opposite_setSide (ladder : Ladder) (side : Side) (levels : Levels) :
    (ladder.setSide side levels).side side.opposite = ladder.side side.opposite := by
  have apart : Side.sell ≠ Side.buy := by decide
  by_cases buy : side = .buy <;> simp [Ladder.side, setSide, Side.opposite, buy, apart]

@[simp] theorem side_revise (change : OrderNodeSpec → Option OrderNodeSpec) (ladder : Ladder)
    (side : Side) : (ladder.revise change).side side = (ladder.side side).revise change := by
  by_cases buy : side = .buy <;> simp [Ladder.side, revise, buy]

/-- The orders of a revision. -/
theorem orders_revise (change : OrderNodeSpec → Option OrderNodeSpec) (ladder : Ladder) :
    (ladder.revise change).orders = ladder.orders.filterMap change := by
  rw [orders, orders, List.filterMap_append, revise, Levels.orders_revise, Levels.orders_revise]

/-- The orders of a ladder are those of its two sides. -/
theorem orders_perm (ladder : Ladder) (side : Side) :
    ladder.orders.Perm ((ladder.side side).orders ++ (ladder.side side.opposite).orders) := by
  by_cases buy : side = .buy
  · subst buy
    exact List.Perm.refl _
  · simp only [Ladder.side, Side.opposite, buy, ↓reduceIte]
    exact List.perm_append_comm

/-- The orders of a ladder after one side changed. -/
theorem orders_setSide_perm (ladder : Ladder) (side : Side) (levels : Levels) :
    (ladder.setSide side levels).orders.Perm
      (levels.orders ++ (ladder.side side.opposite).orders) := by
  simpa using (ladder.setSide side levels).orders_perm side

/-- The orders after a join. -/
theorem orders_join_perm (order : OrderNodeSpec) (ladder : Ladder) :
    (ladder.join order).orders.Perm (order :: ladder.orders) := by
  have joined := Levels.orders_join_perm order.side order (ladder.side order.side)
  refine (ladder.orders_setSide_perm order.side _).trans ?_
  refine (joined.append_right _).trans ?_
  exact (ladder.orders_perm order.side).symm.cons order

/-- The same orders have the same IDs. -/
theorem ids_perm {left right : List OrderNodeSpec} (same : left.Perm right) :
    (ids left).Perm (ids right) := same.map _

namespace Valid

variable {instrument : InstrumentId} {ladder : Ladder} {order : OrderNodeSpec}

/-- The empty ladder is well formed. -/
theorem empty (named : instrument ≠ 0) : Ladder.empty.Valid instrument where
  named := named
  bids := Levels.Valid.nil _ _
  asks := Levels.Valid.nil _ _
  distinct := by simp [Ladder.orders, Ladder.empty, ids]
  uncrossed := by simp [Ladder.empty]

/-- Either side is well formed. -/
theorem side (valid : ladder.Valid instrument) {side : Side} (known : side = .buy ∨ side = .sell) :
    (ladder.side side).Valid side instrument := by
  rcases known with rfl | rfl
  · exact valid.bids
  · exact valid.asks

/-- Every resting order stands on one of the two sides. -/
theorem sided (valid : ladder.Valid instrument) (member : order ∈ ladder.orders) :
    order.side = .buy ∨ order.side = .sell := by
  rcases List.mem_append.mp member with bid | ask
  · exact Or.inl (valid.bids.sided order bid)
  · exact Or.inr (valid.asks.sided order ask)

/-- Every resting order stands on its own side. -/
theorem mem_side (valid : ladder.Valid instrument) (member : order ∈ ladder.orders) :
    order ∈ (ladder.side order.side).orders := by
  rcases List.mem_append.mp member with bid | ask
  · rw [valid.bids.sided order bid]
    exact bid
  · rw [valid.asks.sided order ask]
    exact ask

/-- What holds of the orders of both sides holds of every resting order. -/
theorem named_order (valid : ladder.Valid instrument) (member : order ∈ ladder.orders) :
    order.orderId ≠ 0 :=
  (valid.side (valid.sided member)).named order (valid.mem_side member)

theorem owned_order (valid : ladder.Valid instrument) (member : order ∈ ladder.orders) :
    order.clientId ≠ 0 :=
  (valid.side (valid.sided member)).owned order (valid.mem_side member)

theorem routed_order (valid : ladder.Valid instrument) (member : order ∈ ladder.orders) :
    order.instrumentId = instrument :=
  (valid.side (valid.sided member)).routed order (valid.mem_side member)

/-- Two resting orders with one ID are one order. -/
theorem eq_of_orderId (valid : ladder.Valid instrument) {other : OrderNodeSpec}
    (member : order ∈ ladder.orders) (otherMember : other ∈ ladder.orders)
    (same : order.orderId = other.orderId) : order = other :=
  List.inj_on_of_nodup_map valid.distinct member otherMember same

/-- A lookup finds the resting order of its ID. -/
theorem find_eq_some_iff (valid : ladder.Valid instrument) {orderId : OrderId} :
    ladder.find orderId = some order ↔ order ∈ ladder.orders ∧ order.orderId = orderId := by
  constructor
  · intro found
    exact ⟨List.mem_of_find?_eq_some found, by simpa using List.find?_some found⟩
  · rintro ⟨member, rfl⟩
    rw [Ladder.find]
    cases found : ladder.orders.find? fun other => other.orderId = order.orderId with
    | none => simpa using List.find?_eq_none.mp found order member
    | some other =>
      have same : other.orderId = order.orderId := by simpa using List.find?_some found
      rw [valid.eq_of_orderId (List.mem_of_find?_eq_some found) member same]

/-- Where a resting order stands. -/
theorem locate (valid : ladder.Valid instrument) (member : order ∈ ladder.orders) :
    ∃ front before behind back,
      ladder.side order.side = front ++ (order.price, before ++ order :: behind) :: back := by
  obtain ⟨price, queue, level, inside⟩ := Levels.mem_orders.mp (valid.mem_side member)
  have priced := ((valid.side (valid.sided member)).queue price queue level).priced order inside
  obtain ⟨front, back, split⟩ := List.append_of_mem level
  obtain ⟨before, behind, rfl⟩ := List.append_of_mem inside
  rw [← priced] at split
  exact ⟨front, before, behind, back, split⟩

/-- A shrinking revision keeps a ladder well formed. -/
theorem revise (valid : ladder.Valid instrument) {change : OrderNodeSpec → Option OrderNodeSpec}
    (shrinks : Shrinks change) : (ladder.revise change).Valid instrument where
  named := valid.named
  bids := valid.bids.revise shrinks
  asks := valid.asks.revise shrinks
  distinct := by
    rw [orders_revise]
    exact valid.distinct.sublist (shrinks.ids_sublist ladder.orders)
  uncrossed bid bidKey ask askKey :=
    valid.uncrossed bid ((Levels.keys_revise_sublist change ladder.bids).subset bidKey)
      ask ((Levels.keys_revise_sublist change ladder.asks).subset askKey)

end Valid

/-- Keeping every order changes nothing. -/
theorem Valid.revise_of_fixed {instrument : InstrumentId} {ladder : Ladder}
    (valid : ladder.Valid instrument) {change : OrderNodeSpec → Option OrderNodeSpec}
    (fixed : ∀ order ∈ ladder.orders, change order = some order) :
    ladder.revise change = ladder := by
  have bids : ladder.bids.revise change = ladder.bids :=
    Levels.revise_of_fixed valid.bids.nonempty fun order member =>
      fixed order (List.mem_append_left _ member)
  have asks : ladder.asks.revise change = ladder.asks :=
    Levels.revise_of_fixed valid.asks.nonempty fun order member =>
      fixed order (List.mem_append_right _ member)
  rw [Ladder.revise, bids, asks]

/-- Two revisions in a row are one. -/
theorem revise_revise (first second : OrderNodeSpec → Option OrderNodeSpec) (ladder : Ladder) :
    (ladder.revise first).revise second =
      ladder.revise fun order => (first order).bind second := by
  rw [revise, revise, revise, Levels.revise_revise, Levels.revise_revise]

/-- A revision that touches one order acts on that order's level alone. -/
theorem Valid.revise_at {instrument : InstrumentId} {ladder : Ladder} {order : OrderNodeSpec}
    (valid : ladder.Valid instrument) (member : order ∈ ladder.orders)
    {change : OrderNodeSpec → Option OrderNodeSpec}
    (fixed : ∀ other, other.orderId ≠ order.orderId → change other = some other)
    {front back : Levels} {before behind : List OrderNodeSpec}
    (located : ladder.side order.side =
      front ++ (order.price, before ++ order :: behind) :: back) :
    ladder.revise change = ladder.setSide order.side
      (front ++ (Levels.reviseEntry change (order.price, before ++ order :: behind)).toList ++
        back) := by
  have known := valid.sided member
  have distinct := (ids_perm (ladder.orders_perm order.side)).nodup_iff.mp valid.distinct
  rw [located, ids, Levels.orders_append, Levels.orders_cons] at distinct
  simp only [List.map_append, List.map_cons, List.nodup_append, List.nodup_cons, List.mem_append,
    List.mem_cons, List.mem_map] at distinct
  have same : (ladder.side order.side).revise change =
      front ++ (Levels.reviseEntry change (order.price, before ++ order :: behind)).toList ++
        back := by
    rw [located]
    refine Levels.revise_at (fun price queue level => ?_) fun other inside => fixed other ?_
    · exact (valid.side known).nonempty price queue (by rw [located]; exact level)
    · simp only [List.mem_append] at inside
      grind
  have other : (ladder.side order.side.opposite).revise change =
      ladder.side order.side.opposite := by
    have opposite : order.side.opposite = .buy ∨ order.side.opposite = .sell := by
      rcases known with buy | sell
      · rw [buy]
        exact Or.inr rfl
      · rw [sell]
        exact Or.inl rfl
    refine Levels.revise_of_fixed (valid.side opposite).nonempty fun other inside => fixed other ?_
    grind
  rcases known with buy | sell
  · rw [buy] at same other ⊢
    rw [← same, setSide_buy, Ladder.revise, side_buy]
    exact congrArg _ other
  · rw [sell] at same other ⊢
    rw [← same, setSide_sell, Ladder.revise, side_sell]
    exact congrArg (Ladder.mk · _) other

/-- The order IDs of a ladder, level by level. -/
theorem mem_ids_located {ladder : Ladder} {side : Side} {front back : Levels}
    {price : PriceTicks} {queue : List OrderNodeSpec}
    (located : ladder.side side = front ++ Levels.entry price queue ++ back) {orderId : OrderId} :
    orderId ∈ ids ladder.orders ↔ orderId ∈ ids queue ∨
      orderId ∈ ids (front.orders ++ back.orders ++ (ladder.side side.opposite).orders) := by
  rw [(ids_perm (ladder.orders_perm side)).mem_iff, located]
  simp only [ids, Levels.orders_append, Levels.orders_entry, List.map_append, List.mem_append]
  tauto

/-- Orders of different levels have different IDs. -/
theorem Valid.apart {instrument : InstrumentId} {ladder : Ladder}
    (valid : ladder.Valid instrument) {side : Side} {front back : Levels} {price : PriceTicks}
    {queue : List OrderNodeSpec}
    (located : ladder.side side = front ++ Levels.entry price queue ++ back) {other : OrderNodeSpec}
    (outside : other ∈ front.orders ++ back.orders ++ (ladder.side side.opposite).orders) :
    other.orderId ∉ ids queue := by
  have distinct := (ids_perm (ladder.orders_perm side)).nodup_iff.mp valid.distinct
  rw [located] at distinct
  simp only [ids, Levels.orders_append, Levels.orders_entry, List.map_append, List.nodup_append,
    List.mem_append, List.mem_map] at distinct outside ⊢
  grind

/-- What an order must bring to join a ladder. -/
structure Admits (instrument : InstrumentId) (ladder : Ladder) (order : OrderNodeSpec) : Prop where
  joins : (ladder.side order.side).Joins order.side instrument order
  known : order.side = .buy ∨ order.side = .sell
  /-- Its ID rests nowhere else. -/
  fresh : order.orderId ∉ ids ladder.orders
  /-- It comes before every price of the other side. -/
  clears : ∀ price ∈ SortedMap.keys (ladder.side order.side.opposite),
    bestPriceFirst order.side.opposite order.price price = true

/-- A join keeps a ladder well formed. -/
theorem Valid.join {instrument : InstrumentId} {ladder : Ladder} {order : OrderNodeSpec}
    (valid : ladder.Valid instrument) (admits : ladder.Admits instrument order) :
    (ladder.join order).Valid instrument := by
  have joined := (valid.side admits.known).join (bestPriceFirst_strictOrder order.side) admits.joins
  have distinct : (ids (ladder.join order).orders).Nodup := by
    rw [(ids_perm (ladder.orders_join_perm order)).nodup_iff]
    exact List.nodup_cons.mpr ⟨admits.fresh, valid.distinct⟩
  have clears := admits.clears
  have apart : Side.sell ≠ Side.buy := by decide
  rw [Ladder.join] at distinct ⊢
  rcases admits.known with buy | sell
  · rw [buy] at joined distinct clears ⊢
    refine ⟨valid.named, joined, valid.asks, distinct, fun bid bidKey ask askKey => ?_⟩
    rcases Levels.mem_keys_join.mp bidKey with rfl | old
    · simpa [bestPriceFirst, Side.opposite, apart] using clears ask askKey
    · exact valid.uncrossed bid old ask askKey
  · rw [sell] at joined distinct clears ⊢
    refine ⟨valid.named, valid.bids, joined, distinct, fun bid bidKey ask askKey => ?_⟩
    rcases Levels.mem_keys_join.mp askKey with rfl | old
    · simpa [bestPriceFirst, Side.opposite, apart] using clears bid bidKey
    · exact valid.uncrossed bid bidKey ask old

end Ladder

end AtlasLob
