import AtlasLob.Verif.Refinement

/-!
# The invariant of the engine

What the engine promises about its own structures, said without the market: the price maps, the
links and caches of every level, the index of every book and the two directories. It holds in
every state that any run of commands reaches from an empty engine.
-/

namespace AtlasLob

open PriceLevel Index

/-- The orders of a book as an iteration sees them. -/
def InstrumentBook.orders (book : InstrumentBook) : List OrderNodeSpec :=
  (book.levels .buy ++ book.levels .sell).flatMap Prod.snd

/-- A resting order is in range for its slot and the limits of its instrument. -/
structure OrderSound (config : MatchingEngineConfig) (last : Sequence) (instrument : InstrumentId)
    (side : Side) (price : PriceTicks) (order : OrderNodeSpec) : Prop where
  sided : order.side = side
  routed : order.instrumentId = instrument
  /-- It rests at the price of its level, a positive multiple of the tick. -/
  priced : order.price = price
  positive : 0 < order.price
  aligned : isTickAligned order.price config.tickIncrement = true
  /-- Something is left, and no more than an order may have. -/
  unfilled : 1 ≤ order.remainingQuantity.toNat
  limited : order.remainingQuantity ≤ config.maxOrderQuantity
  /-- Its priority was issued. -/
  issued : order.prioritySequence ≤ last

/-- A level is one linked list with exact caches. -/
structure LevelSound (storage : OrderStorage) (side : Side) (price : PriceTicks)
    (level : PriceLevel) (queue : List OrderNodeSpec) : Prop where
  filed : level.price = price
  /-- A traversal from the head sees the queue. -/
  traversed : level.orders storage = queue
  /-- No level is empty. -/
  nonempty : queue ≠ []
  /-- Every link, owner and end of the list is in place. -/
  linked : Intrusive.Spans OrderNodeSpec.orderId storage (.slot side price) level.ends queue
  /-- Priorities strictly increase. -/
  increasing : queue.Pairwise fun first second => first.prioritySequence < second.prioritySequence
  count : level.orderCount = queue.length
  /-- The aggregate is the exact sum. -/
  sum : level.aggregateQuantity.toNat = total queue

/-- A book is sound for the limits of its instrument and the last issued sequence. -/
structure BookSound (config : MatchingEngineConfig) (last : Sequence) (book : InstrumentBook) :
    Prop where
  /-- Best price first, on both sides. -/
  sorted : ∀ side, side = .buy ∨ side = .sell →
    SortedMap.Sorted (bestPriceFirst side) (book.side side)
  /-- The best bid is below the best ask. -/
  uncrossed : ∀ bid ask, book.bids.head? = some bid → book.asks.head? = some ask → bid.1 < ask.1
  levels : ∀ side, side = .buy ∨ side = .sell → ∀ price level, (price, level) ∈ book.side side →
    ∃ queue, LevelSound book.storage side price level queue ∧
      ∀ order ∈ queue, OrderSound config last book.instrumentId side price order
  /-- No order is listed twice. -/
  distinct : (ids book.orders).Nodup
  /-- The storage and the index know exactly the listed orders. -/
  stored : ∀ orderId, orderId ∈ book.storage ↔ orderId ∈ ids book.orders
  indexed : ∀ orderId node, book.index[orderId]? = some node ↔
    node = orderId ∧ orderId ∈ ids book.orders
  count : book.activeOrderCount = book.orders.length
  capacity : book.activeOrderCount ≤ config.maxActiveOrders.toNat

/-- The orders of an engine, book by book. -/
def MultiInstrumentEngine.orders (engine : MultiInstrumentEngine) : List OrderNodeSpec :=
  engine.books.flatMap fun entry => entry.2.book.orders

/-- The whole invariant of an engine. -/
structure EngineSound (engine : MultiInstrumentEngine) : Prop where
  books : ∀ instrument entry, (instrument, entry) ∈ engine.books →
    entry.config.instrumentId = instrument ∧ entry.book.instrumentId = instrument ∧
      BookSound entry.config.matching (snapshotLastSequence engine.sequencer) entry.book
  /-- No order ID and no priority occurs in two places. -/
  distinct : (ids engine.orders).Nodup
  ranked : (priorities engine.orders).Nodup
  /-- The directories know exactly the orders of the books. -/
  owners : ∀ orderId identity, engine.activeOrders[orderId]? = some identity ↔
    ∃ order ∈ engine.orders, order.orderId = orderId ∧
      identity = ⟨order.instrumentId, order.clientId, order.prioritySequence⟩
  ranks : ∀ sequence orderId, engine.activePriorities[sequence]? = some orderId ↔
    ∃ order ∈ engine.orders, order.prioritySequence = sequence ∧ order.orderId = orderId
  total : engine.activeOrders.size = engine.orders.length
  capacity : engine.activeOrders.size ≤ engine.config.maxTotalActiveOrders.toNat

namespace Represents

variable {instrument : InstrumentId} {book : InstrumentBook} {ladder : Ladder}

/-- The orders a book lists are those of its ladder. -/
theorem orders (represents : Represents instrument book ladder none) :
    book.orders = ladder.orders := by
  rw [InstrumentBook.orders, represents.levels (Or.inl rfl), represents.levels (Or.inr rfl),
    Ladder.orders, List.flatMap_append, List.flatMap_map, List.flatMap_map]
  rfl

/-- A level of a represented book is sound. -/
theorem levelSound (represents : Represents instrument book ladder none) {side : Side}
    (known : side = .buy ∨ side = .sell) {price : PriceTicks} {queue : List OrderNodeSpec}
    (inside : (price, queue) ∈ ladder.side side) :
    LevelSound book.storage side price (describe price queue) queue := by
  have held := represents.held side known price queue inside
  have wellFormed := (represents.valid.side known).queue price queue inside
  exact
    { filed := rfl
      traversed := held.walk_head held.length_le_size
      nonempty := (represents.valid.side known).nonempty price queue inside
      linked := held
      increasing := wellFormed.increasing
      count := rfl
      sum := aggregate_toNat wellFormed.fits }

/-- A book that represents the ladder of a valid desk is sound. -/
theorem bookSound {market : Market} {desk : Desk} (valid : market.Valid)
    (member : (instrument, desk) ∈ market.books)
    (represents : Represents instrument book desk.ladder none) :
    BookSound desk.config.matching (snapshotLastSequence market.sequencer) book := by
  have held := valid.desks instrument desk member
  have ladder := represents.valid
  have sides : ∀ side, SortedMap.keys (book.side side) =
      SortedMap.keys (desk.ladder.side side) := by
    intro side
    rw [represents.side_eq, describeSide, SortedMap.keys_mapValues]
  refine ⟨?_, ?_, ?_, ?_, ?_, ?_, ?_, ?_⟩
  · intro side known
    have sorted := (ladder.side known).sorted
    rw [SortedMap.Sorted] at sorted ⊢
    rwa [sides]
  · intro bid ask best offer
    refine ladder.uncrossed bid.1 ?_ ask.1 ?_
    · have inside := List.mem_of_mem_head? best
      have key : bid.1 ∈ SortedMap.keys (book.side .buy) := List.mem_map.mpr ⟨bid, inside, rfl⟩
      rwa [sides] at key
    · have inside := List.mem_of_mem_head? offer
      have key : ask.1 ∈ SortedMap.keys (book.side .sell) := List.mem_map.mpr ⟨ask, inside, rfl⟩
      rwa [sides] at key
  · intro side known price level inside
    rw [represents.side_eq, describeSide, SortedMap.mapValues, List.mem_map] at inside
    obtain ⟨⟨at', queue⟩, present, same⟩ := inside
    obtain ⟨rfl, rfl⟩ := Prod.mk.inj same
    refine ⟨queue, represents.levelSound known present, fun order here => ?_⟩
    have wellFormed := (ladder.side known).queue at' queue present
    have listed : order ∈ (desk.ladder.side side).orders :=
      Levels.mem_orders.mpr ⟨at', queue, present, here⟩
    have resting : order ∈ desk.ladder.orders :=
      (desk.ladder.orders_perm side).mem_iff.mpr (List.mem_append_left _ listed)
    have limited := held.limited order resting
    have priced := wellFormed.priced order here
    exact
      { sided := (ladder.side known).sided order listed
        routed := (ladder.routed_order resting).trans represents.routed.symm
        priced := priced
        positive := by
          rw [priced]
          exact wellFormed.positive
        aligned := limited.2
        unfilled := Word.toNat_pos (wellFormed.unfilled order here)
        limited := limited.1
        issued := valid.issued order (Market.mem_orders.mpr ⟨instrument, desk, member, resting⟩) }
  · rw [represents.orders]
    exact ladder.distinct
  · intro orderId
    rw [represents.stored, represents.orders, storedOrders, Option.map_none, Option.toList_none,
      List.append_nil]
  · intro orderId node
    have known := represents.stored orderId
    rw [storedOrders, Option.map_none, Option.toList_none, List.append_nil] at known
    rw [represents.indexed, represents.orders]
    by_cases present : orderId ∈ book.storage
    · simp [present, known.mp present, eq_comm]
    · have absent : orderId ∉ ids desk.ladder.orders := fun inside => present (known.mpr inside)
      simp [present, absent]
  · rw [represents.activeOrderCount, represents.orders]
  · rw [represents.activeOrderCount]
    exact held.capacity

end Represents

namespace Stands

variable {engine : MultiInstrumentEngine} {market : Market}

/-- The orders of an engine are those of its market. -/
theorem orders (stands : Stands engine market false none) : engine.orders = market.orders := by
  have books : engine.books.map (fun entry => entry.2.book.orders) =
      market.books.map (fun entry => entry.2.ladder.orders) :=
    stands.books.map_eq fun instrument entry desk agrees => agrees.represents.orders
  rw [MultiInstrumentEngine.orders, Market.orders, List.flatMap_def, List.flatMap_def, books]

/-- An engine that stands for a market is sound. -/
theorem sound (stands : Stands engine market false none) : EngineSound engine where
  books instrument entry inside := by
    have found := SortedMap.find?_of_mem stands.keys_nodup inside
    obtain ⟨desk, there, agrees⟩ := stands.books.find?_some found
    have member := SortedMap.mem_of_find? there
    have valid := stands.valid.desks instrument desk member
    refine ⟨?_, agrees.represents.routed, ?_⟩
    · rw [agrees.config]
      exact valid.configured
    · rw [agrees.config, stands.sequencer]
      exact Represents.bookSound stands.valid member agrees.represents
  distinct := by
    rw [stands.orders]
    exact stands.valid.distinct
  ranked := by
    rw [stands.orders]
    exact stands.valid.ranked
  owners orderId identity := by
    rw [stands.indexes.1 orderId identity, stands.orders, directoryEntries, List.mem_map]
    constructor
    · rintro ⟨order, member, same⟩
      obtain ⟨rfl, rfl⟩ := Prod.mk.inj same
      exact ⟨order, member, rfl, rfl⟩
    · rintro ⟨order, member, rfl, rfl⟩
      exact ⟨order, member, rfl⟩
  ranks sequence orderId := by
    rw [stands.indexes.2 sequence orderId, stands.orders, priorityEntries, List.mem_map]
    constructor
    · rintro ⟨order, member, same⟩
      obtain ⟨rfl, rfl⟩ := Prod.mk.inj same
      exact ⟨order, member, rfl, rfl⟩
    · rintro ⟨order, member, rfl, rfl⟩
      exact ⟨order, member, rfl⟩
  total := by rw [stands.owners_size, stands.orders]
  capacity := by
    rw [stands.owners_size, stands.config]
    exact stands.valid.total

end Stands

end AtlasLob
