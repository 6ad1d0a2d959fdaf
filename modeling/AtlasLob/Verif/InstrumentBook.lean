import AtlasLob.Spec.Ladder
import AtlasLob.Verif.PriceLevel

/-!
# A book represents its ladder

`Represents` ties the four structures of a book (level maps, links, storage and index) to one
ladder and at most one pending residual. It leaves nothing of the book open, so two books that
represent the same values are equal. Every book that represents anything passes the whole-book
validation.
-/

namespace AtlasLob

open Intrusive PriceLevel

/-- A prepared residual that is not visible yet. -/
structure Pending where
  order : OrderNodeSpec
  /-- The order it will replace; zero when it replaces none. -/
  replacedId : OrderId

/-- The order a residual replaces rests in the ladder and shares its owner and side. -/
def Pending.Pins (pending : Pending) (ladder : Ladder) : Prop :=
  pending.replacedId ≠ 0 → ∃ old ∈ ladder.orders, old.orderId = pending.replacedId ∧
    old.clientId = pending.order.clientId ∧ old.side = pending.order.side

/-- A side as the book stores it. -/
def describeSide (levels : Levels) : BookSide := SortedMap.mapValues describe levels

/-- The residual is stored alone in the staging level. -/
structure Staged (instrument : InstrumentId) (storage : OrderStorage) (ladder : Ladder)
    (order : OrderNodeSpec) : Prop where
  held : Held .staging storage [order]
  queue : Queue order.price [order]
  known : order.side = .buy ∨ order.side = .sell
  routed : order.instrumentId = instrument
  named : order.orderId ≠ 0
  owned : order.clientId ≠ 0
  fresh : order.orderId ∉ ids ladder.orders

/-- The orders a book stores: the visible ones and the pending one. -/
def storedOrders (ladder : Ladder) (pending : Option Pending) : List OrderNodeSpec :=
  ladder.orders ++ (pending.map Pending.order).toList

/-- A book holds exactly a ladder and at most one pending residual. -/
structure Represents (instrument : InstrumentId) (book : InstrumentBook) (ladder : Ladder)
    (pending : Option Pending) : Prop where
  routed : book.instrumentId = instrument
  valid : ladder.Valid instrument
  bids : book.bids = describeSide ladder.bids
  asks : book.asks = describeSide ladder.asks
  /-- The links of every level span its queue. -/
  held : ∀ side, side = .buy ∨ side = .sell → ∀ price queue, (price, queue) ∈ ladder.side side →
    Held (.slot side price) book.storage queue
  /-- Nothing else is stored. -/
  stored : ∀ orderId, orderId ∈ book.storage ↔ orderId ∈ ids (storedOrders ladder pending)
  /-- Exactly the stored nodes are indexed, under their own IDs. -/
  indexed : ∀ orderId, book.index[orderId]? =
    if orderId ∈ book.storage then some orderId else none
  pendingNode : book.pendingNode = pending.map fun residual => residual.order.orderId
  pendingLevel : book.pendingLevel = pending.map fun residual =>
    describe residual.order.price [residual.order]
  replacedId : book.pendingReplacementOldId = (pending.map Pending.replacedId).getD 0
  staged : ∀ residual ∈ pending, Staged instrument book.storage ladder residual.order
  published : book.snapshotRestoreStaging = false

/-- A heap has as many nodes as a list of its keys has entries. -/
theorem size_eq_length {ν : Type} {map : Std.ExtTreeMap UInt64 ν compare} {keys : List UInt64}
    (distinct : keys.Nodup) (same : ∀ key, key ∈ map ↔ key ∈ keys) : map.size = keys.length := by
  have perm : map.keys.Perm keys := by
    rw [List.perm_ext_iff_of_nodup Std.ExtTreeMap.nodup_keys distinct]
    intro key
    rw [Std.ExtTreeMap.mem_keys]
    exact same key
  rw [← Std.ExtTreeMap.length_keys]
  exact perm.length_eq

/-- Distinct nonzero words are fewer than there are words. -/
theorem length_lt_of_nodup {words : List UInt64} (distinct : words.Nodup) (nonzero : 0 ∉ words) :
    words.length < 2 ^ 64 := by
  have all : ((0 :: words).map UInt64.toFin).Nodup := by
    refine List.Nodup.map ?_ (List.nodup_cons.mpr ⟨nonzero, distinct⟩)
    intro left right same
    exact UInt64.toFin_inj.mp same
  have bound := all.length_le_card
  rw [Fintype.card_fin] at bound
  simpa using bound

/-- A side of held queues in price order passes its validation. -/
theorem validateInvariants_describeSide {side : Side} {storage : OrderStorage} {levels : Levels}
    (sorted : SortedMap.Sorted (bestPriceFirst side) levels)
    (queues : ∀ price queue, (price, queue) ∈ levels →
      Queue price queue ∧ queue ≠ [] ∧ Held (.slot side price) storage queue)
    (previous : Option PriceTicks)
    (later : ∀ earlier ∈ previous, ∀ price ∈ SortedMap.keys levels,
      bestPriceFirst side earlier price = true) :
    BookSide.validateInvariants side storage previous (describeSide levels) = .ok .none := by
  induction levels generalizing previous with
  | nil => rfl
  | cons entry rest ih =>
    obtain ⟨price, queue⟩ := entry
    obtain ⟨wellFormed, nonempty, held⟩ := queues price queue (by simp)
    have positive : ¬ price ≤ 0 := by
      have := wellFormed.positive
      grind
    have ordered : (previous.any fun earlier => !bestPriceFirst side earlier price) = false := by
      cases previous with
      | none => rfl
      | some earlier => simp [later earlier rfl price (by simp)]
    have filled : (describe price queue).empty = false := by
      simpa [PriceLevel.empty] using nonempty
    simp only [SortedMap.Sorted, SortedMap.keys_cons, List.pairwise_cons] at sorted
    have tail := ih sorted.2 (fun price queue member => queues price queue (by simp [member]))
      (some price) (by simpa using sorted.1)
    rw [describeSide] at tail
    rw [describeSide, SortedMap.mapValues_cons, BookSide.validateInvariants]
    simp only [positive, ordered, describe_price, filled, wellFormed.validateInvariants held,
      Run.ok_bind, ne_eq, not_true_eq_false, Bool.false_eq_true, ↓reduceIte, tail]

namespace Represents

variable {instrument : InstrumentId} {book : InstrumentBook} {ladder : Ladder}
  {pending : Option Pending} {order : OrderNodeSpec}

/-- Either side of the book describes the ladder's. -/
theorem side_eq (represents : Represents instrument book ladder pending) (side : Side) :
    book.side side = describeSide (ladder.side side) := by
  by_cases buy : side = .buy
  · simp [InstrumentBook.side, Ladder.side, buy, represents.bids]
  · simp [InstrumentBook.side, Ladder.side, buy, represents.asks]

/-- The stored order IDs are distinct. -/
theorem distinct (represents : Represents instrument book ladder pending) :
    (ids (storedOrders ladder pending)).Nodup := by
  cases pending with
  | none => simpa [storedOrders] using represents.valid.distinct
  | some residual =>
    have fresh := (represents.staged residual rfl).fresh
    rw [storedOrders, ids, List.map_append, List.nodup_append]
    refine ⟨represents.valid.distinct, by simp, ?_⟩
    intro orderId inside other late same
    simp only [Option.map_some, Option.toList_some, List.map_cons, List.map_nil,
      List.mem_singleton] at late
    subst late same
    exact fresh inside

/-- The stored order IDs are nonzero. -/
theorem named (represents : Represents instrument book ladder pending) :
    0 ∉ ids (storedOrders ladder pending) := by
  intro member
  obtain ⟨order, inside, zero⟩ := List.mem_map.mp member
  rcases List.mem_append.mp inside with visible | staged
  · exact represents.valid.named_order visible zero
  · cases pending with
    | none => simp at staged
    | some residual =>
      simp only [Option.map_some, Option.toList_some, List.mem_singleton] at staged
      subst staged
      exact (represents.staged residual rfl).named zero

/-- As many nodes are stored as there are visible and pending orders. -/
theorem storage_size (represents : Represents instrument book ladder pending) :
    book.storage.size = (storedOrders ladder pending).length := by
  rw [size_eq_length represents.distinct represents.stored, ids, List.length_map]

/-- As many nodes are indexed as are stored. -/
theorem index_size (represents : Represents instrument book ladder pending) :
    book.index.size = (storedOrders ladder pending).length := by
  have same : ∀ orderId, orderId ∈ book.index ↔ orderId ∈ ids (storedOrders ladder pending) := by
    intro orderId
    rw [← represents.stored, Std.ExtTreeMap.mem_iff_isSome_getElem?, represents.indexed]
    split <;> simp_all
  rw [size_eq_length represents.distinct same, ids, List.length_map]

/-- The node of a visible order. -/
theorem node (represents : Represents instrument book ladder pending)
    (member : order ∈ ladder.orders)
    {front back : Levels} {before behind : List OrderNodeSpec}
    (located : ladder.side order.side =
      front ++ (order.price, before ++ order :: behind) :: back) :
    book.storage[order.orderId]? = some ⟨order, before.getLast?.map OrderNodeSpec.orderId,
      behind.head?.map OrderNodeSpec.orderId, some (.slot order.side order.price)⟩ :=
  (represents.held order.side (represents.valid.sided member) order.price _
    (by simp [located])).linked before order behind rfl

/-- A visible order is stored, linked into the level of its side and price. -/
theorem node_exists (represents : Represents instrument book ladder pending)
    (member : order ∈ ladder.orders) :
    ∃ previous next, book.storage[order.orderId]? =
      some ⟨order, previous, next, some (.slot order.side order.price)⟩ := by
  obtain ⟨front, before, behind, back, located⟩ := represents.valid.locate member
  exact ⟨_, _, represents.node member located⟩

/-- A stored node carries its own ID. -/
theorem payload_orderId (represents : Represents instrument book ladder pending) {orderId : OrderId}
    (stored : orderId ∈ book.storage) :
    ∃ node, book.storage[orderId]? = some node ∧ node.payload.orderId = orderId := by
  obtain ⟨order, inside, rfl⟩ := List.mem_map.mp ((represents.stored orderId).mp stored)
  rcases List.mem_append.mp inside with visible | staged
  · obtain ⟨previous, next, found⟩ := represents.node_exists visible
    exact ⟨_, found, rfl⟩
  · cases pending with
    | none => simp at staged
    | some residual =>
      simp only [Option.map_some, Option.toList_some, List.mem_singleton] at staged
      subst staged
      exact ⟨_, (represents.staged residual rfl).held.linked [] _ [] rfl, rfl⟩

/-- An index entry of a stored node is valid. -/
theorem entryIsValid (represents : Represents instrument book ladder pending) {orderId : OrderId}
    (stored : orderId ∈ book.storage) :
    ActiveOrderIndex.entryIsValid book.storage orderId orderId = true := by
  obtain ⟨node, found, same⟩ := represents.payload_orderId stored
  have nonzero : orderId ≠ 0 := by
    rintro rfl
    exact represents.named ((represents.stored 0).mp stored)
  simp [ActiveOrderIndex.entryIsValid, found, same, nonzero]

/-- The index finds exactly the stored nodes. -/
theorem index_find (represents : Represents instrument book ladder pending) (orderId : OrderId) :
    book.index.find book.storage orderId =
      if orderId ∈ book.storage then some orderId else none := by
  rw [ActiveOrderIndex.find]
  by_cases stored : orderId ∈ book.storage
  · have nonzero : orderId ≠ 0 := by
      rintro rfl
      exact represents.named ((represents.stored 0).mp stored)
    simp [nonzero, represents.indexed, stored, represents.entryIsValid stored]
  · simp [represents.indexed, stored]

/-- The storage finds exactly the stored nodes. -/
theorem storage_find (book : InstrumentBook) (orderId : OrderId) :
    book.storage.find orderId = if orderId ∈ book.storage then some orderId else none := by
  simp [OrderStorage.find, Std.ExtTreeMap.contains_iff_mem]

/-- The level at a price. -/
theorem findLevel (represents : Represents instrument book ladder pending) (side : Side)
    (price : PriceTicks) :
    book.findLevel side price =
      (SortedMap.find? price (ladder.side side)).map (describe price) := by
  rw [InstrumentBook.findLevel, represents.side_eq, describeSide, SortedMap.find?_mapValues]

/-- The address of the level at a price. -/
theorem levelAddress (represents : Represents instrument book ladder pending) (side : Side)
    (price : PriceTicks) :
    book.levelAddress side price =
      (SortedMap.find? price (ladder.side side)).map fun _ => InstrumentBook.slot side price := by
  rw [InstrumentBook.levelAddress, represents.findLevel, Option.map_map]
  rfl

/-- The slot of a known side carries that side. -/
theorem slot_eq {side : Side} (known : side = .buy ∨ side = .sell) (price : PriceTicks) :
    InstrumentBook.slot side price = .slot side price := by
  rcases known with rfl | rfl <;> rfl

/-- The queue a visible order stands in. -/
theorem find?_located (represents : Represents instrument book ladder pending)
    (member : order ∈ ladder.orders)
    {front back : Levels} {before behind : List OrderNodeSpec}
    (located : ladder.side order.side =
      front ++ (order.price, before ++ order :: behind) :: back) :
    SortedMap.find? order.price (ladder.side order.side) = some (before ++ order :: behind) := by
  have valid := represents.valid.side (represents.valid.sided member)
  refine SortedMap.find?_of_mem (valid.sorted.nodup (bestPriceFirst_strictOrder _)) ?_
  simp [located]

/-- A side as an iteration sees it. -/
theorem levels (represents : Represents instrument book ladder pending) {side : Side}
    (known : side = .buy ∨ side = .sell) :
    book.levels side = (ladder.side side).map fun entry => (describe entry.1 entry.2, entry.2) := by
  rw [InstrumentBook.levels, represents.side_eq, describeSide, SortedMap.mapValues, List.map_map]
  refine List.map_congr_left fun entry member => ?_
  have held := represents.held side known entry.1 entry.2 member
  have walked := held.walk_head held.length_le_size
  simp only [Function.comp_apply, orders, describe_ends, walked]

/-- A visible order is not the pending one. -/
theorem pendingNode_ne (represents : Represents instrument book ladder pending)
    (member : order ∈ ladder.orders) : book.pendingNode ≠ some order.orderId := by
  rw [represents.pendingNode]
  cases pending with
  | none => simp
  | some residual =>
    have fresh := (represents.staged residual rfl).fresh
    simp only [Option.map_some, ne_eq, Option.some.injEq]
    intro same
    exact fresh (same ▸ List.mem_map.mpr ⟨order, member, rfl⟩)

/-- A visible order is stored. -/
theorem mem_storage (represents : Represents instrument book ladder pending)
    (member : order ∈ ladder.orders) :
    order.orderId ∈ book.storage :=
  (represents.stored _).mpr (List.mem_map.mpr ⟨order, List.mem_append_left _ member, rfl⟩)

/-- A visible order is found. -/
theorem findNode_of_mem (represents : Represents instrument book ladder pending)
    (member : order ∈ ladder.orders) : book.findNode order.orderId = some order.orderId := by
  simp [InstrumentBook.findNode, represents.index_find, represents.mem_storage member,
    represents.pendingNode_ne member]

/-- An ID without a visible order is not found. -/
theorem findNode_of_not_mem (represents : Represents instrument book ladder pending)
    {orderId : OrderId}
    (absent : orderId ∉ ids ladder.orders) : book.findNode orderId = none := by
  rw [InstrumentBook.findNode, represents.index_find]
  by_cases stored : orderId ∈ book.storage
  · rw [if_pos stored]
    have inside := (represents.stored orderId).mp stored
    cases pending with
    | none =>
      simp only [storedOrders, Option.map_none, Option.toList_none, List.append_nil] at inside
      exact absurd inside absent
    | some residual =>
      simp only [storedOrders, ids, Option.map_some, Option.toList_some, List.map_append,
        List.map_cons, List.map_nil, List.mem_append, List.mem_singleton] at inside
      rcases inside with visible | rfl
      · exact absurd visible absent
      · simp [represents.pendingNode]
  · rw [if_neg stored]
    rfl

/-- The book finds exactly the orders of its ladder. -/
theorem find (represents : Represents instrument book ladder pending) (orderId : OrderId) :
    book.find orderId = ladder.find orderId := by
  cases found : ladder.find orderId with
  | none =>
    have absent : orderId ∉ ids ladder.orders := by
      intro member
      obtain ⟨order, inside, rfl⟩ := List.mem_map.mp member
      simpa using List.find?_eq_none.mp found order inside
    simp [InstrumentBook.find, represents.findNode_of_not_mem absent]
  | some order =>
    obtain ⟨member, rfl⟩ := represents.valid.find_eq_some_iff.mp found
    obtain ⟨previous, next, node⟩ := represents.node_exists member
    simp [InstrumentBook.find, represents.findNode_of_mem member, node]

/-- The active-order count is the number of visible orders. -/
theorem activeOrderCount (represents : Represents instrument book ladder pending) :
    book.activeOrderCount = ladder.orders.length := by
  rw [InstrumentBook.activeOrderCount, represents.pendingNode, represents.index_size]
  cases pending with
  | none => simp [storedOrders]
  | some residual =>
    have filled : book.index.isEmpty = false := by
      rw [Std.ExtTreeMap.isEmpty_eq_size_beq_zero, represents.index_size]
      simp [storedOrders]
    simp [storedOrders, filled]

/-- Fewer orders are stored than there are order IDs. -/
theorem length_lt (represents : Represents instrument book ladder pending) :
    (storedOrders ladder pending).length < 2 ^ 64 := by
  have bound := length_lt_of_nodup represents.distinct represents.named
  rwa [ids, List.length_map] at bound

/-- Either side passes its validation. -/
theorem validateSide (represents : Represents instrument book ladder pending) {side : Side}
    (known : side = .buy ∨ side = .sell) :
    BookSide.validateInvariants side book.storage none (book.side side) = .ok .none := by
  have valid := represents.valid.side known
  rw [represents.side_eq]
  refine validateInvariants_describeSide valid.sorted (fun price queue member => ?_) none (by simp)
  exact ⟨valid.queue price queue member, valid.nonempty price queue member,
    represents.held side known price queue member⟩

/-- The index passes its validation. -/
theorem validateIndex (represents : Represents instrument book ladder pending) :
    book.index.validateInvariants book.storage = true := by
  rw [ActiveOrderIndex.validateInvariants, List.all_eq_true]
  rintro ⟨orderId, node⟩ member
  rw [Std.ExtTreeMap.mem_toList_iff_getElem?_eq_some, represents.indexed] at member
  by_cases stored : orderId ∈ book.storage
  · rw [if_pos stored, Option.some.injEq] at member
    subst member
    exact represents.entryIsValid stored
  · rw [if_neg stored] at member
    cases member

/-- A visible node passes the checks of the traversal. -/
theorem checkTraversed (represents : Represents instrument book ladder pending)
    (member : order ∈ ladder.orders) (node : OrderNode) (payload : node.payload = order)
    (owner : node.owner = some (.slot order.side order.price)) (observed : Nat)
    (below : observed < 2 ^ 64 - 1) (level : PriceLevel) (priced : level.price = order.price) :
    book.checkTraversed order.side level observed node = .none := by
  have stored := represents.mem_storage member
  have valid := represents.valid.side (represents.valid.sided member)
  simp only [InstrumentBook.checkTraversed, payload, owner, priced,
    Word.atMax64_of_lt below, represents.pendingNode_ne member,
    represents.routed, represents.valid.routed_order member, represents.valid.owned_order member,
    represents.index_find, storage_find, stored, ne_eq, not_true_eq_false, Bool.false_eq_true,
    ↓reduceIte]

/-- Traversing one level counts its orders. -/
theorem traverseLevel (represents : Represents instrument book ladder pending) (side : Side)
    (level : PriceLevel) (nodes : List OrderNode)
    (visible : ∀ node ∈ nodes, node.payload ∈ ladder.orders ∧ node.payload.side = side ∧
      node.payload.price = level.price ∧ node.owner = some (.slot side level.price))
    (observed : Nat) (bound : observed + nodes.length < 2 ^ 64) :
    book.traverseLevel side level observed nodes = .ok (observed + nodes.length) := by
  induction nodes generalizing observed with
  | nil => rfl
  | cons node rest ih =>
    obtain ⟨member, sided, priced, owner⟩ := visible node (by simp)
    rw [List.length_cons] at bound
    have checked : book.checkTraversed side level observed node = .none := by
      have own := represents.checkTraversed member node rfl (by rw [owner, sided, priced]) observed
        (by omega) level priced.symm
      rwa [sided] at own
    rw [InstrumentBook.traverseLevel, checked]
    simp only
    rw [ih (fun other inside => visible other (by simp [inside])) (observed + 1) (by omega),
      List.length_cons]
    congr 1
    omega

/-- Traversing one side counts its orders. -/
theorem traverseSide (represents : Represents instrument book ladder pending) {side : Side}
    (known : side = .buy ∨ side = .sell) (levels : Levels)
    (inside : ∀ entry ∈ levels, entry ∈ ladder.side side) (observed : Nat)
    (bound : observed + levels.orders.length < 2 ^ 64) :
    book.traverseSide side observed (describeSide levels) =
      .ok (observed + levels.orders.length) := by
  have valid := represents.valid.side known
  induction levels generalizing observed with
  | nil => rfl
  | cons entry rest ih =>
    obtain ⟨price, queue⟩ := entry
    have level := inside (price, queue) (by simp)
    have held := represents.held side known price queue level
    have visited := held.walk_head held.length_le_size
    have met := held.mem_walk queue [] book.storage.size rfl
    have count : (walk book.storage book.storage.size (endsOf queue).head).length =
        queue.length := by
      rw [← List.length_map Node.payload, visited]
    simp only [Levels.orders_cons, List.length_append] at bound ⊢
    have counted := represents.traverseLevel side (describe price queue)
      (walk book.storage book.storage.size (endsOf queue).head) (fun node member => ?_) observed
      (by rw [count]; omega)
    · rw [describeSide, SortedMap.mapValues_cons, InstrumentBook.traverseSide]
      simp only [describe_ends, counted]
      rw [count]
      have tail := ih (fun entry member => inside entry (by simp [member]))
        (observed + queue.length) (by omega)
      rw [describeSide] at tail
      rw [tail]
      congr 1
      omega
    · obtain ⟨payload, owner⟩ := met node member
      have onSide : node.payload ∈ (ladder.side side).orders :=
        Levels.mem_orders.mpr ⟨price, queue, level, payload⟩
      refine ⟨?_, valid.sided _ onSide, (valid.queue price queue level).priced _ payload, owner⟩
      exact (ladder.orders_perm side).mem_iff.mpr (List.mem_append_left _ onSide)

/-- The best prices of a well-formed ladder do not meet. -/
theorem crossed (represents : Represents instrument book ladder pending) :
    book.crossed = false := by
  have uncrossed := represents.valid.uncrossed
  rw [InstrumentBook.crossed, InstrumentBook.bestLevel, InstrumentBook.bestLevel,
    represents.side_eq, represents.side_eq, Ladder.side_buy, Ladder.side_sell]
  cases bids : ladder.bids with
  | nil => rfl
  | cons bid lower =>
    cases asks : ladder.asks with
    | nil => rfl
    | cons ask higher =>
      have apart := uncrossed bid.1 (by simp [bids]) ask.1 (by simp [asks])
      simp only [describeSide, SortedMap.mapValues_cons, List.head?_cons, Option.map_some,
        describe_price]
      grind

/-- The order a pending residual replaces passes its checks. -/
theorem pendingReplacementHolds {residual : Pending}
    (represents : Represents instrument book ladder (some residual)) (pins : residual.Pins ladder)
    (replaces : residual.replacedId ≠ 0) (node : OrderNode)
    (payload : node.payload = residual.order) :
    book.pendingReplacementHolds residual.order.orderId node = true := by
  obtain ⟨old, member, identity, client, sided⟩ := pins replaces
  obtain ⟨front, before, behind, back, located⟩ := represents.valid.locate member
  have stored := represents.mem_storage member
  have staged := represents.staged residual rfl
  have found := represents.node member located
  have address := represents.levelAddress old.side old.price
  rw [represents.find?_located member located, Option.map_some,
    slot_eq (represents.valid.sided member)] at address
  have apart : residual.replacedId ≠ residual.order.orderId := by
    intro same
    exact staged.fresh (same ▸ identity ▸ List.mem_map.mpr ⟨old, member, rfl⟩)
  have pinned : book.pendingReplacementOldId = residual.replacedId := by
    simpa using represents.replacedId
  have known : residual.order.side.isValid = true := by
    simpa [Side.isValid] using staged.known
  rw [identity] at stored found
  rw [sided] at address
  rw [InstrumentBook.pendingReplacementHolds, pinned, represents.index_find, if_pos stored]
  simp only [found]
  simp [storage_find, stored, address, apart, identity, represents.routed,
    represents.valid.routed_order member, payload, staged.routed, client, sided, known,
      Node.isLinked]

/-- The pending residual, if there is one, passes its checks. -/
theorem validatePending (represents : Represents instrument book ladder pending)
    (pins : ∀ residual ∈ pending, residual.Pins ladder) :
    book.validatePending = .ok .none := by
  rw [InstrumentBook.validatePending, represents.pendingNode, represents.pendingLevel]
  have replacedId := represents.replacedId
  cases pending with
  | none =>
    rw [Option.map_none, Option.getD_none] at replacedId
    simp [replacedId]
  | some residual =>
    have staged := represents.staged residual rfl
    have node := staged.held.deref [] residual.order [] rfl
    have stored : residual.order.orderId ∈ book.storage :=
      (represents.stored _).mpr (by simp [storedOrders, ids])
    have size : book.index.size ≠ 0 := by
      rw [represents.index_size]
      simp [storedOrders]
    have known : residual.order.side.isValid = true := by
      simpa [Side.isValid] using staged.known
    rw [Option.map_some, Option.getD_some] at replacedId
    have state : book.pendingStateHolds residual.order.orderId
        ⟨residual.order, none, none, some .staging⟩ = true := by
      simp [InstrumentBook.pendingStateHolds, size, storage_find, stored, represents.index_find,
        represents.routed, staged.routed, staged.owned, known]
    have staging : book.stagingHolds (describe residual.order.price [residual.order])
        residual.order.orderId ⟨residual.order, none, none, some .staging⟩ = .ok true := by
      simp [InstrumentBook.stagingHolds, staged.queue.validateInvariants staged.held]
    simp only [Option.map_some, node, Run.ok_bind, List.getLast?_nil, List.head?_nil,
      Option.map_none, state, staging, Bool.not_true, Bool.false_eq_true, ↓reduceIte]
    by_cases replaces : book.pendingReplacementOldId = 0
    · simp [replaces]
    · have holds := represents.pendingReplacementHolds (pins residual rfl) (replacedId ▸ replaces)
        ⟨residual.order, none, none, some .staging⟩ rfl
      simp [holds]

/-- A book that represents a ladder passes the whole-book validation. -/
theorem validateInvariants (represents : Represents instrument book ladder pending)
    (pins : ∀ residual ∈ pending, residual.Pins ladder) :
    book.validateInvariants = .ok .none := by
  have named : book.instrumentId ≠ 0 := represents.routed ▸ represents.valid.named
  have bids := represents.validateSide (Or.inl rfl)
  have asks := represents.validateSide (Or.inr rfl)
  have bound := represents.length_lt
  have total : ladder.bids.orders.length + ladder.asks.orders.length = ladder.orders.length := by
    rw [Ladder.orders, List.length_append]
  have stored : (storedOrders ladder pending).length =
      ladder.orders.length + (if pending.isSome then 1 else 0) := by
    cases pending <;> simp [storedOrders]
  have first := represents.traverseSide (Or.inl rfl) ladder.bids (fun entry member => member) 0
    (by omega)
  have second := represents.traverseSide (Or.inr rfl) ladder.asks (fun entry member => member)
    (0 + ladder.bids.orders.length) (by omega)
  rw [show book.side .buy = book.bids from rfl] at bids
  rw [show book.side .sell = book.asks from rfl] at asks
  rw [← represents.bids] at first
  rw [← represents.asks] at second
  have paired : book.pendingNode.isSome = book.pendingLevel.isSome := by
    rw [represents.pendingNode, represents.pendingLevel, Option.isSome_map, Option.isSome_map]
  have alone : (decide (book.pendingReplacementOldId ≠ 0) && book.pendingNode.isNone) = false := by
    rw [represents.replacedId, represents.pendingNode]
    cases pending <;> simp
  have observed : 0 + ladder.bids.orders.length + ladder.asks.orders.length =
      book.index.size - (if book.pendingNode.isSome then 1 else 0) := by
    rw [represents.index_size, represents.pendingNode, Option.isSome_map, stored]
    omega
  unfold InstrumentBook.validateInvariants
  simp only [named, paired, alone, bids, asks, represents.validateIndex, represents.storage_size,
    represents.index_size, represents.validatePending pins, first, second, represents.crossed,
    Run.ok_bind, ne_eq, not_true_eq_false, Bool.not_true, Bool.false_eq_true, ↓reduceIte,
    Run.pure_eq]
  rw [represents.index_size, paired] at observed
  rw [if_neg (not_not_intro observed)]

end Represents

end AtlasLob
