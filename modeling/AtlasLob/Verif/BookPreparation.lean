import AtlasLob.Verif.BookOperations

/-!
# Preparing, rolling back and committing a residual

Preparing a residual stages it without touching the ladder, rolling it back restores the book,
and committing it joins it to the ladder.
-/

namespace AtlasLob

open Intrusive PriceLevel

/-- The guard of a residual prepared in the book at an address. -/
def guardOf (address : BookRef) (pending : Pending) : PreparedRest :=
  ⟨some address, some pending.order.orderId, some ⟨address, pending.order.orderId⟩,
    some ⟨pending.order.side, true, some (pending.order.price, create pending.order.price)⟩,
    pending.replacedId, none⟩

/-- What a residual must bring to be prepared. -/
structure Restable (instrument : InstrumentId) (ladder : Ladder) (order : OrderNodeSpec) :
    Prop where
  /-- Alone it is a queue. -/
  queue : Queue order.price [order]
  known : order.side = .buy ∨ order.side = .sell
  routed : order.instrumentId = instrument
  named : order.orderId ≠ 0
  owned : order.clientId ≠ 0
  fresh : order.orderId ∉ ids ladder.orders

namespace Restable

variable {instrument : InstrumentId} {ladder : Ladder} {order : OrderNodeSpec}

theorem unfilled (restable : Restable instrument ladder order) : order.remainingQuantity ≠ 0 :=
  restable.queue.unfilled order (by simp)

theorem issued (restable : Restable instrument ladder order) : order.prioritySequence ≠ 0 :=
  restable.queue.issued order (by simp)

theorem priced (restable : Restable instrument ladder order) : ¬ order.price ≤ 0 := by
  have := restable.queue.positive
  grind

/-- A residual that can rest passes the value checks. -/
theorem validateRestSpec (restable : Restable instrument ladder order) (named : instrument ≠ 0) :
    InstrumentBook.validateRestSpec order instrument = none := by
  have known : order.side.isValid = true := by
    simpa [Side.isValid] using restable.known
  simp only [InstrumentBook.validateRestSpec, restable.named, restable.owned, restable.routed,
    named, known, restable.priced, restable.unfilled, restable.issued, ne_eq, not_true_eq_false,
    Bool.not_true, Bool.false_eq_true, ↓reduceIte]

theorem validateSpec (restable : Restable instrument ladder order) (named : instrument ≠ 0) :
    OrderStorage.validateSpec order = none := by
  have known : order.side.isValid = true := by
    simpa [Side.isValid] using restable.known
  simp only [OrderStorage.validateSpec, restable.named, restable.owned, restable.routed, named,
    known, restable.priced, restable.unfilled, restable.issued, Bool.not_true, Bool.false_eq_true,
    ↓reduceIte]

end Restable

namespace Represents

variable {instrument : InstrumentId} {book : InstrumentBook} {ladder : Ladder}
  {pending : Option Pending} {order : OrderNodeSpec} (checks : Bool) (address : BookRef)

/-- The optional whole-book validation passes. -/
theorem checkedInvariants (represents : Represents instrument book ladder pending)
    (pins : ∀ residual ∈ pending, residual.Pins ladder) :
    book.checkedInvariants checks = .ok true := by
  cases checks with
  | false => rfl
  | true => simp [InstrumentBook.checkedInvariants, represents.validateInvariants pins]

/-- The optional whole-book postcondition passes. -/
theorem enforcePostconditions (represents : Represents instrument book ladder pending)
    (pins : ∀ residual ∈ pending, residual.Pins ladder) :
    book.enforcePostconditions checks = .ok () := by
  simp [InstrumentBook.enforcePostconditions, represents.checkedInvariants checks pins]

/-- The optional level validation passes. -/
theorem checkedLevel {self : LevelRef} {storage : OrderStorage} {price : PriceTicks}
    {queue : List OrderNodeSpec} (wellFormed : Queue price queue) (held : Held self storage queue) :
    InstrumentBook.checkedLevel checks self (describe price queue) storage = .ok true := by
  cases checks with
  | false => rfl
  | true => simp [InstrumentBook.checkedLevel, wellFormed.validateInvariants held]

/-- A held order's neighbour on the head side, or the head pointer, points back at it. -/
theorem linkAgrees_previous {self : LevelRef} {storage : OrderStorage}
    {before behind : List OrderNodeSpec} (held : Held self storage (before ++ order :: behind)) :
    InstrumentBook.linkAgrees storage order.orderId
      ((before ++ order :: behind).head?.map OrderNodeSpec.orderId)
      (before.getLast?.map OrderNodeSpec.orderId) Node.next = .ok true := by
  rcases List.eq_nil_or_concat before with rfl | ⟨init, last, rfl⟩
  · simp [InstrumentBook.linkAgrees]
  · rw [List.concat_eq_append] at *
    have node := held.deref init last (order :: behind) (by simp)
    simp [InstrumentBook.linkAgrees, node]

/-- A held order's neighbour on the tail side, or the tail pointer, points back at it. -/
theorem linkAgrees_next {self : LevelRef} {storage : OrderStorage}
    {before behind : List OrderNodeSpec} (held : Held self storage (before ++ order :: behind)) :
    InstrumentBook.linkAgrees storage order.orderId
      ((before ++ order :: behind).getLast?.map OrderNodeSpec.orderId)
      (behind.head?.map OrderNodeSpec.orderId) Node.previous = .ok true := by
  cases behind with
  | nil => simp [InstrumentBook.linkAgrees]
  | cons next rest =>
    have node := held.deref (before ++ [order]) next rest (by simp)
    simp [InstrumentBook.linkAgrees, node]

/-- A visible order of a book without a preparation passes the preflight. -/
theorem preflightNode (represents : Represents instrument book ladder none)
    (member : order ∈ ladder.orders) :
    book.preflightNode checks order.orderId = .ok none := by
  obtain ⟨front, before, behind, back, located⟩ := represents.valid.locate member
  have known := represents.valid.sided member
  have level : (order.price, before ++ order :: behind) ∈ ladder.side order.side := by
    simp [located]
  have queue := (represents.valid.side known).queue _ _ level
  have held := represents.held order.side known _ _ level
  have node := held.deref before order behind rfl
  have stored := represents.mem_storage member
  have found := represents.findLevel order.side order.price
  have address := represents.levelAddress order.side order.price
  rw [represents.find?_located member located, Option.map_some] at found address
  have validSide : order.side.isValid = true := by
    simpa [Side.isValid] using known
  have unpinned : book.pendingReplacementOldId = 0 := represents.replacedId
  have linked : (⟨order, before.getLast?.map OrderNodeSpec.orderId,
      behind.head?.map OrderNodeSpec.orderId,
        some (.slot order.side order.price)⟩ : OrderNode).isLinked = true := by
    simp [Node.isLinked]
  unfold InstrumentBook.preflightNode
  simp only [represents.checkedInvariants checks (by simp), node, storage_find, stored,
    represents.index_find, unpinned, represents.valid.routed_order member, represents.routed,
    validSide, linked, address, slot_eq known, found, describe_price, describe_ends, endsOf_head,
    endsOf_tail, checkedLevel checks queue held, linkAgrees_previous held, linkAgrees_next held,
    Run.ok_bind, ne_eq, not_true_eq_false, Bool.not_true, Bool.false_eq_true, ↓reduceIte,
    decide_false, Bool.false_and, Option.isNone_some, Bool.or_self, Run.pure_eq]

/-- A residual that comes after the whole queue can be appended to it. -/
theorem validateAppendTarget {self : LevelRef} {storage : OrderStorage} {price : PriceTicks}
    {orders : List OrderNodeSpec} (queue : Queue price (orders ++ [order]))
    (held : Held self storage orders) :
    InstrumentBook.validateAppendTarget checks self (describe price orders) storage order =
      .ok none := by
  have before : Queue price orders := queue.sublist (by simp)
  have priced : price = order.price := (queue.priced order (by simp)).symm
  unfold InstrumentBook.validateAppendTarget
  simp only [checkedLevel checks before held, describe_price, describe_ends, endsOf_tail,
    describe_aggregateQuantity, describe_orderCount, queue.tailBlocks held, queue.checkedAdd_next,
    queue.atMax64_length, Run.ok_bind, Bool.not_true, Bool.false_eq_true, ↓reduceIte,
    Option.isNone_some, Run.pure_eq]
  simp [priced]

/-- The tail of a queue once one of its orders has left. -/
theorem tail_without {self : LevelRef} {storage : OrderStorage} {before behind : List OrderNodeSpec}
    {old : OrderNodeSpec} (held : Held self storage (before ++ old :: behind)) :
    (if (before ++ old :: behind).getLast?.map OrderNodeSpec.orderId = some old.orderId then
        before.getLast?.map OrderNodeSpec.orderId
      else (before ++ old :: behind).getLast?.map OrderNodeSpec.orderId) =
        (before ++ behind).getLast?.map OrderNodeSpec.orderId := by
  rcases List.eq_nil_or_concat behind with rfl | ⟨init, last, rfl⟩
  · simp
  · rw [List.concat_eq_append] at *
    have apart : last.orderId ≠ old.orderId := by
      have distinct := held.distinct
      simp only [List.map_append, List.map_cons, List.map_nil, List.nodup_append, List.nodup_cons,
        List.mem_append, List.mem_cons] at distinct
      grind
    have tail : (before ++ old :: (init ++ [last])).getLast? = some last := by
      rw [show before ++ old :: (init ++ [last]) = (before ++ old :: init) ++ [last] by simp,
        List.getLast?_concat]
    have shorter : (before ++ (init ++ [last])).getLast? = some last := by
      rw [← List.append_assoc, List.getLast?_concat]
    simp [tail, shorter, apart]

/-- A later priority is not blocked by the last of some stored orders. -/
theorem tailBlocks_stored {self : LevelRef} {storage : OrderStorage} {price : PriceTicks}
    {orders whole : List OrderNodeSpec} (queue : Queue price (orders ++ [order]))
    (held : Held self storage whole) (inside : ∀ other ∈ orders, other ∈ whole) :
    tailBlocks storage (orders.getLast?.map OrderNodeSpec.orderId) order.prioritySequence =
      .ok false := by
  rcases List.eq_nil_or_concat orders with rfl | ⟨init, last, rfl⟩
  · rfl
  · rw [List.concat_eq_append] at *
    obtain ⟨previous, next, stored⟩ := held.getElem?_of_mem (inside last (by simp))
    have later := queue.lastPriority_lt (by simp)
    have above : ¬ order.prioritySequence ≤ last.prioritySequence := by
      simp only [lastPriority, List.getLast?_append, List.getLast?_singleton, Option.some_or,
        Option.map_some, Option.getD_some] at later
      grind
    simp [tailBlocks, OrderStorage.deref, stored, above]

/-- The check of the replaced order's own level, when every part of it passes. -/
theorem validateReplaceAppendTarget_ok {self : LevelRef} {level : PriceLevel}
    {storage : OrderStorage} {old : OrderNode} {projected sum : Quantity} {tail : Option OrderId}
    (oldPriced : level.price = old.payload.price) (owned : old.owner = some self)
    (checked : InstrumentBook.checkedLevel checks self level storage = .ok true)
    (priced : level.price = order.price) (filled : level.orderCount ≠ 0)
    (removed : Word.checkedSubtract level.aggregateQuantity old.payload.remainingQuantity =
      some projected)
    (chosen : (if level.ends.tail = some old.payload.orderId then old.previous
      else level.ends.tail) = tail)
    (unblocked : tailBlocks storage tail order.prioritySequence = .ok false)
    (added : Word.checkedAdd projected order.remainingQuantity = some sum)
    (count : Word.atMax64 (level.orderCount - 1) = false) :
    InstrumentBook.validateReplaceAppendTarget checks self level storage order old = .ok none := by
  unfold InstrumentBook.validateReplaceAppendTarget
  simp only [oldPriced, owned, ne_eq, not_true_eq_false, decide_false, Bool.or_self,
    Bool.false_eq_true, ↓reduceIte, checked, Run.ok_bind, Bool.not_true, oldPriced.symm.trans
    priced, filled, removed, chosen, unblocked, added, Option.isNone_some, count, Run.pure_eq]

/-- A residual can join the level of the order it replaces once that order has left. -/
theorem validateReplaceAppendTarget_same {self : LevelRef} {storage : OrderStorage}
    {price : PriceTicks} {before behind : List OrderNodeSpec} {old : OrderNodeSpec}
    (current : Queue price (before ++ old :: behind))
    (queue : Queue price ((before ++ behind) ++ [order]))
    (held : Held self storage (before ++ old :: behind)) :
    InstrumentBook.validateReplaceAppendTarget checks self
      (describe price (before ++ old :: behind)) storage order
      ⟨old, before.getLast?.map OrderNodeSpec.orderId, behind.head?.map OrderNodeSpec.orderId,
        some self⟩ = .ok none := by
  have count : (before ++ old :: behind).length - 1 = (before ++ behind).length := by
    simp
  have unblocked := tailBlocks_stored queue held (by simp +contextual [or_imp])
  refine validateReplaceAppendTarget_ok checks (current.priced old (by simp)).symm rfl
    (checkedLevel checks current held) (queue.priced order (by simp)).symm (by simp)
    current.checkedSubtract_order (tail_without held) unblocked queue.checkedAdd_next ?_
  rw [describe_orderCount, count]
  exact queue.atMax64_length

/-- A residual can join another level than that of the order it replaces. -/
theorem validateReplaceAppendTarget_other {self : LevelRef} {storage : OrderStorage}
    {price : PriceTicks} {orders : List OrderNodeSpec} {old : OrderNode}
    (queue : Queue price (orders ++ [order])) (held : Held self storage orders)
    (elsewhere : price ≠ old.payload.price) :
    InstrumentBook.validateReplaceAppendTarget checks self (describe price orders) storage order
      old = .ok none := by
  unfold InstrumentBook.validateReplaceAppendTarget
  simp only [describe_price, ne_eq, elsewhere, not_false_eq_true, decide_true, Bool.true_or,
    ↓reduceIte]
  exact validateAppendTarget checks queue held

/-- The queue a residual joins once the order it replaces has left its level. -/
theorem queueAt_without_same (represents : Represents instrument book ladder pending)
    (member : order ∈ ladder.orders) {front back : Levels} {before behind : List OrderNodeSpec}
    (located : ladder.side order.side =
      front ++ (order.price, before ++ order :: behind) :: back) :
    ((withoutReplaced ladder (some order)).side order.side).queueAt order.price =
      before ++ behind := by
  have distinct := (represents.valid.side (represents.valid.sided member)).sorted.nodup
    (bestPriceFirst_strictOrder order.side)
  rw [located, SortedMap.keys_append, SortedMap.keys_cons] at distinct
  have image : reduceBy order.orderId order.remainingQuantity order = none := by
    rw [reduceBy, if_pos rfl, if_pos (UInt64.le_iff_toNat_le.mpr (le_refl _))]
  rw [withoutReplaced, represents.valid.reduceBy_at member located, Ladder.side_setSide, image,
    Option.toList_none, List.append_nil]
  refine Levels.queueAt_entry _ (fun early => ?_) (List.nodup_cons.mp
    (List.nodup_append.mp distinct).2.1).1
  exact (List.nodup_append.mp distinct).2.2 _ early _ (by simp) rfl

/-- The queue at another price stays when an order leaves. -/
theorem queueAt_without_other (represents : Represents instrument book ladder pending)
    {old : OrderNodeSpec} (member : old ∈ ladder.orders) {price : PriceTicks}
    (apart : price ≠ old.price) :
    ((withoutReplaced ladder (some old)).side old.side).queueAt price =
      (ladder.side old.side).queueAt price := by
  obtain ⟨front, before, behind, back, located⟩ := represents.valid.locate member
  have split : ladder.side old.side =
      front ++ Levels.entry old.price (before ++ old :: behind) ++ back := by
    rw [Levels.entry_of_ne _ (by simp), located]
    simp
  rw [withoutReplaced, represents.valid.reduceBy_at member located, Ladder.side_setSide, split]
  exact Levels.queueAt_other apart _ _

/-- The level a residual would join accepts it. -/
theorem validateTarget (represents : Represents instrument book ladder pending)
    (known : order.side = .buy ∨ order.side = .sell) (fresh : order.orderId ∉ ids ladder.orders)
    {replaced : Option OrderNodeSpec}
    (resting : ∀ old ∈ replaced, old ∈ ladder.orders ∧ old.side = order.side)
    (joins : Queue order.price
      (((withoutReplaced ladder replaced).side order.side).queueAt order.price ++ [order]))
    {storage : OrderStorage}
    (frame : ∀ orderId, orderId ≠ order.orderId → storage[orderId]? = book.storage[orderId]?) :
    book.validateTarget checks storage order (replaced.map OrderNodeSpec.orderId) = .ok none := by
  rw [InstrumentBook.validateTarget, represents.findLevel]
  cases found : SortedMap.find? order.price (ladder.side order.side) with
  | none => rfl
  | some queue =>
    have level := SortedMap.mem_of_find? found
    have current := (represents.valid.side known).queue _ _ level
    have apart : ∀ other ∈ ladder.orders, other.orderId ≠ order.orderId := by
      intro other inside same
      exact fresh (same ▸ List.mem_map.mpr ⟨other, inside, rfl⟩)
    have held : Held (.slot order.side order.price) storage queue := by
      refine (represents.held _ known _ _ level).congr fun other inside => frame _ (apart other ?_)
      exact (ladder.orders_perm order.side).mem_iff.mpr
        (List.mem_append_left _ (Levels.mem_orders.mpr ⟨_, _, level, inside⟩))
    have here : (ladder.side order.side).queueAt order.price = queue := by
      rw [Levels.queueAt, found, Option.getD_some]
    cases replaced with
    | none =>
      rw [withoutReplaced, here] at joins
      simp only [Option.map_some, Option.map_none, slot_eq known]
      exact validateAppendTarget checks joins held
    | some old =>
      obtain ⟨member, sided⟩ := resting old rfl
      obtain ⟨front, before, behind, back, located⟩ := represents.valid.locate member
      have node := represents.node member located
      rw [← frame _ (apart old member)] at node
      have value : storage.deref old.orderId = .ok ⟨old, before.getLast?.map OrderNodeSpec.orderId,
          behind.head?.map OrderNodeSpec.orderId, some (.slot old.side old.price)⟩ := by
        rw [OrderStorage.deref, node]
      simp only [Option.map_some, slot_eq known, value, Run.ok_bind]
      by_cases same : old.price = order.price
      · have split := represents.find?_located member located
        rw [sided, same, found, Option.some.injEq] at split
        subst split
        have after := represents.queueAt_without_same member located
        rw [sided, same] at after
        rw [after] at joins
        rw [sided, same]
        exact validateReplaceAppendTarget_same checks current joins held
      · have after := represents.queueAt_without_other member (Ne.symm same)
        rw [sided, here] at after
        rw [after] at joins
        exact validateReplaceAppendTarget_other checks joins held (Ne.symm same)

/-- The storage of a book with one more node in the staging level. -/
def stagedStorage (storage : OrderStorage) (order : OrderNodeSpec) : OrderStorage :=
  (pushBack .staging order.orderId (Std.ExtTreeMap.insert storage order.orderId
    (Node.detached order)) (endsOf [])).1

/-- Staging a node touches no other node. -/
theorem stagedStorage_frame (storage : OrderStorage) (order : OrderNodeSpec) {orderId : OrderId}
    (apart : orderId ≠ order.orderId) :
    (stagedStorage storage order)[orderId]? = storage[orderId]? := by
  have empty : Held .staging (Std.ExtTreeMap.insert storage order.orderId (Node.detached order))
      [] := Spans.nil
  rw [stagedStorage, empty.pushBack_frame order.orderId orderId apart (by simp)]
  grind

/-- A staged node is alone in the staging level. -/
theorem stagedStorage_held (storage : OrderStorage) (order : OrderNodeSpec) :
    Held .staging (stagedStorage storage order) [order] := by
  have empty : Held .staging (Std.ExtTreeMap.insert storage order.orderId (Node.detached order))
      [] := Spans.nil
  exact empty.pushBack ⟨by simp, by simp [ids]⟩

/-- Staging adds one node. -/
theorem mem_stagedStorage {storage : OrderStorage} {order : OrderNodeSpec} {orderId : OrderId} :
    orderId ∈ stagedStorage storage order ↔ orderId = order.orderId ∨ orderId ∈ storage := by
  rw [stagedStorage, mem_pushBack, Std.ExtTreeMap.mem_insert, Std.LawfulEqCmp.compare_eq_iff_eq,
    eq_comm]

/-- A book with a staged residual represents the same ladder. -/
theorem stage (represents : Represents instrument book ladder none)
    (restable : Restable instrument ladder order) (replacedId : OrderId) :
    Represents instrument { book with
      storage := stagedStorage book.storage order
      index := Std.ExtTreeMap.insert book.index order.orderId order.orderId
      pendingNode := some order.orderId
      pendingLevel := some (describe order.price [order])
      pendingReplacementOldId := replacedId } ladder (some ⟨order, replacedId⟩) where
  routed := represents.routed
  valid := represents.valid
  bids := represents.bids
  asks := represents.asks
  held side known price queue level := by
    refine (represents.held side known price queue level).congr fun other inside => ?_
    refine stagedStorage_frame _ _ fun same => restable.fresh (same ▸ ?_)
    refine List.mem_map.mpr ⟨other, ?_, rfl⟩
    exact (ladder.orders_perm side).mem_iff.mpr
      (List.mem_append_left _ (Levels.mem_orders.mpr ⟨_, _, level, inside⟩))
  stored orderId := by
    have before := represents.stored orderId
    simp only [storedOrders, ids, Option.map_none, Option.toList_none, List.append_nil] at before
    simp only [mem_stagedStorage, before, storedOrders, ids, Option.map_some, Option.toList_some,
      List.map_append, List.map_cons, List.map_nil, List.mem_append, List.mem_singleton]
    exact or_comm
  indexed orderId := by
    by_cases own : orderId = order.orderId
    · subst own
      simp [mem_stagedStorage]
    · have kept : (Std.ExtTreeMap.insert book.index order.orderId order.orderId)[orderId]? =
          book.index[orderId]? := by
        grind
      simp only [kept, represents.indexed, mem_stagedStorage, own, false_or]
  pendingNode := rfl
  pendingLevel := rfl
  replacedId := rfl
  staged residual present := by
    rw [Option.mem_some] at present
    subst present
    exact ⟨stagedStorage_held _ _, restable.queue, restable.known, restable.routed, restable.named,
      restable.owned, restable.fresh⟩
  published := represents.published

/-- The order a residual would replace passes its checks. -/
theorem validateReplacementOld (represents : Represents instrument book ladder none)
    (restable : Restable instrument ladder order) {replaced : Option OrderNodeSpec}
    (resting : ∀ old ∈ replaced, old ∈ ladder.orders ∧ old.clientId = order.clientId ∧
      old.side = order.side) :
    book.validateReplacementOld checks order (replaced.map OrderNodeSpec.orderId) = .ok none := by
  cases replaced with
  | none => rfl
  | some old =>
    obtain ⟨member, client, sided⟩ := resting old rfl
    obtain ⟨previous, next, node⟩ := represents.node_exists member
    have value : book.storage.deref old.orderId =
        .ok ⟨old, previous, next, some (.slot old.side old.price)⟩ := by
      rw [OrderStorage.deref, node]
    have apart : order.orderId ≠ old.orderId := by
      intro same
      exact restable.fresh (same ▸ List.mem_map.mpr ⟨old, member, rfl⟩)
    simp [InstrumentBook.validateReplacementOld, represents.preflightNode checks member, value,
      apart, client, sided, restable.routed, represents.valid.routed_order member]

/-- The order ID of the replaced order, zero when there is none. -/
def replacedIdOf (replaced : Option OrderNodeSpec) : OrderId :=
  (replaced.map OrderNodeSpec.orderId).getD 0

/-- A preparation whose checks all pass. -/
theorem prepareRestImpl_ok {replacementOld : Option OrderId} {detached : DetachedLevel}
    {stored staged : OrderStorage} {staging : PriceLevel} {index : ActiveOrderIndex}
    {oldId : OrderId} {next : InstrumentBook}
    (valued : InstrumentBook.validateRestSpec order book.instrumentId = none)
    (checked : book.checkedInvariants checks = .ok true)
    (idle : (book.pendingNode.isSome || book.pendingLevel.isSome) = false)
    (old : book.validateReplacementOld checks order replacementOld = .ok none)
    (fresh : ((book.storage.find order.orderId).isSome ||
      (book.index.find book.storage order.orderId).isSome) = false)
    (allocated : book.prepareDetachedLevel checks order.side order.price = .ok (.ok detached))
    (created : book.storage.create order = .ok stored)
    (target : book.validateTarget checks stored order replacementOld = .ok none)
    (appended : (create order.price).append checks .staging stored order.orderId =
      .ok (.ok (staged, staging)))
    (inserted : book.index.insert staged order.orderId = .ok (.ok index))
    (pinned : InstrumentBook.replacementId staged replacementOld = .ok oldId)
    (described : { book with
      storage := staged
      index := index
      pendingNode := some order.orderId
      pendingLevel := some staging
      pendingReplacementOldId := oldId } = next)
    (post : next.enforcePostconditions checks = .ok ()) :
    book.prepareRestImpl checks address order replacementOld =
      .ok (next, ⟨some address, some order.orderId, some ⟨address, order.orderId⟩, some detached,
        oldId, none⟩) := by
  subst described
  unfold InstrumentBook.prepareRestImpl
  simp only [valued, checked, idle, old, fresh, allocated, created, target, appended, inserted,
    pinned, Run.ok_bind, Bool.not_true, Bool.false_eq_true, ↓reduceIte]
  rw [post]
  rfl

/-- A level can be allocated at any positive price. -/
theorem prepareDetachedLevel (represents : Represents instrument book ladder pending)
    {side : Side} (known : side = .buy ∨ side = .sell) {price : PriceTicks}
    (positive : ¬ price ≤ 0) :
    book.prepareDetachedLevel checks side price =
      .ok (.ok ⟨side, true, some (price, create price)⟩) := by
  have own : (if side = .buy then Side.buy else Side.sell) = side := by
    rcases known with rfl | rfl <;> rfl
  unfold InstrumentBook.prepareDetachedLevel
  rw [own, represents.validateSide known]
  cases checks <;> simp [positive]

/-- Preparing a residual stages it. -/
theorem prepareRestImpl (represents : Represents instrument book ladder none)
    (restable : Restable instrument ladder order) {replaced : Option OrderNodeSpec}
    (resting : ∀ old ∈ replaced, old ∈ ladder.orders ∧ old.clientId = order.clientId ∧
      old.side = order.side)
    (joins : Queue order.price
      (((withoutReplaced ladder replaced).side order.side).queueAt order.price ++ [order])) :
    ∃ next, book.prepareRestImpl checks address order (replaced.map OrderNodeSpec.orderId) =
        .ok (next, guardOf address ⟨order, replacedIdOf replaced⟩) ∧
      Represents instrument next ladder (some ⟨order, replacedIdOf replaced⟩) := by
  have after := represents.stage restable (replacedIdOf replaced)
  refine ⟨_, ?_, after⟩
  have absent : order.orderId ∉ book.storage := by
    rw [represents.stored]
    simpa [storedOrders] using restable.fresh
  have pins : ∀ residual ∈ some (⟨order, replacedIdOf replaced⟩ : Pending),
      residual.Pins ladder := by
    intro residual present
    rw [Option.mem_some] at present
    subst present
    intro replaces
    cases replaced with
    | none => exact absurd rfl replaces
    | some old => exact ⟨old, (resting old rfl).1, rfl, (resting old rfl).2⟩
  have created : book.storage.create order =
      .ok (Std.ExtTreeMap.insert book.storage order.orderId (Node.detached order)) := by
    rw [OrderStorage.create, restable.validateSpec represents.valid.named]
    simp [absent]
  have frame : ∀ orderId, orderId ≠ order.orderId → (Std.ExtTreeMap.insert book.storage
      order.orderId (Node.detached order))[orderId]? = book.storage[orderId]? := by
    intro orderId apart
    grind
  have target := represents.validateTarget checks restable.known restable.fresh
    (fun old present => ⟨(resting old present).1, (resting old present).2.2⟩) joins frame
  have alone : Queue order.price ([] ++ [order]) := restable.queue
  have appended := alone.append checks
    (show Held .staging (Std.ExtTreeMap.insert book.storage order.orderId (Node.detached order)) []
      from Spans.nil) ⟨by simp, by simp [ids]⟩
  have inserted : book.index.insert (stagedStorage book.storage order) order.orderId =
      .ok (.ok (Std.ExtTreeMap.insert book.index order.orderId order.orderId)) := by
    have value := (stagedStorage_held book.storage order).deref [] order [] rfl
    have missing : book.index[order.orderId]? = none := by
      rw [represents.indexed, if_neg absent]
    simp [ActiveOrderIndex.insert, value, restable.named, missing]
  have pinned : InstrumentBook.replacementId (stagedStorage book.storage order)
      (replaced.map OrderNodeSpec.orderId) = .ok (replacedIdOf replaced) := by
    cases replaced with
    | none => rfl
    | some old =>
      obtain ⟨previous, next, node⟩ := represents.node_exists (resting old rfl).1
      have apart : old.orderId ≠ order.orderId := by
        intro same
        exact restable.fresh (same ▸ List.mem_map.mpr ⟨old, (resting old rfl).1, rfl⟩)
      rw [← stagedStorage_frame book.storage order apart] at node
      simp [InstrumentBook.replacementId, OrderStorage.deref, node, replacedIdOf]
  refine prepareRestImpl_ok checks address
    (represents.routed.symm ▸ restable.validateRestSpec represents.valid.named)
    (represents.checkedInvariants checks (by simp)) ?_
    (represents.validateReplacementOld checks restable resting) ?_
    (represents.prepareDetachedLevel checks restable.known restable.priced) created target appended
    inserted pinned rfl (after.enforcePostconditions checks pins)
  · rw [represents.pendingNode, represents.pendingLevel]
    rfl
  · rw [storage_find, represents.index_find, if_neg absent]
    rfl

/-- The storage once the staged node has left the staging level. -/
def unstagedStorage (storage : OrderStorage) (order : OrderNodeSpec) : OrderStorage :=
  (unlink order.orderId storage (endsOf [order])).1

/-- A node that left the staging level has no links. -/
theorem unstagedStorage_detached {storage : OrderStorage} (held : Held .staging storage [order]) :
    (unstagedStorage storage order)[order.orderId]? = some (Node.detached order) := by
  have alone : Held .staging storage ([] ++ order :: []) := held
  have lookup := alone.unlink_lookup order.orderId
  rw [if_pos rfl] at lookup
  exact lookup

/-- Leaving the staging level touches no other node. -/
theorem unstagedStorage_frame {storage : OrderStorage} (held : Held .staging storage [order])
    {orderId : OrderId} (apart : orderId ≠ order.orderId) :
    (unstagedStorage storage order)[orderId]? = storage[orderId]? := by
  have alone : Held .staging storage ([] ++ order :: []) := held
  exact alone.unlink_frame orderId (by simpa using apart)

/-- Taking the staged node out of the staging level leaves the level empty. -/
theorem staging_erase {storage : OrderStorage} (queue : Queue order.price [order])
    (held : Held .staging storage [order]) :
    (describe order.price [order]).erase checks .staging storage order.orderId =
      .ok (.ok (unstagedStorage storage order, describe order.price [])) := by
  have aloneQueue : Queue order.price ([] ++ order :: []) := queue
  have aloneHeld : Held .staging storage ([] ++ order :: []) := held
  exact aloneQueue.erase checks aloneHeld

/-- An empty level can be dropped. -/
theorem destroy_empty (price : PriceTicks) : (describe price []).destroy = .ok () := by
  simp [PriceLevel.destroy]

/-- The level a guard has not published can be dropped. -/
theorem discardDetached_guard (residual : Pending) :
    InstrumentBook.discardDetached (guardOf address residual) = .ok () := by
  exact destroy_empty residual.order.price

/-- Where the staging level of a pending node lives. -/
theorem stagingRef_pending {staging : PriceLevel} {node : OrderId}
    (pendingLevel : book.pendingLevel = some staging) (pendingNode : book.pendingNode = some node) :
    book.stagingRef address = some ⟨address, node⟩ := by
  rw [InstrumentBook.stagingRef, pendingLevel, pendingNode]
  rfl

/-- A rollback whose steps all succeed. -/
theorem rollback_ok {prepared : PreparedRest} {node : OrderId} {staging emptied : PriceLevel}
    {unlinked storage : OrderStorage} {index : ActiveOrderIndex} {next : InstrumentBook}
    (owned : prepared.owner = some address) (prepares : prepared.node = some node)
    (stages : prepared.staging = some ⟨address, node⟩)
    (pendingLevel : book.pendingLevel = some staging)
    (pendingNode : book.pendingNode = some node)
    (replaces : book.pendingReplacementOldId = prepared.replacementOldId)
    (erased : staging.erase checks .staging book.storage node = .ok (.ok (unlinked, emptied)))
    (dropped : book.index.erase unlinked node = .ok (.ok index))
    (destroyed : unlinked.destroy node = .ok storage) (closed : emptied.destroy = .ok ())
    (discarded : InstrumentBook.discardDetached prepared = .ok ())
    (described : { book with
      storage := storage
      index := index
      pendingNode := none
      pendingLevel := none
      pendingReplacementOldId := 0 } = next)
    (post : next.enforcePostconditions checks = .ok ()) :
    book.rollback checks address prepared = .ok next := by
  subst described
  unfold InstrumentBook.rollback
  simp only [owned, prepares, stages, pendingLevel, pendingNode, replaces, erased, dropped,
    destroyed, closed, discarded, stagingRef_pending address pendingLevel pendingNode,
    Option.isNone_some, Run.ok_bind, Bool.false_eq_true, ↓reduceIte, ne_eq, not_true_eq_false,
    decide_false, Bool.or_self]
  rw [post]
  rfl

/-- Rolling a preparation back leaves the ladder without a pending residual. -/
theorem rollback {residual : Pending}
    (represents : Represents instrument book ladder (some residual)) :
    ∃ next, book.rollback checks address (guardOf address residual) = .ok next ∧
      Represents instrument next ladder none := by
  obtain ⟨order, replacedId⟩ := residual
  have staged := represents.staged _ rfl
  simp only at staged
  have detached := unstagedStorage_detached staged.held
  have indexed : book.index[order.orderId]? = some order.orderId := by
    rw [represents.indexed, if_pos]
    rw [represents.stored]
    simp [storedOrders, ids]
  have destroyed : OrderStorage.destroy (unstagedStorage book.storage order) order.orderId =
      .ok (Std.ExtTreeMap.erase (unstagedStorage book.storage order) order.orderId) := by
    rw [OrderStorage.destroy, detached]
    rfl
  have lookup : ∀ orderId, orderId ≠ order.orderId →
      (Std.ExtTreeMap.erase (unstagedStorage book.storage order) order.orderId)[orderId]? =
        book.storage[orderId]? := by
    intro orderId apart
    rw [← unstagedStorage_frame staged.held apart]
    grind
  have keys : ∀ orderId, orderId ∈ Std.ExtTreeMap.erase (unstagedStorage book.storage order)
      order.orderId ↔ orderId ∈ ids ladder.orders := by
    intro orderId
    rw [Std.ExtTreeMap.mem_erase, unstagedStorage, mem_unlink, ne_eq,
      Std.LawfulEqCmp.compare_eq_iff_eq, represents.stored]
    simp only [storedOrders, ids, Option.map_some, Option.toList_some, List.map_append,
      List.map_cons, List.map_nil, List.mem_append, List.mem_singleton]
    have fresh := staged.fresh
    rw [ids] at fresh
    constructor
    · rintro ⟨apart, visible | own⟩
      · exact visible
      · exact absurd own.symm apart
    · intro visible
      exact ⟨fun same => fresh (same ▸ visible), Or.inl visible⟩
  have after : Represents instrument { book with
      storage := Std.ExtTreeMap.erase (unstagedStorage book.storage order) order.orderId
      index := Std.ExtTreeMap.erase book.index order.orderId
      pendingNode := none
      pendingLevel := none
      pendingReplacementOldId := 0 } ladder none := by
    refine ⟨represents.routed, represents.valid, represents.bids, represents.asks, ?_, ?_, ?_, rfl,
      rfl, rfl, by simp, represents.published⟩
    · intro side known price queue level
      refine (represents.held side known price queue level).congr fun other inside => lookup _ ?_
      refine (represents.pending_apart rfl ?_).symm
      exact (ladder.orders_perm side).mem_iff.mpr
        (List.mem_append_left _ (Levels.mem_orders.mpr ⟨_, _, level, inside⟩))
    · intro orderId
      rw [keys]
      simp [storedOrders]
    · intro orderId
      by_cases own : orderId = order.orderId
      · subst own
        rw [if_neg fun inside => staged.fresh ((keys _).mp inside)]
        simp
      · have kept : (Std.ExtTreeMap.erase book.index order.orderId)[orderId]? =
            book.index[orderId]? := by
          grind
        have same : orderId ∈ book.storage ↔ orderId ∈ ids ladder.orders := by
          rw [represents.stored]
          simp [storedOrders, ids, own]
        rw [kept, represents.indexed]
        exact if_congr (same.trans (keys orderId).symm) rfl rfl
  refine ⟨_, ?_, after⟩
  exact rollback_ok checks address rfl rfl rfl represents.pendingLevel represents.pendingNode
    represents.replacedId (staging_erase checks staged.queue staged.held)
    (index_erase staged.named indexed detached rfl) destroyed (destroy_empty _)
    (discardDetached_guard address _) rfl (after.enforcePostconditions checks (by simp))

/-- A commit into an existing level whose steps all succeed. -/
theorem commitPreparedNoCheck_existing {prepared : PreparedRest} {node : OrderId}
    {staging emptied target extended : PriceLevel} {detached : DetachedLevel} {value : OrderNode}
    {unlinked linked : OrderStorage} (prepares : prepared.node = some node)
    (pendingLevel : book.pendingLevel = some staging)
    (publishes : prepared.preparedLevel = some detached) (stages : prepared.staging.isNone = false)
    (stored : book.storage.deref node = .ok value) (known : value.payload.side.isValid = true)
    (erased : staging.erase checks .staging book.storage node = .ok (.ok (unlinked, emptied)))
    (closed : emptied.destroy = .ok ())
    (found : book.findLevel value.payload.side value.payload.price = some target)
    (appended : target.append checks (InstrumentBook.slot value.payload.side value.payload.price)
      unlinked node = .ok (.ok (linked, extended)))
    (discarded : InstrumentBook.discardDetached prepared = .ok ()) :
    book.commitPreparedNoCheck checks prepared = .ok ({ book with
      storage := linked
      pendingNode := none
      pendingLevel := none
      pendingReplacementOldId := 0 }.setSide value.payload.side
        (SortedMap.set value.payload.price extended (book.side value.payload.side))) := by
  unfold InstrumentBook.commitPreparedNoCheck
  simp only [prepares, pendingLevel, publishes, stages, stored, known, erased, closed, found,
    appended, discarded, Run.ok_bind, Bool.not_true, Bool.false_eq_true, ↓reduceIte, Run.pure_eq]

/-- A commit that opens a level and whose steps all succeed. -/
theorem commitPreparedNoCheck_fresh {prepared : PreparedRest} {node : OrderId}
    {staging emptied target extended : PriceLevel} {detached : DetachedLevel} {value : OrderNode}
    {unlinked linked : OrderStorage} {next : InstrumentBook} (prepares : prepared.node = some node)
    (pendingLevel : book.pendingLevel = some staging)
    (publishes : prepared.preparedLevel = some detached) (stages : prepared.staging.isNone = false)
    (stored : book.storage.deref node = .ok value) (known : value.payload.side.isValid = true)
    (erased : staging.erase checks .staging book.storage node = .ok (.ok (unlinked, emptied)))
    (closed : emptied.destroy = .ok ())
    (missing : book.findLevel value.payload.side value.payload.price = none)
    (level : detached.level = some target)
    (appended : target.append checks (InstrumentBook.slot value.payload.side value.payload.price)
      unlinked node = .ok (.ok (linked, extended)))
    (published : InstrumentBook.publish checks { book with
      storage := linked
      pendingNode := none
      pendingLevel := none
      pendingReplacementOldId := 0 } value.payload.side value.payload.price extended =
        .ok (.ok next)) :
    book.commitPreparedNoCheck checks prepared = .ok next := by
  unfold InstrumentBook.commitPreparedNoCheck
  simp only [prepares, pendingLevel, publishes, stages, stored, known, erased, closed, missing,
    level, appended, published, Run.ok_bind, Bool.not_true, Bool.false_eq_true, ↓reduceIte,
    Run.pure_eq]

/-- The storage once the staged node is linked behind a queue. -/
def joinedStorage (storage : OrderStorage) (order : OrderNodeSpec) (queue : List OrderNodeSpec) :
    OrderStorage :=
  (pushBack (LevelRef.slot order.side order.price) order.orderId (unstagedStorage storage order)
    (endsOf queue)).1

/-- What a commit computes, and the links it starts from. -/
theorem commitPrepared_sides {residual : Pending}
    (represents : Represents instrument book ladder (some residual))
    (admits : ladder.Admits instrument residual.order) :
    book.commitPreparedNoCheck checks (guardOf address residual) = .ok ({ book with
      storage := joinedStorage book.storage residual.order
        ((ladder.side residual.order.side).queueAt residual.order.price)
      pendingNode := none
      pendingLevel := none
      pendingReplacementOldId := 0 }.setSide residual.order.side
        (describeSide ((ladder.side residual.order.side).join residual.order.side
          residual.order))) ∧
    Held (.slot residual.order.side residual.order.price)
      (unstagedStorage book.storage residual.order)
      ((ladder.side residual.order.side).queueAt residual.order.price) := by
  obtain ⟨order, replacedId⟩ := residual
  have staged := represents.staged _ rfl
  simp only at staged admits ⊢
  have value := staged.held.deref [] order [] rfl
  have validSide : order.side.isValid = true := by
    simpa [Side.isValid] using staged.known
  have erased := staging_erase checks staged.queue staged.held
  have located := represents.findLevel order.side order.price
  have joins := admits.joins.queue
  have visible : ∀ queue, (order.price, queue) ∈ ladder.side order.side → ∀ other ∈ queue,
      other ∈ ladder.orders := by
    intro queue level other inside
    exact (ladder.orders_perm order.side).mem_iff.mpr
      (List.mem_append_left _ (Levels.mem_orders.mpr ⟨_, _, level, inside⟩))
  have held : Held (.slot order.side order.price) (unstagedStorage book.storage order)
      ((ladder.side order.side).queueAt order.price) := by
    rw [Levels.queueAt]
    cases found : SortedMap.find? order.price (ladder.side order.side) with
    | none => exact Spans.nil
    | some queue =>
      have level := SortedMap.mem_of_find? found
      refine (represents.held _ staged.known _ _ level).congr fun other inside => ?_
      refine unstagedStorage_frame staged.held ?_
      exact (represents.pending_apart rfl (visible queue level other inside)).symm
  have fresh : order.orderId ∉ ids ((ladder.side order.side).queueAt order.price) := by
    intro inside
    obtain ⟨other, here, same⟩ := List.mem_map.mp inside
    rw [Levels.queueAt] at here
    cases found : SortedMap.find? order.price (ladder.side order.side) with
    | none => simp [found] at here
    | some queue =>
      rw [found, Option.getD_some] at here
      exact admits.fresh (same ▸ List.mem_map.mpr
        ⟨other, visible queue (SortedMap.mem_of_find? found) other here, rfl⟩)
  have arrives : Arrives (unstagedStorage book.storage order)
      ((ladder.side order.side).queueAt order.price) order :=
    ⟨unstagedStorage_detached staged.held, fresh⟩
  have appended := joins.append checks held arrives
  refine ⟨?_, held⟩
  cases found : SortedMap.find? order.price (ladder.side order.side) with
  | some queue =>
    have here : (ladder.side order.side).queueAt order.price = queue := by
      rw [Levels.queueAt, found, Option.getD_some]
    rw [found, Option.map_some] at located
    rw [here] at appended ⊢
    rw [← slot_eq staged.known] at appended
    rw [commitPreparedNoCheck_existing checks rfl represents.pendingLevel rfl rfl value validSide
      erased (destroy_empty _) located appended (discardDetached_guard address _), Levels.join,
        found,
      represents.side_eq, describeSide, describeSide, SortedMap.mapValues_set, slot_eq staged.known]
    rfl
  | none =>
    have here : (ladder.side order.side).queueAt order.price = [] := by
      rw [Levels.queueAt, found, Option.getD_none]
    rw [found, Option.map_none] at located
    rw [here] at appended held joins ⊢
    rw [← slot_eq staged.known] at appended
    refine commitPreparedNoCheck_fresh checks rfl represents.pendingLevel rfl rfl value validSide
      erased (destroy_empty _) located rfl appended ?_
    have filled : (describe order.price ([] ++ [order])).empty = false := rfl
    have checked := checkedLevel checks joins (held.pushBack (here ▸ arrives))
    rw [← slot_eq staged.known] at checked
    have missing : InstrumentBook.findLevel { book with
        storage := (pushBack (InstrumentBook.slot order.side order.price) order.orderId
          (unstagedStorage book.storage order) (endsOf [])).1
        pendingNode := none
        pendingLevel := none
        pendingReplacementOldId := 0 } order.side order.price = none := located
    unfold InstrumentBook.publish
    simp only [filled, checked, missing, Run.ok_bind, Bool.not_true, Bool.false_eq_true, ↓reduceIte,
      Option.isSome_none, Run.pure_eq]
    rw [Levels.join, found, describeSide, SortedMap.mapValues_insert, slot_eq staged.known]
    have sides := represents.side_eq order.side
    rw [describeSide] at sides
    rw [← sides]
    rfl

/-- Committing a residual joins it to the ladder. -/
theorem commitPrepared {residual : Pending}
    (represents : Represents instrument book ladder (some residual))
    (admits : ladder.Admits instrument residual.order) :
    ∃ next, book.commitPreparedNoCheck checks (guardOf address residual) = .ok next ∧
      Represents instrument next (ladder.join residual.order) none := by
  obtain ⟨committed, held⟩ := represents.commitPrepared_sides checks address admits
  refine ⟨_, committed, ?_⟩
  have valid := represents.valid.join admits
  have staged := represents.staged residual rfl
  obtain ⟨order, replacedId⟩ := residual
  simp only at staged admits valid held ⊢
  obtain ⟨front, back, split, joined⟩ := Levels.join_split order.side order
    (represents.valid.side staged.known).nonempty
  rw [Ladder.join] at valid ⊢
  rw [joined] at valid ⊢
  have arrives : Arrives (unstagedStorage book.storage order)
      ((ladder.side order.side).queueAt order.price) order := by
    refine ⟨unstagedStorage_detached staged.held, fun inside => staged.fresh ?_⟩
    exact (Ladder.mem_ids_located split).mpr (Or.inl inside)
  have keys : ∀ orderId, orderId ∈ joinedStorage book.storage order
      ((ladder.side order.side).queueAt order.price) ↔ orderId ∈ book.storage := by
    intro orderId
    rw [joinedStorage, mem_pushBack, unstagedStorage, mem_unlink]
  refine represents.swap staged.known split valid (by simp) (InstrumentBook.side_setSide _ _ _)
    (InstrumentBook.side_opposite_setSide _ _ _) ?_ ?_ ?_ ?_ (by simp) (by simp) (by simp) (by simp)
    (by simp)
  · intro other outside
    have visible : other.orderId ∈ ids ladder.orders :=
      (Ladder.mem_ids_located split).mpr (Or.inr (List.mem_map.mpr ⟨other, outside, rfl⟩))
    have apart : other.orderId ≠ order.orderId := fun same => staged.fresh (same ▸ visible)
    rw [InstrumentBook.setSide_storage]
    show (joinedStorage book.storage order _)[other.orderId]? = _
    rw [joinedStorage, held.pushBack_frame _ _ apart (represents.valid.apart split outside)]
    exact unstagedStorage_frame staged.held apart
  · rw [InstrumentBook.setSide_storage]
    exact held.pushBack arrives
  · intro orderId
    rw [InstrumentBook.setSide_storage]
    refine (keys orderId).trans ?_
    rw [represents.stored]
    simp only [storedOrders, Option.map_some, Option.toList_some, Option.map_none,
      Option.toList_none, List.append_nil]
    rw [Ladder.mem_ids_located (Ladder.side_setSide _ _ _), Ladder.side_opposite_setSide]
    have before : orderId ∈ ids ladder.orders ↔ _ := Ladder.mem_ids_located split
    simp only [ids, List.map_append, List.map_cons, List.map_nil, List.mem_append,
      List.mem_singleton] at before ⊢
    tauto
  · intro orderId
    rw [InstrumentBook.setSide_storage, InstrumentBook.setSide_index]
    refine (represents.indexed orderId).trans ?_
    exact if_congr (keys orderId).symm rfl rfl

end Represents

end AtlasLob
