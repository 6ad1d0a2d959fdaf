import AtlasLob.Spec.Matching
import AtlasLob.Verif.InstrumentBook

/-!
# Book operations act on the ladder

Each internal operation of a book is a revision of its ladder, a join, or a change of the pending
residual, and none of them can halt on a book that represents a ladder.
-/

namespace AtlasLob

open Intrusive PriceLevel

namespace InstrumentBook

variable (book : InstrumentBook) (side : Side) (levels : BookSide)

@[simp] theorem setSide_instrumentId :
    (book.setSide side levels).instrumentId = book.instrumentId := by
  by_cases buy : side = .buy <;> simp [setSide, buy]

@[simp] theorem setSide_storage : (book.setSide side levels).storage = book.storage := by
  by_cases buy : side = .buy <;> simp [setSide, buy]

@[simp] theorem setSide_index : (book.setSide side levels).index = book.index := by
  by_cases buy : side = .buy <;> simp [setSide, buy]

@[simp] theorem setSide_pendingNode :
    (book.setSide side levels).pendingNode = book.pendingNode := by
  by_cases buy : side = .buy <;> simp [setSide, buy]

@[simp] theorem setSide_pendingLevel :
    (book.setSide side levels).pendingLevel = book.pendingLevel := by
  by_cases buy : side = .buy <;> simp [setSide, buy]

@[simp] theorem setSide_pendingReplacementOldId :
    (book.setSide side levels).pendingReplacementOldId = book.pendingReplacementOldId := by
  by_cases buy : side = .buy <;> simp [setSide, buy]

@[simp] theorem setSide_snapshotRestoreStaging :
    (book.setSide side levels).snapshotRestoreStaging = book.snapshotRestoreStaging := by
  by_cases buy : side = .buy <;> simp [setSide, buy]

@[simp] theorem side_setSide : (book.setSide side levels).side side = levels := by
  by_cases buy : side = .buy <;> simp [setSide, InstrumentBook.side, buy]

@[simp] theorem side_opposite_setSide :
    (book.setSide side levels).side side.opposite = book.side side.opposite := by
  have apart : Side.sell ≠ Side.buy := by decide
  by_cases buy : side = .buy <;>
    simp [setSide, InstrumentBook.side, Side.opposite, buy, apart]

end InstrumentBook

/-- The planned reduction that takes a quantity from a resting order. -/
def reductionOf (order : OrderNodeSpec) (executed : Quantity) : PrevalidatedBookReduction :=
  ⟨order.orderId, order.orderId, order.clientId, order.side, order.price, order.remainingQuantity,
    executed, order.remainingQuantity - executed, order.prioritySequence⟩

namespace Represents

variable {instrument : InstrumentId} {book : InstrumentBook} {ladder : Ladder}
  {pending : Option Pending} {order : OrderNodeSpec}

/-- Books that represent the same values are equal. -/
theorem unique {other : InstrumentBook} (left : Represents instrument book ladder pending)
    (right : Represents instrument other ladder pending) : book = other := by
  have storage : book.storage = other.storage := by
    refine Std.ExtTreeMap.ext_getElem? fun orderId => ?_
    by_cases stored : orderId ∈ book.storage
    · obtain ⟨order, inside, rfl⟩ := List.mem_map.mp ((left.stored orderId).mp stored)
      rcases List.mem_append.mp inside with visible | staged
      · obtain ⟨front, before, behind, back, located⟩ := left.valid.locate visible
        rw [left.node visible located, right.node visible located]
      · cases pending with
        | none => simp at staged
        | some residual =>
          simp only [Option.map_some, Option.toList_some, List.mem_singleton] at staged
          subst staged
          rw [(left.staged residual rfl).held.linked [] _ [] rfl,
            (right.staged residual rfl).held.linked [] _ [] rfl]
    · have absent : orderId ∉ other.storage := by
        rwa [right.stored, ← left.stored]
      rw [Std.ExtTreeMap.getElem?_eq_none stored, Std.ExtTreeMap.getElem?_eq_none absent]
  have index : book.index = other.index := by
    refine Std.ExtTreeMap.ext_getElem? fun orderId => ?_
    rw [left.indexed, right.indexed, storage]
  have routed := left.routed.trans right.routed.symm
  have bids := left.bids.trans right.bids.symm
  have asks := left.asks.trans right.asks.symm
  have node := left.pendingNode.trans right.pendingNode.symm
  have level := left.pendingLevel.trans right.pendingLevel.symm
  have replaced := left.replacedId.trans right.replacedId.symm
  have published := left.published.trans right.published.symm
  cases book
  cases other
  simp_all

/-- Changing one level leaves the links of the others in place. -/
theorem held_swap (represents : Represents instrument book ladder pending) {side : Side}
    {front back : Levels} {price : PriceTicks} {queue image : List OrderNodeSpec}
    (known : side = .buy ∨ side = .sell)
    (located : ladder.side side = front ++ Levels.entry price queue ++ back)
    {storage : OrderStorage}
    (frame : ∀ other ∈ front.orders ++ back.orders ++ (ladder.side side.opposite).orders,
      storage[other.orderId]? = book.storage[other.orderId]?)
    (held : Held (.slot side price) storage image) :
    ∀ side', side' = .buy ∨ side' = .sell → ∀ price' queue', (price', queue') ∈
      (ladder.setSide side (front ++ Levels.entry price image ++ back)).side side' →
        Held (.slot side' price') storage queue' := by
  intro side' known' price' queue' member
  by_cases same : side' = side
  · subst same
    rw [Ladder.side_setSide] at member
    have untouched : (price', queue') ∈ front ∨ (price', queue') ∈ back →
        Held (.slot side' price') storage queue' := by
      intro outside
      have inside : (price', queue') ∈ ladder.side side' := by
        rw [located]
        simp only [List.mem_append]
        tauto
      refine (represents.held side' known price' queue' inside).congr fun other here =>
        frame other ?_
      simp only [List.mem_append, Levels.mem_orders]
      rcases outside with early | late
      · exact Or.inl (Or.inl ⟨price', queue', early, here⟩)
      · exact Or.inl (Or.inr ⟨price', queue', late, here⟩)
    simp only [List.mem_append] at member
    rcases member with (early | changed) | late
    · exact untouched (Or.inl early)
    · by_cases emptied : image = []
      · simp [Levels.entry, emptied] at changed
      · simp only [Levels.entry, emptied, ↓reduceIte, List.mem_singleton, Prod.mk.injEq] at changed
        obtain ⟨rfl, rfl⟩ := changed
        exact held
    · exact untouched (Or.inr late)
  · have opposite : side' = side.opposite := by
      rcases known with rfl | rfl <;> rcases known' with rfl | rfl <;> first | rfl | contradiction
    subst opposite
    rw [Ladder.side_opposite_setSide] at member
    refine (represents.held _ known' price' queue' member).congr fun other here => frame other ?_
    exact List.mem_append_right _ (Levels.mem_orders.mpr ⟨price', queue', member, here⟩)

/-- A book with one level changed represents the ladder with that level changed. -/
theorem swap (represents : Represents instrument book ladder pending) {side : Side}
    {front back : Levels} {price : PriceTicks} {queue image : List OrderNodeSpec}
    (known : side = .buy ∨ side = .sell)
    (located : ladder.side side = front ++ Levels.entry price queue ++ back)
    {next : InstrumentBook} {after : Option Pending}
    (valid : (ladder.setSide side (front ++ Levels.entry price image ++ back)).Valid instrument)
    (routed : next.instrumentId = book.instrumentId)
    (own : next.side side = describeSide (front ++ Levels.entry price image ++ back))
    (opposite : next.side side.opposite = book.side side.opposite)
    (frame : ∀ other ∈ front.orders ++ back.orders ++ (ladder.side side.opposite).orders,
      next.storage[other.orderId]? = book.storage[other.orderId]?)
    (held : Held (.slot side price) next.storage image)
    (stored : ∀ orderId, orderId ∈ next.storage ↔ orderId ∈ ids (storedOrders
      (ladder.setSide side (front ++ Levels.entry price image ++ back)) after))
    (indexed : ∀ orderId, next.index[orderId]? =
      if orderId ∈ next.storage then some orderId else none)
    (pendingNode : next.pendingNode = after.map fun residual => residual.order.orderId)
    (pendingLevel : next.pendingLevel = after.map fun residual =>
      describe residual.order.price [residual.order])
    (replacedId : next.pendingReplacementOldId = (after.map Pending.replacedId).getD 0)
    (staged : ∀ residual ∈ after, Staged instrument next.storage
      (ladder.setSide side (front ++ Levels.entry price image ++ back)) residual.order)
    (published : next.snapshotRestoreStaging = book.snapshotRestoreStaging) :
    Represents instrument next
      (ladder.setSide side (front ++ Levels.entry price image ++ back)) after := by
  have sides : ∀ side', side' = .buy ∨ side' = .sell → next.side side' = describeSide
      ((ladder.setSide side (front ++ Levels.entry price image ++ back)).side side') := by
    intro side' known'
    by_cases same : side' = side
    · subst same
      rw [Ladder.side_setSide, own]
    · have other : side' = side.opposite := by
        rcases known with rfl | rfl <;> rcases known' with rfl | rfl <;> first | rfl | contradiction
      subst other
      rw [Ladder.side_opposite_setSide, opposite, represents.side_eq]
  exact ⟨routed.trans represents.routed, valid, sides .buy (Or.inl rfl), sides .sell (Or.inr rfl),
    represents.held_swap known located frame held, stored, indexed, pendingNode, pendingLevel,
    replacedId, staged, published.trans represents.published⟩

end Represents

/-- A pending residual stays staged while its node stays and no order takes its ID. -/
theorem Staged.frame {instrument : InstrumentId} {storage next : OrderStorage}
    {ladder after : Ladder} {order : OrderNodeSpec}
    (staged : Staged instrument storage ladder order)
    (node : next[order.orderId]? = storage[order.orderId]?)
    (fresh : order.orderId ∉ ids after.orders) : Staged instrument next after order where
  held := staged.held.congr (by simpa using node)
  queue := staged.queue
  known := staged.known
  routed := staged.routed
  named := staged.named
  owned := staged.owned
  fresh := fresh

namespace Represents

variable {instrument : InstrumentId} {book : InstrumentBook} {ladder : Ladder}
  {pending : Option Pending} {order : OrderNodeSpec} (checks : Bool)

/-- A level stands alone in its side. -/
theorem not_mem_front (represents : Represents instrument book ladder pending) {side : Side}
    (known : side = .buy ∨ side = .sell) {front back : Levels} {price : PriceTicks}
    {queue : List OrderNodeSpec} (located : ladder.side side = front ++ (price, queue) :: back) :
    price ∉ SortedMap.keys front := by
  have distinct := (represents.valid.side known).sorted.nodup (bestPriceFirst_strictOrder side)
  rw [located, SortedMap.keys_append, SortedMap.keys_cons] at distinct
  intro early
  exact (List.nodup_append.mp distinct).2.2 price early price (by simp) rfl

/-- Replacing one level of a described side. -/
theorem set_described (represents : Represents instrument book ladder pending) {side : Side}
    (known : side = .buy ∨ side = .sell) {front back : Levels} {price : PriceTicks}
    {queue : List OrderNodeSpec} (located : ladder.side side = front ++ (price, queue) :: back)
    (image : List OrderNodeSpec) :
    SortedMap.set price (describe price image) (book.side side) =
      describeSide (front ++ (price, image) :: back) := by
  have absent := represents.not_mem_front known located
  rw [represents.side_eq, located, describeSide, describeSide, SortedMap.mapValues_append,
    SortedMap.mapValues_cons, SortedMap.set_append _ (by simpa using absent),
    SortedMap.mapValues_append, SortedMap.mapValues_cons]

/-- A pending residual is not one of the visible orders. -/
theorem pending_apart (represents : Represents instrument book ladder pending)
    {residual : Pending} (present : residual ∈ pending) (member : order ∈ ladder.orders) :
    residual.order.orderId ≠ order.orderId := by
  intro same
  exact (represents.staged residual present).fresh (same ▸ List.mem_map.mpr ⟨order, member, rfl⟩)

/-- Reducing an order without exhausting it. -/
theorem applyReduction_short (represents : Represents instrument book ladder pending)
    (member : order ∈ ladder.orders) {executed : Quantity} (positive : executed ≠ 0)
    (short : executed.toNat < order.remainingQuantity.toNat) :
    ∃ next, book.applyReductionNoCheck checks (reductionOf order executed) = .ok next ∧
      Represents instrument next (ladder.revise (reduceBy order.orderId executed)) pending := by
  obtain ⟨front, before, behind, back, located⟩ := represents.valid.locate member
  have known := represents.valid.sided member
  have level : (order.price, before ++ order :: behind) ∈ ladder.side order.side := by
    simp [located]
  have queue := (represents.valid.side known).queue _ _ level
  have held := represents.held order.side known _ _ level
  have left := Word.toNat_sub_of_toNat_le (Nat.le_of_lt short)
  have remains : order.remainingQuantity - executed ≠ 0 := by
    rw [ne_eq, Word.eq_zero_iff, left]
    omega
  have image : reduceBy order.orderId executed order =
      some (order.withRemaining (order.remainingQuantity - executed)) := by
    rw [reduceBy, if_pos rfl, if_neg]
    rw [UInt64.le_iff_toNat_le]
    omega
  have revised := represents.valid.reduceBy_at member located executed
  have validAfter := represents.valid.revise (reduceBy_shrinks order.orderId executed)
  rw [image, Option.toList_some, List.append_assoc before, List.singleton_append] at revised
  rw [revised] at validAfter ⊢
  have found := represents.findLevel order.side order.price
  rw [represents.find?_located member located, Option.map_some] at found
  obtain ⟨storage, storageEq⟩ : ∃ storage, storage = update order.orderId (fun old => { old with
      payload := old.payload.withRemaining (order.remainingQuantity - executed) })
        book.storage := ⟨_, rfl⟩
  have reduced := queue.reduceRemaining checks held positive short
  have heldAfter := held.reduce (order.remainingQuantity - executed)
  rw [← storageEq] at reduced heldAfter
  have applied : book.applyReductionNoCheck checks (reductionOf order executed) = .ok
      ({ book with storage := storage }.setSide order.side (describeSide (front ++
        (order.price, before ++ order.withRemaining (order.remainingQuantity - executed) ::
          behind) :: back))) := by
    rw [← represents.set_described known located]
    unfold InstrumentBook.applyReductionNoCheck
    simp only [reductionOf, found, slot_eq known, remains, ne_eq, not_false_eq_true, ↓reduceIte,
      reduced, Run.ok_bind]
    rfl
  have entry := Levels.entry_of_ne order.price
    (show before ++ order.withRemaining (order.remainingQuantity - executed) :: behind ≠ [] by simp)
  refine ⟨_, applied, ?_⟩
  have split : ladder.side order.side =
      front ++ Levels.entry order.price (before ++ order :: behind) ++ back := by
    rw [Levels.entry_of_ne _ (by simp), located]
    simp
  have sameIds :
    ids (before ++ order.withRemaining (order.remainingQuantity - executed) :: behind) =
      ids (before ++ order :: behind) := by
    simp [ids]
  have lookup : ∀ orderId, orderId ≠ order.orderId →
      storage[orderId]? = book.storage[orderId]? := by
    intro orderId apart
    rw [storageEq, getElem?_update, if_neg apart]
  have keys : ∀ orderId, orderId ∈ storage ↔ orderId ∈ book.storage := by
    intro orderId
    rw [storageEq, mem_update]
  have idsAfter : ∀ orderId, orderId ∈ ids (ladder.setSide order.side (front ++ Levels.entry
      order.price (before ++ order.withRemaining (order.remainingQuantity - executed) :: behind) ++
        back)).orders ↔ orderId ∈ ids ladder.orders := by
    intro orderId
    rw [Ladder.mem_ids_located (Ladder.side_setSide _ _ _), Ladder.mem_ids_located split, sameIds,
      Ladder.side_opposite_setSide]
  refine represents.swap known split validAfter (by simp) ?_
    (InstrumentBook.side_opposite_setSide _ _ _) ?_ ?_ ?_ ?_ ?_ ?_ ?_ ?_ (by simp)
  · rw [InstrumentBook.side_setSide, entry]
    simp
  · intro other outside
    rw [InstrumentBook.setSide_storage]
    refine lookup other.orderId fun same => ?_
    exact represents.valid.apart split outside (same ▸ by simp [ids])
  · rw [InstrumentBook.setSide_storage]
    exact heldAfter
  · intro orderId
    rw [InstrumentBook.setSide_storage, keys, represents.stored, storedOrders, storedOrders,
      ids, ids, List.map_append, List.map_append, List.mem_append, List.mem_append]
    exact or_congr_left (idsAfter orderId).symm
  · intro orderId
    rw [InstrumentBook.setSide_storage, InstrumentBook.setSide_index, represents.indexed]
    simp only [keys]
  · simpa using represents.pendingNode
  · simpa using represents.pendingLevel
  · simpa using represents.replacedId
  · intro residual present
    refine (represents.staged residual present).frame ?_ ?_
    · rw [InstrumentBook.setSide_storage]
      exact lookup _ (represents.pending_apart present member)
    · rw [idsAfter]
      exact (represents.staged residual present).fresh

/-- Dropping a level if nothing is left of it. -/
theorem dropIfEmpty_described (book : InstrumentBook) {image : List OrderNodeSpec} {side : Side}
    {front back : Levels} {price : PriceTicks} (known : side = .buy ∨ side = .sell)
    (sides : book.side side = describeSide (front ++ (price, image) :: back))
    (absent : price ∉ SortedMap.keys front) (queue : Queue price image) :
    book.dropIfEmpty checks side (describe price image) =
      .ok (book.setSide side (describeSide (front ++ Levels.entry price image ++ back))) := by
  by_cases emptied : image = []
  · subst emptied
    have positive : ¬ price ≤ 0 := by
      have := queue.positive
      grind
    have missing : price ∉ SortedMap.keys (SortedMap.mapValues describe front) := by
      simpa using absent
    have found : book.findLevel side price = some (describe price []) := by
      rw [InstrumentBook.findLevel, sides, describeSide, SortedMap.mapValues_append,
        SortedMap.mapValues_cons, SortedMap.find?_append missing]
    have erased : SortedMap.erase price (book.side side) =
        describeSide (front ++ Levels.entry price [] ++ back) := by
      rw [sides, describeSide, SortedMap.mapValues_append, SortedMap.mapValues_cons,
        SortedMap.erase_append missing, describeSide, Levels.entry, if_pos rfl, List.append_nil,
        SortedMap.mapValues_append]
    have checked : InstrumentBook.checkedLevel checks (InstrumentBook.slot side price)
        (describe price []) book.storage = .ok true := by
      cases checks with
      | false => rfl
      | true => simp [InstrumentBook.checkedLevel, queue.validateInvariants Spans.nil]
    have gone : (describe price []).destroy = .ok () := by
      simp [PriceLevel.destroy]
    have empty : (describe price []).empty = true := rfl
    simp only [InstrumentBook.dropIfEmpty, InstrumentBook.eraseLevel, empty, describe_price,
      positive, found, checked, gone, erased, Run.ok_bind, ne_eq, not_true_eq_false, Bool.not_true,
      Bool.false_eq_true, ↓reduceIte, Run.pure_eq]
  · have kept : book.setSide side (describeSide (front ++ Levels.entry price image ++ back)) =
        book := by
      rw [Levels.entry_of_ne _ emptied, List.append_assoc, List.singleton_append, ← sides]
      rcases known with rfl | rfl <;> rfl
    have filled : (describe price image).empty = false := by
      simpa [PriceLevel.empty] using emptied
    rw [kept, InstrumentBook.dropIfEmpty, filled]
    rfl

/-- Taking the entry of an unlinked node out of the index. -/
theorem index_erase {index : ActiveOrderIndex} {storage : OrderStorage} {node : OrderNode}
    (named : order.orderId ≠ 0) (entry : index[order.orderId]? = some order.orderId)
    (stored : storage[order.orderId]? = some node) (payload : node.payload = order) :
    index.erase storage order.orderId = .ok (.ok (Std.ExtTreeMap.erase index order.orderId)) := by
  have value : storage.deref order.orderId = .ok node := by
    rw [OrderStorage.deref, stored]
  have valid : ActiveOrderIndex.entryIsValid storage order.orderId order.orderId = true := by
    simp [ActiveOrderIndex.entryIsValid, named, stored, payload]
  simp only [ActiveOrderIndex.erase, value, Run.ok_bind, payload, named, entry, valid, ne_eq,
    not_true_eq_false, Bool.not_true, Bool.false_eq_true, ↓reduceIte, Run.pure_eq]

/-- Exhausting an order. -/
theorem applyReduction_full (represents : Represents instrument book ladder pending)
    (member : order ∈ ladder.orders) :
    ∃ next, book.applyReductionNoCheck checks (reductionOf order order.remainingQuantity) =
        .ok next ∧ Represents instrument next
          (ladder.revise (reduceBy order.orderId order.remainingQuantity)) pending := by
  obtain ⟨front, before, behind, back, located⟩ := represents.valid.locate member
  have known := represents.valid.sided member
  have level : (order.price, before ++ order :: behind) ∈ ladder.side order.side := by
    simp [located]
  have queue := (represents.valid.side known).queue _ _ level
  have held := represents.held order.side known _ _ level
  have image : reduceBy order.orderId order.remainingQuantity order = none := by
    rw [reduceBy, if_pos rfl, if_pos (UInt64.le_iff_toNat_le.mpr (le_refl _))]
  have revised := represents.valid.reduceBy_at member located order.remainingQuantity
  have validAfter :=
    represents.valid.revise (reduceBy_shrinks order.orderId order.remainingQuantity)
  rw [image, Option.toList_none, List.append_nil] at revised
  rw [revised] at validAfter ⊢
  have found := represents.findLevel order.side order.price
  rw [represents.find?_located member located, Option.map_some] at found
  obtain ⟨unlinked, unlinkedEq⟩ : ∃ unlinked, unlinked = (Intrusive.unlink order.orderId
      book.storage (endsOf (before ++ order :: behind))).1 := ⟨_, rfl⟩
  have removed := queue.erase checks held
  have heldAfter := held.unlink
  have detached : unlinked[order.orderId]? = some (Node.detached order) := by
    rw [unlinkedEq, held.unlink_lookup, if_pos rfl]
  rw [← unlinkedEq] at removed heldAfter
  have named := represents.valid.named_order member
  have indexed : book.index[order.orderId]? = some order.orderId := by
    rw [represents.indexed, if_pos (represents.mem_storage member)]
  have zero : order.remainingQuantity - order.remainingQuantity = 0 := by
    rw [Word.eq_zero_iff, Word.toNat_sub_of_toNat_le (le_refl _), Nat.sub_self]
  have applied : book.applyReductionNoCheck checks (reductionOf order order.remainingQuantity) =
      .ok ({ book with
        storage := Std.ExtTreeMap.erase unlinked order.orderId
        index := Std.ExtTreeMap.erase book.index order.orderId }.setSide order.side
          (describeSide (front ++ Levels.entry order.price (before ++ behind) ++ back))) := by
    have dropped := dropIfEmpty_described checks ({ book with
        storage := unlinked
        index := Std.ExtTreeMap.erase book.index order.orderId }.setSide order.side
          (describeSide (front ++ (order.price, before ++ behind) :: back))) known
      (InstrumentBook.side_setSide _ _ _) (represents.not_mem_front known located) queue.remove
    have destroyed : OrderStorage.destroy unlinked order.orderId =
        .ok (Std.ExtTreeMap.erase unlinked order.orderId) := by
      rw [OrderStorage.destroy, detached]
      rfl
    unfold InstrumentBook.applyReductionNoCheck
    simp only [reductionOf, found, slot_eq known, zero, ne_eq, not_true_eq_false, ↓reduceIte,
      removed, index_erase named indexed detached rfl, Run.ok_bind]
    rw [represents.set_described known located]
    simp only [dropped, Run.ok_bind, InstrumentBook.setSide_storage, destroyed, Run.pure_eq]
    rcases known with buy | sell
    · rw [buy]
      rfl
    · rw [sell]
      rfl
  refine ⟨_, applied, ?_⟩
  have split : ladder.side order.side =
      front ++ Levels.entry order.price (before ++ order :: behind) ++ back := by
    rw [Levels.entry_of_ne _ (by simp), located]
    simp
  have erased : ∀ orderId, (Std.ExtTreeMap.erase unlinked order.orderId)[orderId]? =
      if orderId = order.orderId then none else unlinked[orderId]? := by
    intro orderId
    grind
  have frame : ∀ orderId, orderId ∉ ids (before ++ order :: behind) →
      (Std.ExtTreeMap.erase unlinked order.orderId)[orderId]? = book.storage[orderId]? := by
    intro orderId outside
    have apart : orderId ≠ order.orderId := by
      rintro rfl
      exact outside (by simp [ids])
    rw [erased, if_neg apart, unlinkedEq]
    exact held.unlink_frame orderId outside
  have others : order.orderId ∉ ids (before ++ behind) := by
    have distinct := held.distinct
    simp only [ids, List.map_append, List.map_cons, List.nodup_append, List.nodup_cons,
      List.mem_append, List.mem_cons] at distinct ⊢
    grind
  have keys : ∀ orderId, orderId ∈ Std.ExtTreeMap.erase unlinked order.orderId ↔
      orderId ≠ order.orderId ∧ orderId ∈ book.storage := by
    intro orderId
    rw [Std.ExtTreeMap.mem_erase, unlinkedEq, mem_unlink, ne_eq,
      Std.LawfulEqCmp.compare_eq_iff_eq, eq_comm]
  have idsAfter : ∀ orderId, orderId ∈ ids (ladder.setSide order.side (front ++ Levels.entry
      order.price (before ++ behind) ++ back)).orders ↔
        orderId ≠ order.orderId ∧ orderId ∈ ids ladder.orders := by
    intro orderId
    rw [Ladder.mem_ids_located (Ladder.side_setSide _ _ _), Ladder.mem_ids_located split,
      Ladder.side_opposite_setSide]
    have outside : order.orderId ∉ ids (front.orders ++ Levels.orders back ++
        (ladder.side order.side.opposite).orders) := by
      intro inside
      obtain ⟨other, here, same⟩ := List.mem_map.mp inside
      exact represents.valid.apart split here (same ▸ by simp [ids])
    have queueIds : orderId ∈ ids (before ++ order :: behind) ↔
        orderId = order.orderId ∨ orderId ∈ ids (before ++ behind) := by
      simp only [ids, List.map_append, List.map_cons, List.mem_append, List.mem_cons]
      tauto
    rw [queueIds]
    by_cases own : orderId = order.orderId
    · subst own
      tauto
    · tauto
  refine represents.swap known split validAfter (by simp) (InstrumentBook.side_setSide _ _ _)
    (InstrumentBook.side_opposite_setSide _ _ _) ?_ ?_ ?_ ?_ ?_ ?_ ?_ ?_ (by simp)
  · intro other outside
    rw [InstrumentBook.setSide_storage]
    exact frame other.orderId (represents.valid.apart split outside)
  · rw [InstrumentBook.setSide_storage]
    refine heldAfter.congr fun other inside => ?_
    rw [erased, if_neg]
    intro same
    exact others (same ▸ List.mem_map.mpr ⟨other, inside, rfl⟩)
  · intro orderId
    rw [InstrumentBook.setSide_storage, keys, represents.stored, storedOrders, storedOrders,
      ids, ids, List.map_append, List.map_append, List.mem_append, List.mem_append]
    have visible := idsAfter orderId
    rw [ids, ids] at visible
    rw [visible]
    constructor
    · rintro ⟨apart, inside | staged⟩
      · exact Or.inl ⟨apart, inside⟩
      · exact Or.inr staged
    · rintro (⟨apart, inside⟩ | staged)
      · exact ⟨apart, Or.inl inside⟩
      · refine ⟨?_, Or.inr staged⟩
        obtain ⟨other, present, rfl⟩ := List.mem_map.mp staged
        obtain ⟨residual, given, rfl⟩ := Option.map_eq_some_iff.mp (Option.mem_toList.mp present)
        exact represents.pending_apart given member
  · intro orderId
    rw [InstrumentBook.setSide_storage, InstrumentBook.setSide_index]
    simp only [keys]
    by_cases own : orderId = order.orderId
    · subst own
      simp
    · have kept : (Std.ExtTreeMap.erase book.index order.orderId)[orderId]? =
          book.index[orderId]? := by
        grind
      rw [kept, represents.indexed]
      simp [own]
  · simpa using represents.pendingNode
  · simpa using represents.pendingLevel
  · simpa using represents.replacedId
  · intro residual present
    have apart := represents.pending_apart present member
    have staged := represents.staged residual present
    refine staged.frame ?_ ?_
    · rw [InstrumentBook.setSide_storage]
      refine frame _ fun inside => staged.fresh ?_
      exact (Ladder.mem_ids_located split).mpr (Or.inl inside)
    · rw [idsAfter]
      exact fun inside => staged.fresh inside.2

/-- Applying one reduction. -/
theorem applyReduction (represents : Represents instrument book ladder pending)
    (member : order ∈ ladder.orders) {executed : Quantity} (positive : executed ≠ 0)
    (bounded : executed.toNat ≤ order.remainingQuantity.toNat) :
    ∃ next, book.applyReductionNoCheck checks (reductionOf order executed) = .ok next ∧
      Represents instrument next (ladder.revise (reduceBy order.orderId executed)) pending := by
  rcases Nat.lt_or_eq_of_le bounded with short | full
  · exact represents.applyReduction_short checks member positive short
  · rw [Word.eq_of_toNat full]
    exact represents.applyReduction_full checks member

/-- Applying the reductions of executions against different resting orders. -/
theorem applyReductions (represents : Represents instrument book ladder pending) (fills : List Fill)
    (members : ∀ fill ∈ fills, fill.order ∈ ladder.orders) (sound : ∀ fill ∈ fills, fill.Sound)
    (distinct : (ids (fills.map Fill.order)).Nodup) :
    ∃ next, book.applyReductions checks
        (fills.map fun fill => reductionOf fill.order fill.executed) = .ok next ∧
      Represents instrument next (ladder.revise (settle fills)) pending := by
  induction fills generalizing book ladder with
  | nil =>
    refine ⟨book, rfl, ?_⟩
    have same : ladder.revise (settle []) = ladder :=
      represents.valid.revise_of_fixed fun order _ => rfl
    rw [same]
    exact represents
  | cons fill rest ih =>
    rw [List.map_cons, ids, List.map_cons, List.nodup_cons] at distinct
    have first := sound fill (by simp)
    obtain ⟨middle, applied, after⟩ := represents.applyReduction checks (members fill (by simp))
      first.positive first.bounded
    have stillThere : ∀ other ∈ rest, other.order ∈
        (ladder.revise (reduceBy fill.order.orderId fill.executed)).orders := by
      intro other inside
      rw [Ladder.orders_revise]
      refine List.mem_filterMap.mpr ⟨other.order, members other (by simp [inside]), ?_⟩
      refine reduceBy_of_ne fun same => distinct.1 ?_
      exact List.mem_map.mpr ⟨other.order, List.mem_map.mpr ⟨other, inside, rfl⟩, same⟩
    obtain ⟨next, finished, final⟩ := ih after stillThere
      (fun other inside => sound other (by simp [inside])) distinct.2
    refine ⟨next, ?_, ?_⟩
    · rw [List.map_cons, InstrumentBook.applyReductions, applied, Run.ok_bind, finished]
    · rw [Ladder.revise_revise] at final
      exact final

end Represents

end AtlasLob
