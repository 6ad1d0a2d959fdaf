import AtlasLob.Spec.Queue

/-!
# Price levels keep their queue

A level that describes a well-formed queue and whose links span it passes its own validation,
and each operation does to the queue what its name says. The book proofs use a level only
through `describe`, `Queue` and these four results.
-/

namespace AtlasLob

open Intrusive

namespace PriceLevel

/-- The end pointers of a queue. -/
def endsOf (orders : List OrderNodeSpec) : Ends OrderId :=
  ⟨orders.head?.map OrderNodeSpec.orderId, orders.getLast?.map OrderNodeSpec.orderId⟩

/-- The end pointers depend on the order IDs alone. -/
theorem endsOf_congr {left right : List OrderNodeSpec} (same : ids left = ids right) :
    endsOf left = endsOf right := by
  have reading : ∀ orders, endsOf orders = ⟨(ids orders).head?, (ids orders).getLast?⟩ := by
    intro orders
    simp [endsOf, ids]
  rw [reading, reading, same]

/-- The level that holds a queue at a price. -/
def describe (price : PriceTicks) (orders : List OrderNodeSpec) : PriceLevel :=
  ⟨price, aggregate orders, orders.length, endsOf orders⟩

@[simp] theorem describe_price (price : PriceTicks) (orders : List OrderNodeSpec) :
    (describe price orders).price = price := rfl

@[simp] theorem describe_aggregateQuantity (price : PriceTicks) (orders : List OrderNodeSpec) :
    (describe price orders).aggregateQuantity = aggregate orders := rfl

@[simp] theorem describe_orderCount (price : PriceTicks) (orders : List OrderNodeSpec) :
    (describe price orders).orderCount = orders.length := rfl

@[simp] theorem describe_ends (price : PriceTicks) (orders : List OrderNodeSpec) :
    (describe price orders).ends = endsOf orders := rfl

@[simp] theorem endsOf_head (orders : List OrderNodeSpec) :
    (endsOf orders).head = orders.head?.map OrderNodeSpec.orderId := rfl

@[simp] theorem endsOf_tail (orders : List OrderNodeSpec) :
    (endsOf orders).tail = orders.getLast?.map OrderNodeSpec.orderId := rfl

/-- The links of a level span its queue. -/
abbrev Held (self : LevelRef) (storage : OrderStorage) (orders : List OrderNodeSpec) : Prop :=
  Spans OrderNodeSpec.orderId storage self (endsOf orders) orders
variable {price : PriceTicks} {front back orders : List OrderNodeSpec} {order : OrderNodeSpec}
  {self : LevelRef} {storage : OrderStorage}

/-- The node of a held order. -/
theorem Held.deref (held : Held self storage orders) (front : List OrderNodeSpec)
    (order : OrderNodeSpec) (back : List OrderNodeSpec) (split : orders = front ++ order :: back) :
    storage.deref order.orderId = .ok ⟨order, front.getLast?.map OrderNodeSpec.orderId,
      back.head?.map OrderNodeSpec.orderId, some self⟩ := by
  rw [OrderStorage.deref, held.linked front order back split]

/-- A queued order passes the member check of its own level. -/
theorem Queue.endHolds (queue : Queue price orders) (node : OrderNode)
    (member : node.payload ∈ orders) (owned : node.owner = some self) :
    PriceLevel.endHolds self (describe price orders) node = true := by
  have unfilled := Word.toNat_pos (queue.unfilled _ member)
  have issued := Word.toNat_pos (queue.issued _ member)
  simp only [PriceLevel.endHolds, owned, queue.priced _ member, describe_price, decide_true,
    Bool.true_and, Bool.and_eq_true, decide_eq_true_eq, UInt64.lt_iff_toNat_lt]
  exact ⟨unfilled, issued⟩

theorem Queue.validateBoundaryState (queue : Queue price orders) (held : Held self storage orders) :
    (describe price orders).validateBoundaryState self storage = .ok (.ok ()) := by
  have positive := queue.positive
  unfold PriceLevel.validateBoundaryState
  rcases List.eq_nil_or_concat orders with rfl | ⟨init, last, rfl⟩
  · simp [positive]
  · rw [List.concat_eq_append] at *
    have nonzero := queue.aggregate_ne_zero (by simp)
    have tail := held.deref init last [] rfl
    cases init with
    | nil =>
      have holds := queue.endHolds ⟨last, none, none, some self⟩ (by simp) rfl
      simp_all
    | cons first middle =>
      have head := held.deref [] first (middle ++ [last]) rfl
      have headHolds := fun next => queue.endHolds ⟨first, none, next, some self⟩
        (by simp) rfl
      have tailHolds := fun previous => queue.endHolds ⟨last, previous, none, some self⟩
        (by simp) rfl
      have apart : first.orderId ≠ last.orderId := by
        have distinct := held.distinct
        simp only [List.cons_append, List.map_cons, List.map_append, List.map_nil,
          List.nodup_cons, List.mem_append, List.mem_singleton, not_or] at distinct
        exact distinct.1.2
      have final : (first :: (middle ++ [last])).getLast? = some last := by
        rw [← List.cons_append, List.getLast?_concat]
      simp_all

/-- A held order's neighbour on the head side, or the head pointer, points back at it. -/
theorem Held.neighbourHolds_previous (held : Held self storage (front ++ order :: back)) :
    neighbourHolds self storage order.orderId
      ((front ++ order :: back).head?.map OrderNodeSpec.orderId)
      (front.getLast?.map OrderNodeSpec.orderId) Node.next = .ok true := by
  rcases List.eq_nil_or_concat front with rfl | ⟨init, last, rfl⟩
  · simp [neighbourHolds]
  · rw [List.concat_eq_append] at *
    have before := held.deref init last (order :: back) (by simp)
    simp [neighbourHolds, before]

/-- A held order's neighbour on the tail side, or the tail pointer, points back at it. -/
theorem Held.neighbourHolds_next (held : Held self storage (front ++ order :: back)) :
    neighbourHolds self storage order.orderId
      ((front ++ order :: back).getLast?.map OrderNodeSpec.orderId)
      (back.head?.map OrderNodeSpec.orderId) Node.previous = .ok true := by
  cases back with
  | nil => simp [neighbourHolds]
  | cons next rest =>
    have behind := held.deref (front ++ [order]) next rest (by simp)
    simp [neighbourHolds, behind]

/-- A queued order passes the membership check. -/
theorem Queue.validateMember (queue : Queue price (front ++ order :: back))
    (held : Held self storage (front ++ order :: back)) :
    (describe price (front ++ order :: back)).validateMember self storage order.orderId =
      .ok (.ok ()) := by
  have holds := queue.endHolds ⟨order, front.getLast?.map OrderNodeSpec.orderId,
    back.head?.map OrderNodeSpec.orderId, some self⟩ (by simp) rfl
  unfold PriceLevel.validateMember
  rw [queue.validateBoundaryState held]
  simp only [Run.ok_bind, held.deref front order back rfl, describe_ends, endsOf_head, endsOf_tail,
    held.neighbourHolds_previous, held.neighbourHolds_next, holds, ne_eq, not_true_eq_false,
    Bool.not_true, Bool.false_eq_true, ↓reduceIte, Run.pure_eq]

/-- The priority of a queue's last order, zero for the empty queue. -/
def lastPriority (orders : List OrderNodeSpec) : Sequence :=
  (orders.getLast?.map OrderNodeSpec.prioritySequence).getD 0

/-- The state of the forward pass after a part of the queue. -/
def passOf (orders : List OrderNodeSpec) : ForwardPass :=
  ⟨orders.getLast?.map OrderNodeSpec.orderId, lastPriority orders, orders.length, aggregate orders⟩

/-- The node behind a held order points back at it. -/
theorem Held.linkReturns_next (held : Held self storage (front ++ order :: back)) :
    linkReturns storage order.orderId (back.head?.map OrderNodeSpec.orderId) Node.previous =
      .ok true := by
  cases back with
  | nil => simp [linkReturns]
  | cons next rest =>
    have behind := held.deref (front ++ [order]) next rest (by simp)
    simp [linkReturns, behind]

/-- The node before a held order points forward at it. -/
theorem Held.linkReturns_previous (held : Held self storage (front ++ order :: back)) :
    linkReturns storage order.orderId (front.getLast?.map OrderNodeSpec.orderId) Node.next =
      .ok true := by
  rcases List.eq_nil_or_concat front with rfl | ⟨init, last, rfl⟩
  · simp [linkReturns]
  · rw [List.concat_eq_append] at *
    have before := held.deref init last (order :: back) (by simp)
    simp [linkReturns, before]

/-- An order arrives later than everything queued before it. -/
theorem Queue.lastPriority_lt (queue : Queue price (front ++ order :: back))
    (nonempty : front ≠ []) :
    lastPriority front < order.prioritySequence := by
  rcases List.eq_nil_or_concat front with rfl | ⟨init, last, rfl⟩
  · contradiction
  · have increasing := queue.increasing
    simp only [List.concat_eq_append, List.append_assoc, List.cons_append, List.nil_append,
      List.pairwise_append, List.pairwise_cons, List.mem_cons, forall_eq_or_imp] at increasing
    simpa [lastPriority] using increasing.2.1.1.1

/-- Adding the next order of a queue to the sum of the earlier ones does not overflow. -/
theorem Queue.checkedAdd_next (queue : Queue price (front ++ order :: back)) :
    Word.checkedAdd (aggregate front) order.remainingQuantity =
      some (aggregate (front ++ [order])) := by
  have fits := queue.fits
  rw [total_append, total_cons] at fits
  have sum : (aggregate front).toNat = total front := PriceLevel.aggregate_toNat (by omega)
  rw [Word.checkedAdd_of_fits (by omega), aggregate_append]
  simp

/-- The orders before another one of the same queue are fewer than any word. -/
theorem Queue.atMax64_length (queue : Queue price (front ++ order :: back)) :
    Word.atMax64 front.length = false := by
  have fits := queue.fits
  have bound := length_le_total queue.unfilled
  simp only [List.length_append, List.length_cons] at bound
  exact Word.atMax64_of_lt (by omega)

/-- A node in its place passes the forward pass. -/
theorem visitForward_ok {level : PriceLevel} (pass : ForwardPass) (current : OrderId)
    (node : OrderNode) {sum : Quantity} (owned : node.owner = some self)
    (priced : node.payload.price = level.price) (unfilled : node.payload.remainingQuantity ≠ 0)
    (issued : node.payload.prioritySequence ≠ 0)
    (later : pass.previous.isSome = true → pass.previousSequence < node.payload.prioritySequence)
    (linked : node.previous = pass.previous)
    (returns : linkReturns storage current node.next Node.previous = .ok true)
    (count : Word.atMax64 pass.observedCount = false)
    (added : Word.checkedAdd pass.observedAggregate node.payload.remainingQuantity = some sum) :
    visitForward self level storage pass current node = .ok (.ok
      ⟨some current, node.payload.prioritySequence, pass.observedCount + 1, sum⟩) := by
  have ordered : ¬ (pass.previous.isSome = true ∧
      node.payload.prioritySequence ≤ pass.previousSequence) := by grind
  simp [visitForward, owned, priced, unfilled, issued, linked, ordered, returns, count, added]

/-- The forward pass accepts the next order of a queue. -/
theorem Queue.visitForward (queue : Queue price (front ++ order :: back))
    (held : Held self storage (front ++ order :: back)) :
    PriceLevel.visitForward self (describe price (front ++ order :: back)) storage (passOf front)
      order.orderId ⟨order, front.getLast?.map OrderNodeSpec.orderId,
        back.head?.map OrderNodeSpec.orderId, some self⟩ =
      .ok (.ok (passOf (front ++ [order]))) := by
  have member : order ∈ front ++ order :: back := by simp
  have later : (passOf front).previous.isSome = true →
      (passOf front).previousSequence < order.prioritySequence := by
    intro present
    refine queue.lastPriority_lt fun empty => ?_
    simp [empty, passOf] at present
  rw [visitForward_ok (passOf front) order.orderId ⟨order,
    front.getLast?.map OrderNodeSpec.orderId, back.head?.map OrderNodeSpec.orderId, some self⟩
    rfl (queue.priced _ member) (queue.unfilled _ member)
    (queue.issued _ member) later rfl held.linkReturns_next queue.atMax64_length
    queue.checkedAdd_next]
  simp [passOf, lastPriority]

/-- The forward pass accepts what remains of a queue. -/
theorem Queue.scanForward {whole : List OrderNodeSpec} (queue : Queue price whole)
    (held : Held self storage whole) (back : List OrderNodeSpec) :
    ∀ front steps, whole = front ++ back → back.length ≤ steps →
      PriceLevel.scanForward self (describe price whole) storage steps (passOf front)
        (back.head?.map OrderNodeSpec.orderId) = .ok (.ok (passOf whole)) := by
  induction back with
  | nil =>
    intro front steps split _
    simp [PriceLevel.scanForward, split]
  | cons order rest ih =>
    intro front steps split enough
    obtain ⟨steps, rfl⟩ : ∃ fewer, steps = fewer + 1 :=
      ⟨steps - 1, by simp only [List.length_cons] at enough; omega⟩
    subst split
    have later := ih (front ++ [order]) steps (by simp) (by simpa using enough)
    rw [List.head?_cons, Option.map_some, PriceLevel.scanForward, held.deref front order rest rfl,
      Run.ok_bind,
      queue.visitForward held, Run.ok_bind]
    exact later

/-- The backward pass accepts what remains of a queue. -/
theorem Held.scanBackward {whole : List OrderNodeSpec} (held : Held self storage whole)
    (front : List OrderNodeSpec) :
    ∀ back steps, whole = front.reverse ++ back → front.length ≤ steps →
      PriceLevel.scanBackward storage steps (back.head?.map OrderNodeSpec.orderId)
        (front.head?.map OrderNodeSpec.orderId) =
          .ok (.ok (whole.head?.map OrderNodeSpec.orderId)) := by
  induction front with
  | nil =>
    intro back steps split _
    simp [PriceLevel.scanBackward, split]
  | cons order rest ih =>
    intro back steps split enough
    obtain ⟨steps, rfl⟩ : ∃ fewer, steps = fewer + 1 :=
      ⟨steps - 1, by simp only [List.length_cons] at enough; omega⟩
    rw [List.reverse_cons, List.append_assoc, List.singleton_append] at split
    subst split
    have earlier := ih (order :: back) steps rfl (by simpa using enough)
    have node := held.deref rest.reverse order back rfl
    have returns := held.linkReturns_previous
    rw [List.getLast?_reverse] at node returns
    rw [List.head?_cons, Option.map_some, PriceLevel.scanBackward, node, Run.ok_bind]
    simp only [ne_eq, not_true_eq_false, ↓reduceIte, returns, Run.ok_bind, Bool.not_true,
      Bool.false_eq_true]
    exact earlier

/-- A level that describes a queue and holds it passes its own validation. -/
theorem Queue.validateInvariants (queue : Queue price orders) (held : Held self storage orders) :
    (describe price orders).validateInvariants self storage = .ok .none := by
  have positive := queue.positive
  have size := held.length_le_size
  have acyclic := held.pursue_eq_false (Nat.lt_succ_of_le size)
  have forward := queue.scanForward held orders [] (storage.size + 1) rfl (by omega)
  have backward := Held.scanBackward held orders.reverse [] (storage.size + 1) (by simp)
    (by rw [List.length_reverse]; omega)
  unfold PriceLevel.validateInvariants
  rcases List.eq_nil_or_concat orders with rfl | ⟨init, last, rfl⟩
  · simp [positive]
  · rw [List.concat_eq_append] at *
    have tail := held.deref init last [] rfl
    cases init with
    | nil => simp_all [passOf, lastPriority]
    | cons first middle =>
      have head := held.deref [] first (middle ++ [last]) rfl
      have final : (first :: (middle ++ [last])).getLast? = some last := by
        rw [← List.cons_append, List.getLast?_concat]
      simp_all [passOf, lastPriority]

/-- The postcondition check of a level that describes its queue passes in both builds. -/
theorem Queue.enforcePostconditions (checks : Bool) (queue : Queue price orders)
    (held : Held self storage orders) :
    (describe price orders).enforcePostconditions checks self storage = .ok () := by
  cases checks with
  | false => rfl
  | true => simp [PriceLevel.enforcePostconditions, queue.validateInvariants held]

/-- The tail of a queue does not block an order that comes after all of it. -/
theorem Queue.tailBlocks (queue : Queue price (orders ++ [order]))
    (held : Held self storage orders) :
    PriceLevel.tailBlocks storage (orders.getLast?.map OrderNodeSpec.orderId)
      order.prioritySequence = .ok false := by
  rcases List.eq_nil_or_concat orders with rfl | ⟨init, last, rfl⟩
  · rfl
  · rw [List.concat_eq_append] at *
    have later := queue.lastPriority_lt (by simp)
    have above : ¬ order.prioritySequence ≤ last.prioritySequence := by
      simp only [lastPriority, List.getLast?_append, List.getLast?_singleton, Option.some_or,
        Option.map_some, Option.getD_some] at later
      grind
    simp [PriceLevel.tailBlocks, held.deref init last [] rfl, above]

/-- An unlinked order that comes after the whole queue. -/
structure Arrives (storage : OrderStorage) (orders : List OrderNodeSpec) (order : OrderNodeSpec) :
    Prop where
  /-- The order's node is stored and not linked. -/
  stored : storage[order.orderId]? = some (Node.detached order)
  /-- The order is not queued yet. -/
  fresh : order.orderId ∉ ids orders

/-- The links after an order arrived span the longer queue. -/
theorem Held.pushBack (held : Held self storage orders) (arrives : Arrives storage orders order) :
    Held self (Intrusive.pushBack self order.orderId storage (endsOf orders)).1
      (orders ++ [order]) := by
  have spans := Spans.pushBack held arrives.stored rfl arrives.fresh
  have ends := spans.ends_eq
  rw [ends] at spans
  exact spans

/-- An append whose checks all pass. -/
theorem append_ok (checks : Bool) {level next : PriceLevel} {node : OrderId} {value : OrderNode}
    {sum : Quantity} {linked : OrderStorage × Ends OrderId}
    (boundary : level.validateBoundaryState self storage = .ok (.ok ()))
    (stored : storage.deref node = .ok value) (unfilled : value.payload.remainingQuantity ≠ 0)
    (priced : value.payload.price = level.price) (unlinked : value.isLinked = false)
    (issued : value.payload.prioritySequence ≠ 0)
    (later : tailBlocks storage level.ends.tail value.payload.prioritySequence = .ok false)
    (added : Word.checkedAdd level.aggregateQuantity value.payload.remainingQuantity = some sum)
    (count : Word.atMax64 level.orderCount = false)
    (pushed : Intrusive.pushBack self node storage level.ends = linked)
    (described : (⟨level.price, sum, level.orderCount + 1, linked.2⟩ : PriceLevel) = next)
    (post : next.enforcePostconditions checks self linked.1 = .ok ()) :
    level.append checks self storage node = .ok (.ok (linked.1, next)) := by
  subst described
  unfold append
  simp only [boundary, Run.ok_bind, stored, unfilled, priced, unlinked, issued, later, added,
    count, pushed, ne_eq, not_true_eq_false, Bool.false_eq_true, ↓reduceIte]
  rw [post]
  rfl

/-- Appending an order that comes after the whole queue extends the queue. -/
theorem Queue.append (checks : Bool) (queue : Queue price (orders ++ [order]))
    (held : Held self storage orders) (arrives : Arrives storage orders order) :
    (describe price orders).append checks self storage order.orderId = .ok (.ok
      ((Intrusive.pushBack self order.orderId storage (endsOf orders)).1,
        describe price (orders ++ [order]))) := by
  have before : Queue price orders := queue.sublist (by simp)
  have member : order ∈ orders ++ [order] := by simp
  have node : storage.deref order.orderId = .ok (Node.detached order) := by
    rw [OrderStorage.deref, arrives.stored]
  have spans := Spans.pushBack held arrives.stored rfl arrives.fresh
  have described : (⟨price, aggregate (orders ++ [order]), orders.length + 1,
      (Intrusive.pushBack self order.orderId storage (endsOf orders)).2⟩ : PriceLevel) =
        describe price (orders ++ [order]) := by
    rw [spans.ends_eq, describe, endsOf, List.length_append, List.length_singleton]
  exact append_ok checks (before.validateBoundaryState held) node (queue.unfilled _ member)
    (queue.priced _ member) rfl (queue.issued _ member) (queue.tailBlocks held)
    queue.checkedAdd_next queue.atMax64_length rfl described
    (queue.enforcePostconditions checks (held.pushBack arrives))

/-- The links after an order left span the shorter queue. -/
theorem Held.unlink (held : Held self storage (front ++ order :: back)) :
    Held self (Intrusive.unlink order.orderId storage (endsOf (front ++ order :: back))).1
      (front ++ back) := by
  have spans := Spans.unlink held
  have ends := spans.ends_eq
  rw [ends] at spans
  exact spans

/-- Taking one order's quantity out of a queue's sum leaves the sum of the others. -/
theorem Queue.checkedSubtract_order (queue : Queue price (front ++ order :: back)) :
    Word.checkedSubtract (aggregate (front ++ order :: back)) order.remainingQuantity =
      some (aggregate (front ++ back)) := by
  have whole := queue.aggregate_toNat
  have rest := queue.remove.aggregate_toNat
  have fits := queue.fits
  simp only [total_append, total_cons] at whole rest fits
  rw [Word.checkedSubtract_of_le (by omega)]
  refine congrArg some (Word.eq_of_toNat ?_)
  rw [Word.toNat_sub_of_toNat_le (by omega)]
  omega

/-- An erase whose checks all pass. -/
theorem erase_ok (checks : Bool) {level next : PriceLevel} {node : OrderId} {value : OrderNode}
    {sum : Quantity} {joined : OrderStorage × Ends OrderId}
    (member : level.validateMember self storage node = .ok (.ok ()))
    (nonempty : level.orderCount ≠ 0) (stored : storage.deref node = .ok value)
    (removed : Word.checkedSubtract level.aggregateQuantity value.payload.remainingQuantity =
      some sum)
    (consistent : level.orderCount - 1 = 0 ↔ sum = 0)
    (unlinked : Intrusive.unlink node storage level.ends = joined)
    (described : (⟨level.price, sum, level.orderCount - 1, joined.2⟩ : PriceLevel) = next)
    (post : next.enforcePostconditions checks self joined.1 = .ok ()) :
    level.erase checks self storage node = .ok (.ok (joined.1, next)) := by
  subst described
  have agree : ((decide (level.orderCount - 1 = 0) && decide (sum ≠ 0)) ||
      (decide (level.orderCount - 1 ≠ 0) && decide (sum = 0))) = false := by
    by_cases last : level.orderCount - 1 = 0
    · simp [last, consistent.mp last]
    · simp [last, mt consistent.mpr last]
  unfold erase
  simp only [member, Run.ok_bind, nonempty, stored, removed, agree, unlinked, Bool.false_eq_true,
    ↓reduceIte]
  rw [post]
  rfl

/-- Erasing a queued order removes it from the queue. -/
theorem Queue.erase (checks : Bool) (queue : Queue price (front ++ order :: back))
    (held : Held self storage (front ++ order :: back)) :
    (describe price (front ++ order :: back)).erase checks self storage order.orderId = .ok (.ok
      ((Intrusive.unlink order.orderId storage (endsOf (front ++ order :: back))).1,
        describe price (front ++ back))) := by
  have count : (front ++ order :: back).length = (front ++ back).length + 1 := by
    simp only [List.length_append, List.length_cons]
    omega
  have spans := Spans.unlink held
  have described : (⟨price, aggregate (front ++ back), (front ++ order :: back).length - 1,
      (Intrusive.unlink order.orderId storage (endsOf (front ++ order :: back))).2⟩ :
        PriceLevel) = describe price (front ++ back) := by
    rw [spans.ends_eq, describe, endsOf, count, Nat.add_sub_cancel]
  have consistent : (front ++ order :: back).length - 1 = 0 ↔ aggregate (front ++ back) = 0 := by
    rw [count, Nat.add_sub_cancel, List.length_eq_zero_iff]
    refine ⟨fun empty => by rw [empty]; rfl, fun zero => ?_⟩
    by_contra nonempty
    exact queue.remove.aggregate_ne_zero nonempty zero
  have nonempty : (describe price (front ++ order :: back)).orderCount ≠ 0 := by
    rw [describe_orderCount, count]
    omega
  exact erase_ok checks (queue.validateMember held) nonempty (held.deref front order back rfl)
    queue.checkedSubtract_order consistent rfl described
    (queue.remove.enforcePostconditions checks held.unlink)

/-- The links after a reduction span the queue with the reduced order. -/
theorem Held.reduce (held : Held self storage (front ++ order :: back)) (remaining : Quantity) :
    Held self (Intrusive.update order.orderId (fun old => { old with
        payload := old.payload.withRemaining remaining }) storage)
      (front ++ order.withRemaining remaining :: back) := by
  have spans := Spans.replace held (order.withRemaining_orderId remaining)
  have same : Intrusive.update order.orderId (fun old => { old with
      payload := old.payload.withRemaining remaining }) storage =
      Intrusive.update order.orderId (fun node => { node with
        payload := order.withRemaining remaining }) storage := by
    simp only [Intrusive.update, held.linked front order back rfl]
  have ends := spans.ends_eq
  rw [ends] at spans
  rw [same]
  exact spans

/-- A reduction whose checks all pass. -/
theorem reduceRemaining_ok (checks : Bool) {level next : PriceLevel} {node : OrderId}
    {value : OrderNode} {reduction remaining sum : Quantity}
    (member : level.validateMember self storage node = .ok (.ok ()))
    (stored : storage.deref node = .ok value) (positive : reduction ≠ 0)
    (short : reduction < value.payload.remainingQuantity)
    (reduced : Word.checkedSubtract value.payload.remainingQuantity reduction = some remaining)
    (unfilled : remaining ≠ 0)
    (removed : Word.checkedSubtract level.aggregateQuantity reduction = some sum)
    (nonzero : sum ≠ 0) (described : { level with aggregateQuantity := sum } = next)
    (post : next.enforcePostconditions checks self (Intrusive.update node (fun old => { old with
      payload := old.payload.withRemaining remaining }) storage) = .ok ()) :
    level.reduceRemaining checks self storage node reduction = .ok (.ok
      (Intrusive.update node (fun old => { old with
        payload := old.payload.withRemaining remaining }) storage, next)) := by
  subst described
  have bounded : (decide (reduction = 0) ||
      decide (value.payload.remainingQuantity ≤ reduction)) = false := by
    simp only [positive, decide_false, Bool.false_or, decide_eq_false_iff_not]
    grind
  unfold reduceRemaining
  simp only [member, Run.ok_bind, stored, bounded, reduced, unfilled, removed, nonzero,
    Bool.false_eq_true, ↓reduceIte]
  rw [post]
  rfl

/-- Reducing a queued order without exhausting it reduces it in the queue. -/
theorem Queue.reduceRemaining (checks : Bool) (queue : Queue price (front ++ order :: back))
    (held : Held self storage (front ++ order :: back)) {reduction : Quantity}
    (positive : reduction ≠ 0) (smaller : reduction.toNat < order.remainingQuantity.toNat) :
    (describe price (front ++ order :: back)).reduceRemaining checks self storage order.orderId
      reduction = .ok (.ok
      (Intrusive.update order.orderId (fun old => { old with
        payload := old.payload.withRemaining (order.remainingQuantity - reduction) }) storage,
        describe price (front ++
          order.withRemaining (order.remainingQuantity - reduction) :: back))) := by
  have left := Word.toNat_sub_of_toNat_le (Nat.le_of_lt smaller)
  have unfilled : order.remainingQuantity - reduction ≠ 0 := by
    rw [ne_eq, Word.eq_zero_iff, left]
    omega
  have reducedQueue := queue.reduce unfilled (by rw [left]; omega)
  have whole := queue.aggregate_toNat
  have after := reducedQueue.aggregate_toNat
  simp only [total_append, total_cons, OrderNodeSpec.withRemaining_remainingQuantity, left]
    at whole after
  have removed : Word.checkedSubtract (aggregate (front ++ order :: back)) reduction =
      some (aggregate (front ++
        order.withRemaining (order.remainingQuantity - reduction) :: back)) := by
    rw [Word.checkedSubtract_of_le (by omega)]
    refine congrArg some (Word.eq_of_toNat ?_)
    rw [Word.toNat_sub_of_toNat_le (by omega)]
    omega
  have described : { describe price (front ++ order :: back) with
      aggregateQuantity := aggregate (front ++
        order.withRemaining (order.remainingQuantity - reduction) :: back) } =
      describe price (front ++
        order.withRemaining (order.remainingQuantity - reduction) :: back) := by
    have same : ids (front ++ order :: back) =
        ids (front ++ order.withRemaining (order.remainingQuantity - reduction) :: back) := by
      simp [ids]
    rw [describe, describe, endsOf_congr same, List.length_append, List.length_append]
    rfl
  exact reduceRemaining_ok checks (queue.validateMember held) (held.deref front order back rfl)
    positive (UInt64.lt_iff_toNat_lt.mpr smaller)
    (Word.checkedSubtract_of_le (Nat.le_of_lt smaller)) unfilled removed
    (reducedQueue.aggregate_ne_zero (by simp)) described
    (reducedQueue.enforcePostconditions checks (held.reduce _))

end PriceLevel

end AtlasLob
