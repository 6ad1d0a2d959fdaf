import AtlasLob.Domain
import AtlasLob.Library.IntrusiveList

/-!
# One price level

A level is the end pointers of an intrusive FIFO list together with its price, its order count
and its cached aggregate. The operations check the state they touch before they change it, and
validate the whole level afterwards when the invariant checks are compiled in. A failed check is
an error value; a failed validation, like any other broken contract of the source, halts.
-/

namespace AtlasLob

open Intrusive

/-- The values of one resting order. -/
structure OrderNodeSpec where
  orderId : OrderId
  clientId : ClientId
  instrumentId : InstrumentId
  side : Side
  price : PriceTicks
  remainingQuantity : Quantity
  prioritySequence : Sequence
  deriving DecidableEq, Repr

/-- The same order with another remaining quantity. -/
def OrderNodeSpec.withRemaining (order : OrderNodeSpec) (remaining : Quantity) : OrderNodeSpec :=
  { order with remainingQuantity := remaining }

/-- The address of a level: the slot of a side and price, or the staging level of a pending
residual. A detached level that is about to be published has the address of its slot. -/
inductive LevelRef
  /-- The level under a price of a side. -/
  | slot (side : Side) (price : PriceTicks)
  /-- The level that holds a pending residual. -/
  | staging
  deriving DecidableEq, Repr

/-- An order node with its links and backlink. -/
abbrev OrderNode := Node OrderId OrderNodeSpec LevelRef

/-- The storage owns every node under its order ID, so an order ID is a node's address. -/
abbrev OrderStorage := Heap OrderId OrderNodeSpec LevelRef

/-- What a level operation may refuse. -/
inductive PriceLevelError
  | invalidLevelPrice
  | invalidRemainingQuantity
  | priceMismatch
  | nodeAlreadyLinked
  | invalidPrioritySequence
  | nonmonotonicPriority
  | aggregateOverflow
  | orderCountOverflow
  | nodeNotInLevel
  | invalidReduction
  | aggregateUnderflow
  | levelInvariantViolation
  deriving DecidableEq, Repr

/-- What a level validation may find; `none` is a valid level. -/
inductive PriceLevelInvariantError
  | none
  | invalidLevelPrice
  | emptyHasHead
  | emptyHasTail
  | emptyHasAggregate
  | nonemptyMissingHead
  | nonemptyMissingTail
  | headHasPrevious
  | tailHasNext
  | forwardCycle
  | backwardCycle
  | wrongBacklink
  | wrongPrice
  | zeroRemainingQuantity
  | zeroPrioritySequence
  | nonmonotonicPriority
  | brokenPreviousLink
  | brokenNextLink
  | forwardTailMismatch
  | backwardHeadMismatch
  | countOverflow
  | countMismatch
  | aggregateOverflow
  | aggregateMismatch
  deriving DecidableEq, Repr

/-- One price level. -/
structure PriceLevel where
  price : PriceTicks
  /-- The cached sum of remaining quantities. -/
  aggregateQuantity : Quantity
  /-- The cached number of orders. -/
  orderCount : Nat
  /-- The head and tail pointers. -/
  ends : Ends OrderId
  deriving DecidableEq

/-- The node behind a pointer. -/
def OrderStorage.deref (storage : OrderStorage) (node : OrderId) : Run OrderNode :=
  match storage[node]? with
  | some value => .ok value
  | none => .error .dangling

namespace PriceLevel

/-- A fresh level. -/
def create (price : PriceTicks) : PriceLevel := ⟨price, 0, 0, Ends.empty⟩

/-- A level without orders. -/
def empty (level : PriceLevel) : Bool := level.orderCount = 0

/-- The orders from head to tail. Links of a book never form a cycle, so the bound cuts
nothing. -/
def orders (level : PriceLevel) (storage : OrderStorage) : List OrderNodeSpec :=
  (walk storage storage.size level.ends.head).map Node.payload

/-- The check of one end node shared by the head and the tail. -/
def endHolds (self : LevelRef) (level : PriceLevel) (node : OrderNode) : Bool :=
  node.owner = some self && node.payload.price = level.price &&
    0 < node.payload.remainingQuantity && 0 < node.payload.prioritySequence

/-- The constant-time consistency check made before every operation. -/
def validateBoundaryState (self : LevelRef) (level : PriceLevel) (storage : OrderStorage) :
    Run (Except PriceLevelError Unit) := do
  if level.price ≤ 0 then return .error .invalidLevelPrice
  if level.orderCount = 0 then
    if level.ends.head.isSome || level.ends.tail.isSome || level.aggregateQuantity ≠ 0 then
      return .error .levelInvariantViolation
    return .ok ()
  match level.ends.head, level.ends.tail with
  | some first, some last =>
    if level.aggregateQuantity = 0 then return .error .levelInvariantViolation
    let head ← storage.deref first
    let tail ← storage.deref last
    if head.previous.isSome || tail.next.isSome then return .error .levelInvariantViolation
    if !(endHolds self level head && endHolds self level tail) then
      return .error .levelInvariantViolation
    if level.orderCount = 1 && (first ≠ last || head.next.isSome || tail.previous.isSome) then
      return .error .levelInvariantViolation
    if 1 < level.orderCount && (first = last || head.next.isNone || tail.previous.isNone) then
      return .error .levelInvariantViolation
    return .ok ()
  | _, _ => return .error .levelInvariantViolation

/-- Whether the neighbour on one side points back, or the end pointer does when there is none. -/
def neighbourHolds (self : LevelRef) (storage : OrderStorage) (node : OrderId)
    (terminal neighbour : Option OrderId) (back : OrderNode → Option OrderId) : Run Bool :=
  match neighbour with
  | none => .ok (terminal = some node)
  | some other => do
    let value ← storage.deref other
    return back value = some node && value.owner = some self

/-- The check that a node is a member of the level. -/
def validateMember (self : LevelRef) (level : PriceLevel) (storage : OrderStorage)
    (node : OrderId) : Run (Except PriceLevelError Unit) := do
  match ← validateBoundaryState self level storage with
  | .error error => return .error error
  | .ok () =>
    let value ← storage.deref node
    if value.owner ≠ some self then return .error .nodeNotInLevel
    if !endHolds self level value then return .error .levelInvariantViolation
    if !(← neighbourHolds self storage node level.ends.head value.previous Node.next) then
      return .error .levelInvariantViolation
    if !(← neighbourHolds self storage node level.ends.tail value.next Node.previous) then
      return .error .levelInvariantViolation
    return .ok ()

/-- Whether a tail, if there is one, has a priority at or after the given one. -/
def tailBlocks (storage : OrderStorage) (tail : Option OrderId) (sequence : Sequence) : Run Bool :=
  match tail with
  | none => .ok false
  | some last => do
    let node ← storage.deref last
    return sequence ≤ node.payload.prioritySequence

/-- What the forward pass of a validation carries from node to node. -/
structure ForwardPass where
  previous : Option OrderId
  previousSequence : Sequence
  observedCount : Nat
  observedAggregate : Quantity

/-- Whether the neighbour behind a link points back. -/
def linkReturns (storage : OrderStorage) (current : OrderId) (neighbour : Option OrderId)
    (back : OrderNode → Option OrderId) : Run Bool :=
  match neighbour with
  | none => .ok true
  | some other => do
    let value ← storage.deref other
    return back value = some current

/-- The checks of one node in the forward pass, and the pass after it. -/
def visitForward (self : LevelRef) (level : PriceLevel) (storage : OrderStorage)
    (pass : ForwardPass) (current : OrderId) (node : OrderNode) :
    Run (Except PriceLevelInvariantError ForwardPass) := do
  if node.owner ≠ some self then return .error .wrongBacklink
  if node.payload.price ≠ level.price then return .error .wrongPrice
  if node.payload.remainingQuantity = 0 then return .error .zeroRemainingQuantity
  if node.payload.prioritySequence = 0 then return .error .zeroPrioritySequence
  if pass.previous.isSome && node.payload.prioritySequence ≤ pass.previousSequence then
    return .error .nonmonotonicPriority
  if node.previous ≠ pass.previous then return .error .brokenPreviousLink
  if !(← linkReturns storage current node.next Node.previous) then return .error .brokenNextLink
  if Word.atMax64 pass.observedCount then return .error .countOverflow
  match Word.checkedAdd pass.observedAggregate node.payload.remainingQuantity with
  | none => return .error .aggregateOverflow
  | some aggregate =>
    return .ok ⟨some current, node.payload.prioritySequence, pass.observedCount + 1, aggregate⟩

/-- The forward pass: links, prices, quantities and priorities of every node. -/
def scanForward (self : LevelRef) (level : PriceLevel) (storage : OrderStorage) :
    Nat → ForwardPass → Option OrderId → Run (Except PriceLevelInvariantError ForwardPass)
  | _, pass, none => .ok (.ok pass)
  | 0, _, some _ => .error .divergence
  | steps + 1, pass, some current => do
    let node ← storage.deref current
    match ← visitForward self level storage pass current node with
    | .error error => return .error error
    | .ok next => scanForward self level storage steps next node.next

/-- The backward pass: the node reached last, if every link agrees. -/
def scanBackward (storage : OrderStorage) :
    Nat → Option OrderId → Option OrderId → Run (Except PriceLevelInvariantError (Option OrderId))
  | _, next, none => .ok (.ok next)
  | 0, _, some _ => .error .divergence
  | steps + 1, next, some current => do
    let node ← storage.deref current
    if node.next ≠ next then return .error .brokenNextLink
    if !(← linkReturns storage current node.previous Node.next) then
      return .error .brokenPreviousLink
    scanBackward storage steps (some current) node.previous

/-- The full validation of a level. Cycles are excluded before the passes over the links. -/
def validateInvariants (self : LevelRef) (level : PriceLevel) (storage : OrderStorage) :
    Run PriceLevelInvariantError := do
  if level.price ≤ 0 then return .invalidLevelPrice
  if level.orderCount = 0 then
    if level.ends.head.isSome then return .emptyHasHead
    if level.ends.tail.isSome then return .emptyHasTail
    if level.aggregateQuantity ≠ 0 then return .emptyHasAggregate
    return .none
  match level.ends.head, level.ends.tail with
  | none, _ => return .nonemptyMissingHead
  | some _, none => return .nonemptyMissingTail
  | some first, some last =>
    let head ← storage.deref first
    let tail ← storage.deref last
    if head.previous.isSome then return .headHasPrevious
    if tail.next.isSome then return .tailHasNext
    match pursue Node.next storage (storage.size + 1) (some first) (some first) with
    | none => .error .divergence
    | some true => return .forwardCycle
    | some false =>
    match pursue Node.previous storage (storage.size + 1) (some last) (some last) with
    | none => .error .divergence
    | some true => return .backwardCycle
    | some false =>
    match ← scanForward self level storage (storage.size + 1) ⟨none, 0, 0, 0⟩ (some first) with
    | .error error => return error
    | .ok pass =>
      if pass.previous ≠ some last then return .forwardTailMismatch
      match ← scanBackward storage (storage.size + 1) none (some last) with
      | .error error => return error
      | .ok next =>
        if next ≠ some first then return .backwardHeadMismatch
        if pass.observedCount ≠ level.orderCount then return .countMismatch
        if pass.observedAggregate ≠ level.aggregateQuantity then return .aggregateMismatch
        return .none

section Operations

variable (checks : Bool)

/-- The validation made after every operation when the checks are compiled in. -/
def enforcePostconditions (self : LevelRef) (level : PriceLevel) (storage : OrderStorage) :
    Run Unit := do
  if checks then
    let verdict ← level.validateInvariants self storage
    Run.require (verdict = .none) .terminate

/-- Link a node behind the tail. -/
def append (self : LevelRef) (level : PriceLevel) (storage : OrderStorage) (node : OrderId) :
    Run (Except PriceLevelError (OrderStorage × PriceLevel)) := do
  match ← validateBoundaryState self level storage with
  | .error error => return .error error
  | .ok () =>
    let value ← storage.deref node
    if value.payload.remainingQuantity = 0 then return .error .invalidRemainingQuantity
    if value.payload.price ≠ level.price then return .error .priceMismatch
    if value.isLinked then return .error .nodeAlreadyLinked
    if value.payload.prioritySequence = 0 then return .error .invalidPrioritySequence
    if ← tailBlocks storage level.ends.tail value.payload.prioritySequence then
      return .error .nonmonotonicPriority
    match Word.checkedAdd level.aggregateQuantity value.payload.remainingQuantity with
    | none => return .error .aggregateOverflow
    | some aggregate =>
      if Word.atMax64 level.orderCount then return .error .orderCountOverflow
      let (linked, ends) := pushBack self node storage level.ends
      let next : PriceLevel := ⟨level.price, aggregate, level.orderCount + 1, ends⟩
      enforcePostconditions checks self next linked
      return .ok (linked, next)

/-- Unlink a node. -/
def erase (self : LevelRef) (level : PriceLevel) (storage : OrderStorage) (node : OrderId) :
    Run (Except PriceLevelError (OrderStorage × PriceLevel)) := do
  match ← validateMember self level storage node with
  | .error error => return .error error
  | .ok () =>
    if level.orderCount = 0 then return .error .levelInvariantViolation
    let value ← storage.deref node
    match Word.checkedSubtract level.aggregateQuantity value.payload.remainingQuantity with
    | none => return .error .aggregateUnderflow
    | some aggregate =>
      let count := level.orderCount - 1
      if (count = 0 && aggregate ≠ 0) || (count ≠ 0 && aggregate = 0) then
        return .error .levelInvariantViolation
      let (joined, ends) := unlink node storage level.ends
      let next : PriceLevel := ⟨level.price, aggregate, count, ends⟩
      enforcePostconditions checks self next joined
      return .ok (joined, next)

/-- Reduce a member's remaining quantity without exhausting it. -/
def reduceRemaining (self : LevelRef) (level : PriceLevel) (storage : OrderStorage)
    (node : OrderId) (reduction : Quantity) :
    Run (Except PriceLevelError (OrderStorage × PriceLevel)) := do
  match ← validateMember self level storage node with
  | .error error => return .error error
  | .ok () =>
    let value ← storage.deref node
    if reduction = 0 || value.payload.remainingQuantity ≤ reduction then
      return .error .invalidReduction
    match Word.checkedSubtract value.payload.remainingQuantity reduction with
    | none => return .error .invalidReduction
    | some remaining =>
      if remaining = 0 then return .error .invalidReduction
      match Word.checkedSubtract level.aggregateQuantity reduction with
      | none => return .error .aggregateUnderflow
      | some aggregate =>
        if aggregate = 0 then return .error .levelInvariantViolation
        let reduced :=
          update node (fun old =>
            { old with payload := old.payload.withRemaining remaining }) storage
        let next : PriceLevel := { level with aggregateQuantity := aggregate }
        enforcePostconditions checks self next reduced
        return .ok (reduced, next)

end Operations

end PriceLevel

end AtlasLob
