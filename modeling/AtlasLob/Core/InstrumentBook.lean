import AtlasLob.Core.PriceLevel
import AtlasLob.Library.SortedMap

/-!
# One instrument's book

The book owns its order nodes, keeps the two sides as price-ordered maps of levels and indexes
every active order by ID. A residual that may rest is first prepared: its node is stored, linked
into a staging level and indexed while it stays invisible; a batch then applies all reductions
and publishes the residual, or the preparation is rolled back.
-/

namespace AtlasLob

open Intrusive

/-- What the order storage may refuse. -/
inductive StorageError
  | invalidOrderId
  | invalidClientId
  | invalidInstrumentId
  | invalidSide
  | invalidPrice
  | invalidRemainingQuantity
  | invalidPrioritySequence
  | duplicateOrderId
  | notOwned
  | nodeLinked
  deriving DecidableEq, Repr

namespace OrderStorage

/-- The value check of a new node. -/
def validateSpec (spec : OrderNodeSpec) : Option StorageError :=
  if spec.orderId = 0 then some .invalidOrderId
  else if spec.clientId = 0 then some .invalidClientId
  else if spec.instrumentId = 0 then some .invalidInstrumentId
  else if !spec.side.isValid then some .invalidSide
  else if spec.price ≤ 0 then some .invalidPrice
  else if spec.remainingQuantity = 0 then some .invalidRemainingQuantity
  else if spec.prioritySequence = 0 then some .invalidPrioritySequence
  else none

/-- Store a fresh, unlinked node under its order ID. -/
def create (storage : OrderStorage) (spec : OrderNodeSpec) : Except StorageError OrderStorage :=
  match validateSpec spec with
  | some error => .error error
  | none =>
    if storage.contains spec.orderId then .error .duplicateOrderId
    else .ok (storage.insert spec.orderId (Node.detached spec))

/-- Drop an unlinked node. -/
def destroy (storage : OrderStorage) (node : OrderId) : Except StorageError OrderStorage :=
  match storage[node]? with
  | none => .error .notOwned
  | some value => if value.isLinked then .error .nodeLinked else .ok (storage.erase node)

/-- The address of the node stored under an order ID. -/
def find (storage : OrderStorage) (orderId : OrderId) : Option OrderId :=
  if storage.contains orderId then some orderId else none

end OrderStorage

/-- What the active-order index may refuse. -/
inductive ActiveOrderIndexError
  | invalidOrderId
  | duplicateOrderId
  | unknownOrderId
  | pointerMismatch
  | indexInvariantViolation
  deriving DecidableEq, Repr

/-- Node addresses by order ID. -/
abbrev ActiveOrderIndex := Std.ExtTreeMap OrderId OrderId compare

namespace ActiveOrderIndex

/-- Whether an entry names a node that carries the entry's order ID. -/
def entryIsValid (storage : OrderStorage) (orderId node : OrderId) : Bool :=
  orderId ≠ 0 && (storage[node]?).any fun value => value.payload.orderId = orderId

/-- The node indexed under an order ID. -/
def find (index : ActiveOrderIndex) (storage : OrderStorage) (orderId : OrderId) :
    Option OrderId :=
  if orderId = 0 then none
  else (index[orderId]?).filter (entryIsValid storage orderId)

/-- Index a node under its order ID. -/
def insert (index : ActiveOrderIndex) (storage : OrderStorage) (node : OrderId) :
    Run (Except ActiveOrderIndexError ActiveOrderIndex) := do
  let value ← storage.deref node
  let orderId := value.payload.orderId
  if orderId = 0 then return .error .invalidOrderId
  match index[orderId]? with
  | some held =>
    if !entryIsValid storage orderId held then return .error .indexInvariantViolation
    return .error .duplicateOrderId
  | none => return .ok (Std.ExtTreeMap.insert index orderId node)

/-- Drop the entry of a node. -/
def erase (index : ActiveOrderIndex) (storage : OrderStorage) (node : OrderId) :
    Run (Except ActiveOrderIndexError ActiveOrderIndex) := do
  let value ← storage.deref node
  let orderId := value.payload.orderId
  if orderId = 0 then return .error .invalidOrderId
  match index[orderId]? with
  | none => return .error .unknownOrderId
  | some held =>
    if !entryIsValid storage orderId held then return .error .indexInvariantViolation
    if held ≠ node then return .error .pointerMismatch
    return .ok (Std.ExtTreeMap.erase index orderId)

/-- Every entry names a node with the entry's order ID. -/
def validateInvariants (index : ActiveOrderIndex) (storage : OrderStorage) : Bool :=
  index.toList.all fun entry => entryIsValid storage entry.1 entry.2

end ActiveOrderIndex

/-- What a book side may refuse. -/
inductive BookSideError
  | invalidPrice
  | levelNotFound
  | levelIdentityMismatch
  | levelNotEmpty
  | levelInvariantViolation
  | preparedLevelEmpty
  | preparedLevelConflict
  deriving DecidableEq, Repr

/-- What a side validation may find; `none` is a valid side. -/
inductive BookSideInvariantError
  | none
  | invalidPrice
  | nonmonotonicPrice
  | keyPriceMismatch
  | emptyLevel
  | levelInvariantViolation
  deriving DecidableEq, Repr

/-- The iteration order of a side: highest bid first, lowest ask first. -/
def bestPriceFirst (side : Side) (left right : PriceTicks) : Bool :=
  if side = .buy then right < left else left < right

/-- A price-ordered map of levels. -/
abbrev BookSide := List (PriceTicks × PriceLevel)

namespace BookSide

/-- Best-first prices, no empty level and valid levels. -/
def validateInvariants (side : Side) (storage : OrderStorage) :
    Option PriceTicks → BookSide → Run BookSideInvariantError
  | _, [] => .ok .none
  | previous, (price, level) :: rest => do
    if price ≤ 0 then return .invalidPrice
    if previous.any fun earlier => !bestPriceFirst side earlier price then
      return .nonmonotonicPrice
    if level.price ≠ price then return .keyPriceMismatch
    if level.empty then return .emptyLevel
    if (← level.validateInvariants (.slot side price) storage) ≠ .none then
      return .levelInvariantViolation
    validateInvariants side storage (some price) rest

end BookSide

/-- The end of a level's life; a level that still holds anything terminates. -/
def PriceLevel.destroy (level : PriceLevel) : Run Unit :=
  Run.require (level.orderCount = 0 && level.aggregateQuantity = 0 && level.ends.head.isNone &&
    level.ends.tail.isNone) .terminate

/-- A level allocated outside the visible side, to be published if its price has no level. -/
structure DetachedLevel where
  /-- The side it belongs to. -/
  side : Side
  /-- Whether the side still owns the publication. -/
  owned : Bool
  /-- The map node: price and level. -/
  node : Option (PriceTicks × PriceLevel)
  deriving DecidableEq

namespace DetachedLevel

/-- The level of the map node. -/
def level (detached : DetachedLevel) : Option PriceLevel := detached.node.map Prod.snd

/-- Whether the level can still be published. -/
def hasValue (detached : DetachedLevel) : Bool := detached.owned && detached.node.isSome

end DetachedLevel

/-- What a book operation may refuse, with the refusal of the component it came from. -/
inductive InstrumentBookError
  | invalidInstrumentId
  | instrumentMismatch
  | invalidSide
  | duplicateOrderId
  | unknownOrderId
  | nodeNotOwned
  | nodeNotIndexed
  | nodeNotLinked
  | sideMismatch
  | priceLevelMismatch
  | storageFailure (error : StorageError)
  | indexFailure (error : ActiveOrderIndexError)
  | bookSideFailure (error : BookSideError)
  | priceLevelFailure (error : PriceLevelError)
  | bookInvariantViolation
  | wouldCrossBook
  | preparationInProgress
  | replacementTransactionRequired
  | replacementMismatch
  deriving DecidableEq, Repr

/-- A planned reduction bound to the node it reduces. -/
structure PrevalidatedBookReduction where
  /-- The address of the node. Null and the nodes of other books are addresses this book does not
  store. -/
  node : OrderId
  orderId : OrderId
  clientId : ClientId
  side : Side
  price : PriceTicks
  remainingBefore : Quantity
  reduction : Quantity
  remainingAfter : Quantity
  prioritySequence : Sequence
  deriving DecidableEq, Repr

/-- Why a batch was refused before any mutation. -/
inductive PrevalidatedBatchError
  | bookInvariantViolation
  | invalidBinding
  | duplicateBinding
  | invalidReduction
  | preparationMismatch
  | residualWouldCross
  | residualAppendFailure
  deriving DecidableEq, Repr

/-- A refusal with the position of the reduction it is about. -/
structure PrevalidatedBatchFailure where
  error : PrevalidatedBatchError
  failingReduction : Nat
  deriving DecidableEq, Repr

/-- What a book validation may find; `none` is a valid book. -/
inductive InstrumentBookInvariantError
  | none
  | invalidInstrumentId
  | bidSideInvariant
  | askSideInvariant
  | indexInvariant
  | storageIndexSizeMismatch
  | traversalCountOverflow
  | nodeSideMismatch
  | nodeInstrumentMismatch
  | nodePriceMismatch
  | nodeBacklinkMismatch
  | nodeMissingFromIndex
  | nodeMissingFromStorage
  | traversalIndexSizeMismatch
  | nodeInvalidClientId
  | crossedBook
  | pendingStateMismatch
  | pendingNodeInvariant
  | pendingReplacementInvariant
  deriving DecidableEq, Repr

/-- One instrument's book. -/
structure InstrumentBook where
  instrumentId : InstrumentId
  storage : OrderStorage
  bids : BookSide
  asks : BookSide
  index : ActiveOrderIndex
  /-- The node of a prepared residual. -/
  pendingNode : Option OrderId
  /-- The staging level of a prepared residual. -/
  pendingLevel : Option PriceLevel
  /-- The order a prepared residual replaces; zero when it replaces none. -/
  pendingReplacementOldId : OrderId
  /-- Whether a snapshot restore is building the book. -/
  snapshotRestoreStaging : Bool

/-- The address of a book. -/
abbrev BookRef := Nat

/-- The address of a staging level: the book and the node it was allocated for. -/
structure StagingRef where
  book : BookRef
  node : OrderId
  deriving DecidableEq, Repr

/-- The guard that owns a prepared residual. -/
structure PreparedRest where
  /-- The book the residual was prepared in; `none` once the guard is spent. -/
  owner : Option BookRef
  node : Option OrderId
  /-- The staging level the guard holds. -/
  staging : Option StagingRef
  preparedLevel : Option DetachedLevel
  replacementOldId : OrderId
  status : Option InstrumentBookError

namespace PreparedRest

/-- A guard that reports why nothing was prepared. -/
def failed (error : InstrumentBookError) : PreparedRest :=
  ⟨none, none, none, none, 0, some error⟩

/-- A guard that was spent. -/
def spent : PreparedRest := ⟨none, none, none, none, 0, none⟩

/-- Whether the guard holds a residual. -/
def hasValue (prepared : PreparedRest) : Bool :=
  prepared.owner.isSome && prepared.node.isSome && prepared.staging.isSome &&
    prepared.status.isNone

end PreparedRest

namespace InstrumentBook

/-- A fresh book. -/
def create (instrumentId : InstrumentId) : Run InstrumentBook :=
  if instrumentId = 0 then
    .error (.invalidArgument "InstrumentBook requires a nonzero instrument ID")
  else .ok ⟨instrumentId, ∅, [], [], ∅, none, none, 0, false⟩

/-- One side's levels. -/
def side (book : InstrumentBook) (side : Side) : BookSide :=
  if side = .buy then book.bids else book.asks

/-- Replace one side's levels. -/
def setSide (book : InstrumentBook) (side : Side) (levels : BookSide) : InstrumentBook :=
  if side = .buy then { book with bids := levels } else { book with asks := levels }

/-- The address of the slot of a side and price. -/
def slot (side : Side) (price : PriceTicks) : LevelRef :=
  .slot (if side = .buy then .buy else .sell) price

/-- The visible level at a price. -/
def findLevel (book : InstrumentBook) (side : Side) (price : PriceTicks) : Option PriceLevel :=
  SortedMap.find? price (book.side side)

/-- The address of the visible level at a price. -/
def levelAddress (book : InstrumentBook) (side : Side) (price : PriceTicks) : Option LevelRef :=
  (book.findLevel side price).map fun _ => slot side price

/-- The best level of a side. -/
def bestLevel (book : InstrumentBook) (side : Side) : Option PriceLevel :=
  (book.side side).head?.map Prod.snd

/-- A side as an iteration sees it: every level with its orders from head to tail. -/
def levels (book : InstrumentBook) (side : Side) : List (PriceLevel × List OrderNodeSpec) :=
  (book.side side).map fun entry => (entry.2, entry.2.orders book.storage)

/-- The number of visible orders. -/
def activeOrderCount (book : InstrumentBook) : Nat :=
  book.index.size - (if book.pendingNode.isSome && !book.index.isEmpty then 1 else 0)

/-- The address of the staging level of a book at an address. -/
def stagingRef (address : BookRef) (book : InstrumentBook) : Option StagingRef :=
  book.pendingLevel.bind fun _ => book.pendingNode.map fun node => ⟨address, node⟩

/-- Whether a preparation is outstanding. -/
def hasPendingPreparation (book : InstrumentBook) : Bool :=
  book.pendingNode.isSome || book.pendingLevel.isSome || book.pendingReplacementOldId ≠ 0

/-- The address of a visible order. -/
def findNode (book : InstrumentBook) (orderId : OrderId) : Option OrderId :=
  (book.index.find book.storage orderId).filter fun node => book.pendingNode ≠ some node

/-- The values of a visible order. -/
def find (book : InstrumentBook) (orderId : OrderId) : Option OrderNodeSpec :=
  (book.findNode orderId).bind fun node => (book.storage[node]?).map Node.payload

section Validation

variable (book : InstrumentBook)

/-- The checks of a pending node against the rest of the book. -/
def pendingStateHolds (pending : OrderId) (node : OrderNode) : Bool :=
  book.index.size ≠ 0 && book.storage.find node.payload.orderId = some pending &&
    book.index.find book.storage node.payload.orderId = some pending &&
    node.payload.instrumentId = book.instrumentId && node.payload.clientId ≠ 0 &&
    node.payload.side.isValid && node.owner = some .staging

/-- The checks of the staging level that holds a pending node. -/
def stagingHolds (level : PriceLevel) (pending : OrderId) (node : OrderNode) : Run Bool := do
  let verdict ← level.validateInvariants .staging book.storage
  return verdict = .none && level.price = node.payload.price && level.orderCount = 1 &&
    level.ends.head = some pending && level.ends.tail = some pending

/-- The checks of the order a pending residual replaces. -/
def pendingReplacementHolds (pending : OrderId) (node : OrderNode) : Bool :=
  match book.index.find book.storage book.pendingReplacementOldId with
  | none => false
  | some old =>
    match book.storage[old]? with
    | none => false
    | some value =>
      old ≠ pending && book.storage.find book.pendingReplacementOldId = some old &&
        value.payload.orderId = book.pendingReplacementOldId &&
        value.payload.instrumentId = book.instrumentId &&
        value.payload.instrumentId = node.payload.instrumentId &&
        value.payload.clientId = node.payload.clientId &&
        value.payload.side = node.payload.side && value.payload.side.isValid &&
        value.isLinked && value.owner.isSome &&
        (book.levelAddress value.payload.side value.payload.price).isSome &&
        book.levelAddress value.payload.side value.payload.price = value.owner

/-- The checks of the pending residual, if there is one. -/
def validatePending : Run InstrumentBookInvariantError :=
  match book.pendingNode, book.pendingLevel with
  | some pending, some level => do
    let node ← book.storage.deref pending
    if !book.pendingStateHolds pending node then return .pendingStateMismatch
    if !(← book.stagingHolds level pending node) then return .pendingNodeInvariant
    if book.pendingReplacementOldId ≠ 0 && !book.pendingReplacementHolds pending node then
      return .pendingReplacementInvariant
    return .none
  | none, none =>
    if book.pendingReplacementOldId ≠ 0 then .ok .pendingStateMismatch else .ok .none
  | _, _ => .ok .pendingStateMismatch

/-- The checks of one visible node. -/
def checkTraversed (side : Side) (level : PriceLevel) (observed : Nat) (node : OrderNode) :
    InstrumentBookInvariantError :=
  let orderId := node.payload.orderId
  if Word.atMax64 observed then .traversalCountOverflow
  else if book.pendingNode = some orderId then .pendingStateMismatch
  else if node.payload.side ≠ side then .nodeSideMismatch
  else if node.payload.instrumentId ≠ book.instrumentId then .nodeInstrumentMismatch
  else if node.payload.clientId = 0 then .nodeInvalidClientId
  else if node.payload.price ≠ level.price then .nodePriceMismatch
  else if node.owner ≠ some (.slot side level.price) then .nodeBacklinkMismatch
  else if book.index.find book.storage orderId ≠ some orderId then .nodeMissingFromIndex
  else if book.storage.find orderId ≠ some orderId then .nodeMissingFromStorage
  else .none

/-- Visit the nodes of one level, counting them. -/
def traverseLevel (side : Side) (level : PriceLevel) :
    Nat → List OrderNode → Except InstrumentBookInvariantError Nat
  | observed, [] => .ok observed
  | observed, node :: rest =>
    match book.checkTraversed side level observed node with
    | .none => traverseLevel side level (observed + 1) rest
    | error => .error error

/-- Visit the nodes of one side, counting them. -/
def traverseSide (side : Side) : Nat → BookSide → Except InstrumentBookInvariantError Nat
  | observed, [] => .ok observed
  | observed, (_, level) :: rest =>
    match book.traverseLevel side level observed
        (walk book.storage book.storage.size level.ends.head) with
    | .ok next => traverseSide side next rest
    | .error error => .error error

/-- Whether the best bid reaches the best ask. -/
def crossed : Bool :=
  match book.bestLevel .buy, book.bestLevel .sell with
  | some bid, some ask => ask.price ≤ bid.price
  | _, _ => false

/-- The full validation of a book. -/
def validateInvariants : Run InstrumentBookInvariantError := do
  if book.instrumentId = 0 then return .invalidInstrumentId
  if book.pendingNode.isSome ≠ book.pendingLevel.isSome then return .pendingStateMismatch
  if book.pendingReplacementOldId ≠ 0 && book.pendingNode.isNone then
    return .pendingStateMismatch
  if (← BookSide.validateInvariants .buy book.storage none book.bids) ≠ .none then
    return .bidSideInvariant
  if (← BookSide.validateInvariants .sell book.storage none book.asks) ≠ .none then
    return .askSideInvariant
  if !book.index.validateInvariants book.storage then return .indexInvariant
  if book.storage.size ≠ book.index.size then return .storageIndexSizeMismatch
  match ← book.validatePending with
  | .none =>
    match book.traverseSide .buy 0 book.bids with
    | .error error => return error
    | .ok observed =>
      match book.traverseSide .sell observed book.asks with
      | .error error => return error
      | .ok total =>
        if total ≠ book.index.size - (if book.pendingNode.isSome then 1 else 0) then
          return .traversalIndexSizeMismatch
        if book.crossed then return .crossedBook
        return .none
  | error => return error

end Validation

section Operations

variable (checks : Bool) (address : BookRef)

/-- The whole-book validation that only some builds make. -/
def checkedInvariants (book : InstrumentBook) : Run Bool :=
  if checks then do
    let verdict ← book.validateInvariants
    return verdict = .none
  else .ok true

/-- The validation made after an operation when the checks are compiled in. -/
def enforcePostconditions (book : InstrumentBook) : Run Unit := do
  let valid ← book.checkedInvariants checks
  Run.require valid .terminate

/-- The value check of a residual. -/
def validateRestSpec (spec : OrderNodeSpec) (instrumentId : InstrumentId) :
    Option InstrumentBookError :=
  if spec.orderId = 0 then some (.storageFailure .invalidOrderId)
  else if spec.clientId = 0 then some (.storageFailure .invalidClientId)
  else if spec.instrumentId = 0 then some .invalidInstrumentId
  else if spec.instrumentId ≠ instrumentId then some .instrumentMismatch
  else if !spec.side.isValid then some .invalidSide
  else if spec.price ≤ 0 then some (.storageFailure .invalidPrice)
  else if spec.remainingQuantity = 0 then some (.storageFailure .invalidRemainingQuantity)
  else if spec.prioritySequence = 0 then some (.storageFailure .invalidPrioritySequence)
  else none

/-- Level validation that only some builds make. -/
def checkedLevel (self : LevelRef) (level : PriceLevel) (storage : OrderStorage) : Run Bool :=
  if checks then do
    let verdict ← level.validateInvariants self storage
    return verdict = .none
  else .ok true

/-- Whether a residual can be appended to a level. -/
def validateAppendTarget (self : LevelRef) (target : PriceLevel) (storage : OrderStorage)
    (node : OrderNodeSpec) : Run (Option InstrumentBookError) := do
  if !(← checkedLevel checks self target storage) then return some .bookInvariantViolation
  if target.price ≠ node.price then return some (.priceLevelFailure .priceMismatch)
  if ← PriceLevel.tailBlocks storage target.ends.tail node.prioritySequence then
    return some (.priceLevelFailure .nonmonotonicPriority)
  if (Word.checkedAdd target.aggregateQuantity node.remainingQuantity).isNone then
    return some (.priceLevelFailure .aggregateOverflow)
  if Word.atMax64 target.orderCount then return some (.priceLevelFailure .orderCountOverflow)
  return none

/-- Whether a residual can be appended to a level once the order it replaces has left. -/
def validateReplaceAppendTarget (self : LevelRef) (target : PriceLevel) (storage : OrderStorage)
    (residual : OrderNodeSpec) (oldOrder : OrderNode) : Run (Option InstrumentBookError) := do
  if target.price ≠ oldOrder.payload.price || oldOrder.owner ≠ some self then
    validateAppendTarget checks self target storage residual
  else
    if !(← checkedLevel checks self target storage) then return some .bookInvariantViolation
    if target.price ≠ residual.price then return some (.priceLevelFailure .priceMismatch)
    if target.orderCount = 0 then return some .bookInvariantViolation
    match Word.checkedSubtract target.aggregateQuantity oldOrder.payload.remainingQuantity with
    | none => return some .bookInvariantViolation
    | some projected =>
      let tail := if target.ends.tail = some oldOrder.payload.orderId then oldOrder.previous
        else target.ends.tail
      if ← PriceLevel.tailBlocks storage tail residual.prioritySequence then
        return some (.priceLevelFailure .nonmonotonicPriority)
      if (Word.checkedAdd projected residual.remainingQuantity).isNone then
        return some (.priceLevelFailure .aggregateOverflow)
      if Word.atMax64 (target.orderCount - 1) then
        return some (.priceLevelFailure .orderCountOverflow)
      return none

/-- Whether the neighbour on one side points back, or the end pointer does when there is none. -/
def linkAgrees (storage : OrderStorage) (node : OrderId) (terminal neighbour : Option OrderId)
    (back : OrderNode → Option OrderId) : Run Bool :=
  match neighbour with
  | none => .ok (terminal = some node)
  | some other => do
    let value ← storage.deref other
    return back value = some node

/-- The checks of a node that is about to leave or change. -/
def preflightNode (book : InstrumentBook) (node : OrderId) : Run (Option InstrumentBookError) := do
  if !(← book.checkedInvariants checks) then return some .bookInvariantViolation
  let value ← book.storage.deref node
  let orderId := value.payload.orderId
  if book.storage.find orderId ≠ some node then return some .nodeNotOwned
  if book.index.find book.storage orderId ≠ some node then return some .nodeNotIndexed
  if book.pendingReplacementOldId ≠ 0 && orderId = book.pendingReplacementOldId then
    return some .replacementTransactionRequired
  if value.payload.instrumentId ≠ book.instrumentId then return some .instrumentMismatch
  if !value.payload.side.isValid then return some .sideMismatch
  if !value.isLinked || value.owner.isNone then return some .nodeNotLinked
  if book.levelAddress value.payload.side value.payload.price ≠ value.owner then
    return some .priceLevelMismatch
  match book.findLevel value.payload.side value.payload.price with
  | none => return some .priceLevelMismatch
  | some level =>
    if level.price ≠ value.payload.price then return some .priceLevelMismatch
    let self := slot value.payload.side value.payload.price
    if !(← checkedLevel checks self level book.storage) then return some .bookInvariantViolation
    if !(← linkAgrees book.storage node level.ends.head value.previous Node.next) then
      return some .priceLevelMismatch
    if !(← linkAgrees book.storage node level.ends.tail value.next Node.previous) then
      return some .priceLevelMismatch
    return none

/-- Allocate a level outside the visible side. -/
def prepareDetachedLevel (book : InstrumentBook) (side : Side) (price : PriceTicks) :
    Run (Except BookSideError DetachedLevel) := do
  if price ≤ 0 then return .error .invalidPrice
  if checks then
    if (← BookSide.validateInvariants (if side = .buy then .buy else .sell) book.storage none
        (book.side side)) ≠ .none then
      return .error .levelInvariantViolation
  return .ok ⟨if side = .buy then .buy else .sell, true, some (price, PriceLevel.create price)⟩

/-- The check of the order a residual would replace. -/
def validateReplacementOld (book : InstrumentBook) (spec : OrderNodeSpec)
    (replacementOld : Option OrderId) : Run (Option InstrumentBookError) :=
  match replacementOld with
  | none => .ok none
  | some old => do
    match ← book.preflightNode checks old with
    | some error => return some error
    | none =>
      let value ← book.storage.deref old
      if spec.orderId = value.payload.orderId || spec.clientId ≠ value.payload.clientId ||
          spec.instrumentId ≠ value.payload.instrumentId || spec.side ≠ value.payload.side then
        return some .replacementMismatch
      return none

/-- The check of an existing level a residual would join. -/
def validateTarget (book : InstrumentBook) (storage : OrderStorage) (spec : OrderNodeSpec)
    (replacementOld : Option OrderId) : Run (Option InstrumentBookError) :=
  match book.findLevel spec.side spec.price with
  | none => .ok none
  | some existing =>
    match replacementOld with
    | none => validateAppendTarget checks (slot spec.side spec.price) existing storage spec
    | some old => do
      let value ← storage.deref old
      validateReplaceAppendTarget checks (slot spec.side spec.price) existing storage spec value

/-- The order ID a preparation pins; zero when it replaces nothing. -/
def replacementId (storage : OrderStorage) : Option OrderId → Run OrderId
  | none => .ok 0
  | some old => do
    let value ← storage.deref old
    return value.payload.orderId

/-- Store, stage and index a residual without making it visible. -/
def prepareRestImpl (book : InstrumentBook) (spec : OrderNodeSpec)
    (replacementOld : Option OrderId) : Run (InstrumentBook × PreparedRest) := do
  match validateRestSpec spec book.instrumentId with
  | some error => return (book, .failed error)
  | none =>
  if !(← book.checkedInvariants checks) then return (book, .failed .bookInvariantViolation)
  if book.pendingNode.isSome || book.pendingLevel.isSome then
    return (book, .failed .preparationInProgress)
  match ← book.validateReplacementOld checks spec replacementOld with
  | some error => return (book, .failed error)
  | none =>
  if (book.storage.find spec.orderId).isSome ||
      (book.index.find book.storage spec.orderId).isSome then
    return (book, .failed .duplicateOrderId)
  match ← book.prepareDetachedLevel checks spec.side spec.price with
  | .error error => return (book, .failed (.bookSideFailure error))
  | .ok detached =>
  match book.storage.create spec with
  | .error .duplicateOrderId => return (book, .failed .duplicateOrderId)
  | .error error => return (book, .failed (.storageFailure error))
  | .ok stored =>
  -- From here on a refusal first destroys the stored node again.
  match ← book.validateTarget checks stored spec replacementOld with
  | some error =>
    match stored.destroy spec.orderId with
    | .error _ => .error .terminate
    | .ok cleaned => return ({ book with storage := cleaned }, .failed error)
  | none =>
  match ← (PriceLevel.create spec.price).append checks .staging stored spec.orderId with
  | .error error =>
    match stored.destroy spec.orderId with
    | .error _ => .error .terminate
    | .ok cleaned =>
      return ({ book with storage := cleaned }, .failed (.priceLevelFailure error))
  | .ok (staged, staging) =>
  match ← book.index.insert staged spec.orderId with
  | .error error =>
    match ← staging.erase checks .staging staged spec.orderId with
    | .error _ => .error .terminate
    | .ok (unlinked, _) =>
      match unlinked.destroy spec.orderId with
      | .error _ => .error .terminate
      | .ok cleaned => return ({ book with storage := cleaned }, .failed (.indexFailure error))
  | .ok index =>
    let oldId ← replacementId staged replacementOld
    let next := { book with
      storage := staged, index := index, pendingNode := some spec.orderId,
      pendingLevel := some staging, pendingReplacementOldId := oldId }
    next.enforcePostconditions checks
    return (next, ⟨some address, some spec.orderId, some ⟨address, spec.orderId⟩, some detached,
      oldId, none⟩)

/-- Prepare the residual of a new order. -/
def prepareRest (book : InstrumentBook) (spec : OrderNodeSpec) :
    Run (InstrumentBook × PreparedRest) :=
  book.prepareRestImpl checks address spec none

/-- Prepare the residual of a replacement. -/
def prepareReplaceRest (book : InstrumentBook) (spec : OrderNodeSpec) (oldOrder : OrderId) :
    Run (InstrumentBook × PreparedRest) :=
  book.prepareRestImpl checks address spec (some oldOrder)

/-- The end of a detached level that was not published. -/
def discardDetached (prepared : PreparedRest) : Run Unit :=
  match prepared.preparedLevel.bind DetachedLevel.level with
  | none => .ok ()
  | some level => level.destroy

/-- Undo a preparation: unlink, unindex and destroy the pending node. A guard of another book acts
on that book. -/
def rollback (book : InstrumentBook) (prepared : PreparedRest) : Run InstrumentBook := do
  if prepared.owner ≠ some address then return book
  match prepared.node, book.pendingLevel with
  | some node, some staging =>
    if prepared.staging.isNone || book.pendingNode ≠ some node ||
        book.stagingRef address ≠ prepared.staging ||
        book.pendingReplacementOldId ≠ prepared.replacementOldId then .error .terminate
    match ← staging.erase checks .staging book.storage node with
    | .error _ => .error .terminate
    | .ok (unlinked, emptied) =>
      match ← book.index.erase unlinked node with
      | .error _ => .error .terminate
      | .ok index =>
        match unlinked.destroy node with
        | .error _ => .error .terminate
        | .ok storage =>
          emptied.destroy
          discardDetached prepared
          let next := { book with
            storage := storage, index := index, pendingNode := none, pendingLevel := none,
            pendingReplacementOldId := 0 }
          next.enforcePostconditions checks
          return next
  | _, _ => .error .terminate

/-- Drop an empty level from its side. -/
def eraseLevel (book : InstrumentBook) (side : Side) (level : PriceLevel) :
    Run (Except BookSideError InstrumentBook) := do
  if level.price ≤ 0 then return .error .invalidPrice
  match book.findLevel side level.price with
  | none => return .error .levelNotFound
  | some held =>
    if held ≠ level then return .error .levelIdentityMismatch
    if !(← checkedLevel checks (slot side level.price) level book.storage) then
      return .error .levelInvariantViolation
    if !level.empty then return .error .levelNotEmpty
    level.destroy
    return .ok (book.setSide side (SortedMap.erase level.price (book.side side)))

/-- Drop a level that has just lost its last order. -/
def dropIfEmpty (book : InstrumentBook) (side : Side) (level : PriceLevel) :
    Run InstrumentBook := do
  if !level.empty then return book
  match ← book.eraseLevel checks side level with
  | .error _ => .error .terminate
  | .ok erased => return erased

/-- Apply one reduction; the batch preflight made every failure impossible. -/
def applyReductionNoCheck (book : InstrumentBook) (reduction : PrevalidatedBookReduction) :
    Run InstrumentBook := do
  match book.findLevel reduction.side reduction.price with
  | none => .error .terminate
  | some level =>
    let self := slot reduction.side reduction.price
    if reduction.remainingAfter ≠ 0 then
      match ← level.reduceRemaining checks self book.storage reduction.node reduction.reduction with
      | .error _ => .error .terminate
      | .ok (storage, reduced) =>
        return { book with storage := storage }.setSide reduction.side
          (SortedMap.set reduction.price reduced (book.side reduction.side))
    else
      match ← level.erase checks self book.storage reduction.node with
      | .error _ => .error .terminate
      | .ok (unlinked, shortened) =>
        match ← book.index.erase unlinked reduction.node with
        | .error _ => .error .terminate
        | .ok index =>
          let updated := { book with storage := unlinked, index := index }.setSide reduction.side
            (SortedMap.set reduction.price shortened (book.side reduction.side))
          let kept ← updated.dropIfEmpty checks reduction.side shortened
          match kept.storage.destroy reduction.node with
          | .error _ => .error .terminate
          | .ok storage => return { kept with storage := storage }

/-- Apply reductions one after another. -/
def applyReductions (book : InstrumentBook) :
    List PrevalidatedBookReduction → Run InstrumentBook
  | [] => .ok book
  | reduction :: rest => do
    let next ← book.applyReductionNoCheck checks reduction
    applyReductions next rest

/-- Make a detached level visible. -/
def publish (book : InstrumentBook) (side : Side) (price : PriceTicks) (level : PriceLevel) :
    Run (Except BookSideError InstrumentBook) := do
  if level.empty then return .error .preparedLevelEmpty
  if !(← checkedLevel checks (slot side price) level book.storage) then
    return .error .levelInvariantViolation
  if (book.findLevel side price).isSome then return .error .preparedLevelConflict
  return .ok (book.setSide side
    (SortedMap.insert (bestPriceFirst side) price level (book.side side)))

/-- Move the pending residual from its staging level to its place in the book. -/
def commitPreparedNoCheck (book : InstrumentBook) (prepared : PreparedRest) :
    Run InstrumentBook := do
  match prepared.node, book.pendingLevel, prepared.preparedLevel with
  | some node, some staging, some detached =>
    if prepared.staging.isNone then .error .terminate
    let value ← book.storage.deref node
    let side := value.payload.side
    let price := value.payload.price
    if !side.isValid then .error .terminate
    match ← staging.erase checks .staging book.storage node with
    | .error _ => .error .terminate
    | .ok (unlinked, emptied) =>
      emptied.destroy
      let cleared := { book with
        pendingNode := none, pendingLevel := none, pendingReplacementOldId := 0 }
      match book.findLevel side price with
      | some target =>
        match ← target.append checks (slot side price) unlinked node with
        | .error _ => .error .terminate
        | .ok (linked, extended) =>
          discardDetached prepared
          return { cleared with storage := linked }.setSide side
            (SortedMap.set price extended (book.side side))
      | none =>
        match detached.level with
        | none => .error .terminate
        | some target =>
          match ← target.append checks (slot side price) unlinked node with
          | .error _ => .error .terminate
          | .ok (linked, extended) =>
            match ← { cleared with storage := linked }.publish checks side price extended with
            | .error _ => .error .terminate
            | .ok published => return published
  | _, _, _ => .error .terminate

/-- The checks that bind one reduction to its node. -/
def validateBinding (book : InstrumentBook) (reduction : PrevalidatedBookReduction) :
    Option PrevalidatedBatchError :=
  match book.storage[reduction.node]? with
  | none => some .invalidBinding
  | some node =>
    if book.pendingNode = some reduction.node ||
        book.storage.find reduction.orderId ≠ some reduction.node ||
        book.index.find book.storage reduction.orderId ≠ some reduction.node ||
        book.findNode reduction.orderId ≠ some reduction.node then some .invalidBinding
    else if node.payload.orderId ≠ reduction.orderId ||
        node.payload.clientId ≠ reduction.clientId ||
        node.payload.instrumentId ≠ book.instrumentId || node.payload.side ≠ reduction.side ||
        node.payload.price ≠ reduction.price ||
        node.payload.remainingQuantity ≠ reduction.remainingBefore ||
        node.payload.prioritySequence ≠ reduction.prioritySequence || !node.isLinked ||
        node.owner.isNone then some .invalidBinding
    else if !reduction.side.isValid ||
        (book.levelAddress reduction.side reduction.price).isNone ||
        book.levelAddress reduction.side reduction.price ≠ node.owner then some .invalidBinding
    else if reduction.reduction = 0 || reduction.remainingBefore < reduction.reduction ||
        reduction.remainingAfter ≠ reduction.remainingBefore - reduction.reduction then
      some .invalidReduction
    else none

/-- Whether a reduction names a node or an order that an earlier one names. -/
def duplicates (earlier : List PrevalidatedBookReduction)
    (reduction : PrevalidatedBookReduction) : Bool :=
  earlier.any fun other => other.node = reduction.node || other.orderId = reduction.orderId

/-- The checks of the reductions of a batch, each against its book and the earlier ones. -/
def validateReductions (book : InstrumentBook) (residualSide : Option Side) :
    List PrevalidatedBookReduction → Nat → List PrevalidatedBookReduction →
      Option PrevalidatedBatchFailure
  | _, _, [] => none
  | earlier, position, reduction :: rest =>
    match book.validateBinding reduction with
    | some error => some ⟨error, position⟩
    | none =>
      if duplicates earlier reduction then some ⟨.duplicateBinding, position⟩
      else if residualSide = some reduction.side then some ⟨.preparationMismatch, position⟩
      else validateReductions book residualSide (earlier ++ [reduction]) (position + 1) rest

/-- The checks of the passive reductions of a replacement. -/
def validatePassiveReductions (book : InstrumentBook) (old : PrevalidatedBookReduction) :
    List PrevalidatedBookReduction → Nat → List PrevalidatedBookReduction →
      Option PrevalidatedBatchFailure
  | _, _, [] => none
  | earlier, position, reduction :: rest =>
    match book.validateBinding reduction with
    | some error => some ⟨error, position⟩
    | none =>
      if reduction.side = old.side || reduction.node = old.node ||
          reduction.orderId = old.orderId then some ⟨.preparationMismatch, position⟩
      else if duplicates earlier reduction then some ⟨.duplicateBinding, position⟩
      else validatePassiveReductions book old (earlier ++ [reduction]) (position + 1) rest

/-- Whether an order of a level outlives the batch. -/
def survivesBatch (orders : List OrderNodeSpec) (reductions : List PrevalidatedBookReduction) :
    Bool :=
  orders.any fun order =>
    match reductions.find? fun reduction => reduction.node = order.orderId with
    | none => true
    | some reduction => reduction.remainingAfter ≠ 0

/-- The best price of a side after the batch. -/
def projectedBestPrice (book : InstrumentBook) (side : Side)
    (reductions : List PrevalidatedBookReduction) : Option PriceTicks :=
  ((book.levels side).find? fun level => survivesBatch level.2 reductions).map fun level =>
    level.1.price

/-- Whether a resting price would reach the opposite best price left by the batch. -/
def residualCrosses (book : InstrumentBook) (side : Side) (price : PriceTicks)
    (reductions : List PrevalidatedBookReduction) : Bool :=
  match book.projectedBestPrice side.opposite reductions with
  | none => false
  | some best => if side = .buy then best ≤ price else price ≤ best

/-- Whether a guard is the outstanding preparation of this book. -/
def preparationMatches (book : InstrumentBook) (prepared : PreparedRest) (oldId : OrderId) :
    Run Bool := do
  if !prepared.hasValue || prepared.owner ≠ some address || prepared.node ≠ book.pendingNode ||
      prepared.staging ≠ book.stagingRef address || prepared.replacementOldId ≠ oldId ||
      book.pendingReplacementOldId ≠ oldId then return false
  match prepared.node, book.pendingLevel with
  | some node, some staging =>
    let verdict ← staging.validateInvariants .staging book.storage
    let value ← book.storage.deref node
    return verdict = .none && staging.orderCount = 1 && staging.ends.head = some node &&
      staging.ends.tail = some node && value.owner = some .staging
  | _, _ => return false

/-- Whether a guard holds a publishable level for a side. -/
def detachedFor (prepared : PreparedRest) (side : Side) : Option PriceLevel :=
  match prepared.preparedLevel with
  | none => none
  | some detached => if detached.side = side && detached.hasValue then detached.level else none

/-- The checks of the residual of a new order's batch. -/
def validateResidual (book : InstrumentBook) (prepared : PreparedRest)
    (reductions : List PrevalidatedBookReduction) : Run (Option PrevalidatedBatchError) := do
  match prepared.node with
  | none => return some .preparationMismatch
  | some node =>
    let value ← book.storage.deref node
    let residual := value.payload
    if !residual.side.isValid then return some .preparationMismatch
    match detachedFor prepared residual.side with
    | none => return some .preparationMismatch
    | some detached =>
      if book.residualCrosses residual.side residual.price reductions then
        return some .residualWouldCross
      let target := (book.findLevel residual.side residual.price).getD detached
      match ← validateAppendTarget checks (slot residual.side residual.price) target book.storage
          residual with
      | some _ => return some .residualAppendFailure
      | none => return none

/-- The checks of the residual of a replacement's batch. -/
def validateReplacementResidual (book : InstrumentBook) (prepared : PreparedRest)
    (old : PrevalidatedBookReduction) (reductions : List PrevalidatedBookReduction) :
    Run (Option PrevalidatedBatchError) := do
  match prepared.node with
  | none => return some .preparationMismatch
  | some node =>
    let value ← book.storage.deref node
    let oldOrder ← book.storage.deref old.node
    let residual := value.payload
    if residual.side ≠ oldOrder.payload.side || residual.clientId ≠ oldOrder.payload.clientId ||
        residual.instrumentId ≠ oldOrder.payload.instrumentId ||
        residual.orderId = oldOrder.payload.orderId then return some .preparationMismatch
    if !residual.side.isValid then return some .preparationMismatch
    match detachedFor prepared residual.side with
    | none => return some .preparationMismatch
    | some detached =>
      if book.residualCrosses residual.side residual.price reductions then
        return some .residualWouldCross
      let self := slot residual.side residual.price
      let refusal ← match book.findLevel residual.side residual.price with
        | none => validateAppendTarget checks self detached book.storage residual
        | some visible =>
          if oldOrder.owner = some self && visible.orderCount = 1 then
            validateAppendTarget checks self detached book.storage residual
          else validateReplaceAppendTarget checks self visible book.storage residual oldOrder
      match refusal with
      | some _ => return some .residualAppendFailure
      | none => return none

/-- What a batch leaves: the book, the guard of the residual and, if it was refused, why. -/
structure BatchResult where
  book : InstrumentBook
  preparedRest : Option PreparedRest
  failure : Option PrevalidatedBatchFailure

/-- Apply planned reductions and publish an optional residual, or refuse without a change. -/
def applyPrevalidatedBatch (book : InstrumentBook) (reductions : List PrevalidatedBookReduction)
    (preparedRest : Option PreparedRest) :
    Run BatchResult := do
  let fail := fun failure : PrevalidatedBatchFailure =>
    BatchResult.mk book preparedRest (some failure)
  if !(← book.checkedInvariants checks) then return fail ⟨.bookInvariantViolation, 0⟩
  match preparedRest with
  | none =>
    if book.pendingNode.isSome || book.pendingLevel.isSome then
      return fail ⟨.preparationMismatch, 0⟩
    match book.validateReductions none [] 0 reductions with
    | some failure => return fail failure
    | none =>
      let next ← book.applyReductions checks reductions
      next.enforcePostconditions checks
      return ⟨next, none, none⟩
  | some prepared =>
    if !(← book.preparationMatches address prepared 0) then return fail ⟨.preparationMismatch, 0⟩
    let residualSide := (prepared.node.bind fun node => book.storage[node]?).map fun node =>
      node.payload.side
    match book.validateReductions residualSide [] 0 reductions with
    | some failure => return fail failure
    | none =>
      match ← book.validateResidual checks prepared reductions with
      | some error => return fail ⟨error, 0⟩
      | none =>
        let reduced ← book.applyReductions checks reductions
        let next ← reduced.commitPreparedNoCheck checks prepared
        next.enforcePostconditions checks
        return ⟨next, some .spent, none⟩

/-- The checks of the replaced order's reduction, which must take all of it. -/
def validateOldReduction (book : InstrumentBook) (old : PrevalidatedBookReduction) :
    Option PrevalidatedBatchError :=
  match book.validateBinding old with
  | some error => some error
  | none =>
    if old.remainingAfter ≠ 0 || old.reduction ≠ old.remainingBefore then some .invalidReduction
    else none

/-- Remove the replaced order, apply the passive reductions and publish an optional residual, or
refuse without a change. -/
def applyPrevalidatedReplaceBatch (book : InstrumentBook) (old : PrevalidatedBookReduction)
    (reductions : List PrevalidatedBookReduction) (preparedRest : Option PreparedRest) :
    Run BatchResult := do
  let fail := fun failure : PrevalidatedBatchFailure =>
    BatchResult.mk book preparedRest (some failure)
  if !(← book.checkedInvariants checks) then return fail ⟨.bookInvariantViolation, 0⟩
  match preparedRest with
  | none =>
    if book.hasPendingPreparation then return fail ⟨.preparationMismatch, 0⟩
    match book.validateOldReduction old with
    | some error => return fail ⟨error, 0⟩
    | none =>
    match book.validatePassiveReductions old [] 1 reductions with
    | some failure => return fail failure
    | none =>
      let next ← book.applyReductions checks (old :: reductions)
      next.enforcePostconditions checks
      return ⟨next, none, none⟩
  | some prepared =>
    if !(← book.preparationMatches address prepared old.orderId) then
      return fail ⟨.preparationMismatch, 0⟩
    match book.validateOldReduction old with
    | some error => return fail ⟨error, 0⟩
    | none =>
    match book.validatePassiveReductions old [] 1 reductions with
    | some failure => return fail failure
    | none =>
      match ← book.validateReplacementResidual checks prepared old reductions with
      | some error => return fail ⟨error, 0⟩
      | none =>
        let reduced ← book.applyReductions checks (old :: reductions)
        let next ← reduced.commitPreparedNoCheck checks prepared
        next.enforcePostconditions checks
        return ⟨next, some .spent, none⟩

end Operations

end InstrumentBook

end AtlasLob
