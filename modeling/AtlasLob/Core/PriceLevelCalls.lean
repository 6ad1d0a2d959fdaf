import AtlasLob.Core.PriceLevel

/-!
# Price level calls as they write

The three mutating calls once more, write by write: a call gets the nodes and the level, reads
and writes them in the order of its statements, and returns an error code or none. What a call
leaves behind when it returns an error is whatever it wrote before.
-/

namespace AtlasLob

open Intrusive

namespace PriceLevel

/-- A call on one level and the nodes around it. -/
abbrev Call := StateT (OrderStorage × PriceLevel) Run

/-- Write to a node. -/
def writeNode (node : OrderId) (change : OrderNode → OrderNode) : Call Unit :=
  modify fun (storage, level) => (update node change storage, level)

/-- Write to the level. -/
def writeLevel (change : PriceLevel → PriceLevel) : Call Unit :=
  modify fun (storage, level) => (storage, change level)

/-- Write the head pointer. -/
def writeHead (head : Option OrderId) : Call Unit :=
  writeLevel fun level => { level with ends := { level.ends with head := head } }

/-- Write the tail pointer. -/
def writeTail (tail : Option OrderId) : Call Unit :=
  writeLevel fun level => { level with ends := { level.ends with tail := tail } }

/-- Write the cached sum. -/
def writeAggregate (aggregate : Quantity) : Call Unit :=
  writeLevel fun level => { level with aggregateQuantity := aggregate }

/-- Write the cached count. -/
def writeCount (count : Nat) : Call Unit :=
  writeLevel fun level => { level with orderCount := count }

section Calls

variable (checks : Bool) (self : LevelRef)

/-- The validation at the end of every call. -/
def checkedReturn : Call (Option PriceLevelError) := do
  let (storage, level) ← get
  level.enforcePostconditions checks self storage
  return none

/-- `append`, statement by statement. -/
def appendCall (node : OrderId) : Call (Option PriceLevelError) := do
  let (storage, level) ← get
  match ← level.validateBoundaryState self storage with
  | .error error => return some error
  | .ok () =>
    let value ← storage.deref node
    if value.payload.remainingQuantity = 0 then return some .invalidRemainingQuantity
    if value.payload.price ≠ level.price then return some .priceMismatch
    if value.isLinked then return some .nodeAlreadyLinked
    if value.payload.prioritySequence = 0 then return some .invalidPrioritySequence
    if ← tailBlocks storage level.ends.tail value.payload.prioritySequence then
      return some .nonmonotonicPriority
    match Word.checkedAdd level.aggregateQuantity value.payload.remainingQuantity with
    | none => return some .aggregateOverflow
    | some aggregate =>
      if Word.atMax64 level.orderCount then return some .orderCountOverflow
      let previousTail := level.ends.tail
      writeNode node fun old => { old with previous := previousTail }
      writeNode node fun old => { old with next := none }
      writeNode node fun old => { old with owner := some self }
      match previousTail with
      | none => writeHead (some node)
      | some last => writeNode last fun old => { old with next := some node }
      writeTail (some node)
      writeAggregate aggregate
      writeCount (level.orderCount + 1)
      checkedReturn checks self

/-- `erase`, statement by statement. -/
def eraseCall (node : OrderId) : Call (Option PriceLevelError) := do
  let (storage, level) ← get
  match ← level.validateMember self storage node with
  | .error error => return some error
  | .ok () =>
    if level.orderCount = 0 then return some .levelInvariantViolation
    let value ← storage.deref node
    match Word.checkedSubtract level.aggregateQuantity value.payload.remainingQuantity with
    | none => return some .aggregateUnderflow
    | some aggregate =>
      let count := level.orderCount - 1
      if (count = 0 && aggregate ≠ 0) || (count ≠ 0 && aggregate = 0) then
        return some .levelInvariantViolation
      let previous := value.previous
      let next := value.next
      match previous with
      | none => writeHead next
      | some before => writeNode before fun old => { old with next := next }
      match next with
      | none => writeTail previous
      | some behind => writeNode behind fun old => { old with previous := previous }
      writeAggregate aggregate
      writeCount count
      writeNode node fun old => { old with previous := none }
      writeNode node fun old => { old with next := none }
      writeNode node fun old => { old with owner := none }
      checkedReturn checks self

/-- `reduce_remaining`, statement by statement. -/
def reduceRemainingCall (node : OrderId) (reduction : Quantity) :
    Call (Option PriceLevelError) := do
  let (storage, level) ← get
  match ← level.validateMember self storage node with
  | .error error => return some error
  | .ok () =>
    let value ← storage.deref node
    if reduction = 0 || value.payload.remainingQuantity ≤ reduction then
      return some .invalidReduction
    match Word.checkedSubtract value.payload.remainingQuantity reduction with
    | none => return some .invalidReduction
    | some remaining =>
      if remaining = 0 then return some .invalidReduction
      match Word.checkedSubtract level.aggregateQuantity reduction with
      | none => return some .aggregateUnderflow
      | some aggregate =>
        if aggregate = 0 then return some .levelInvariantViolation
        writeNode node fun old => { old with payload := old.payload.withRemaining remaining }
        writeAggregate aggregate
        checkedReturn checks self

end Calls

end PriceLevel

end AtlasLob
