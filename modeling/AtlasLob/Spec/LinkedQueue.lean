import AtlasLob.Library.IntrusiveFrame
import AtlasLob.Spec.Queue

/-!
# Levels as linked queues

When the end pointers, the links, the count and the cached sum of a level describe one proper
FIFO queue. Nodes live at addresses that have nothing to do with the orders they carry, so a
member of a queue is an address with its order.
-/

namespace AtlasLob

open Intrusive

/-- The nodes with every order beside its address. -/
def OrderStorage.addressed (storage : OrderStorage) :
    Heap OrderId (OrderId × OrderNodeSpec) LevelRef :=
  mapPayload Prod.mk storage

/-- The node at an address, with the address beside its order. -/
theorem OrderStorage.getElem?_addressed (storage : OrderStorage) (address : OrderId) :
    storage.addressed[address]? = storage[address]?.map fun node =>
      ⟨(address, node.payload), node.previous, node.next, node.owner⟩ :=
  getElem?_mapPayload Prod.mk storage address

/-- Linking a node sees no order. -/
theorem OrderStorage.addressed_pushBack (owner : LevelRef) (node : OrderId)
    (storage : OrderStorage) (ends : Ends OrderId) :
    OrderStorage.addressed (pushBack owner node storage ends).1 =
      (pushBack owner node storage.addressed ends).1 ∧
    (pushBack owner node storage ends).2 = (pushBack owner node storage.addressed ends).2 :=
  mapPayload_pushBack Prod.mk owner node storage ends

/-- Unlinking a node sees no order. -/
theorem OrderStorage.addressed_unlink (node : OrderId) (storage : OrderStorage)
    (ends : Ends OrderId) :
    OrderStorage.addressed (unlink node storage ends).1 =
      (unlink node storage.addressed ends).1 ∧
    (unlink node storage ends).2 = (unlink node storage.addressed ends).2 :=
  mapPayload_unlink Prod.mk node storage ends

/-- Writing a quantity writes it beside the address too. -/
theorem OrderStorage.addressed_withRemaining {storage : OrderStorage} {node : OrderId}
    {value : OrderNode} (held : storage[node]? = some value) (remaining : Quantity) :
    OrderStorage.addressed (update node (fun old =>
      { old with payload := old.payload.withRemaining remaining }) storage) =
    update node (fun old =>
      { old with payload := (node, value.payload.withRemaining remaining) }) storage.addressed := by
  have moved := mapPayload_update Prod.mk storage node
    (fun old => { old with payload := old.payload.withRemaining remaining })
    (fun old => { old with payload := (old.payload.1, old.payload.2.withRemaining remaining) })
    fun _ => rfl
  rw [OrderStorage.addressed, moved, update, update, ← OrderStorage.addressed,
    OrderStorage.getElem?_addressed, held]
  rfl

namespace PriceLevel

/-- The level describes one proper FIFO list of the given members. -/
structure Fifo (owner : LevelRef) (storage : OrderStorage) (level : PriceLevel)
    (members : List (OrderId × OrderNodeSpec)) : Prop where
  /-- Positive price, quantities and priorities, arrival order, and a sum that fits. -/
  queue : Queue level.price (members.map Prod.snd)
  /-- The ends and the links in both directions run through the members in order. -/
  spans : Spans Prod.fst storage.addressed owner level.ends members
  /-- The cached count is the number of members. -/
  count : level.orderCount = members.length
  /-- The cached sum is the exact sum of the remaining quantities. -/
  sum : level.aggregateQuantity.toNat = total (members.map Prod.snd)

/-- The level describes a FIFO list of all the nodes that say they belong to it. -/
structure WellFormed (owner : LevelRef) (storage : OrderStorage) (level : PriceLevel)
    (members : List (OrderId × OrderNodeSpec)) : Prop extends
    Fifo owner storage level members where
  /-- No other node names the level as its own. -/
  exclusive : ∀ (address : OrderId) (node : OrderNode), storage[address]? = some node →
    node.owner = some owner → address ∈ members.map Prod.fst

/-- Nodes and a level whose pointers, however they run, all lead to nodes. -/
structure LinkGraph where
  storage : OrderStorage
  level : PriceLevel
  /-- Backward links lead to nodes. -/
  previous : ∀ (address : OrderId) (node : OrderNode) (other : OrderId),
    storage[address]? = some node → node.previous = some other → other ∈ storage
  /-- Forward links lead to nodes. -/
  next : ∀ (address : OrderId) (node : OrderNode) (other : OrderId),
    storage[address]? = some node → node.next = some other → other ∈ storage
  /-- The head pointer leads to a node. -/
  head : ∀ other, level.ends.head = some other → other ∈ storage
  /-- The tail pointer leads to a node. -/
  tail : ∀ other, level.ends.tail = some other → other ∈ storage

end PriceLevel

end AtlasLob
