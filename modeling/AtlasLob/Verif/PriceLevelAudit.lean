import AtlasLob.Library.LinkChase
import AtlasLob.Spec.LinkedQueue
import AtlasLob.Verif.PriceLevel

/-!
# The level audit decides

The validation of a level ends on every finite graph of nodes, cyclic or cross-linked, and it
finds nothing wrong exactly when the level describes one proper FIFO list.
-/

namespace AtlasLob

open Intrusive

/-- An accepted sum is exact. -/
theorem Word.toNat_of_checkedAdd {left right sum : UInt64}
    (added : Word.checkedAdd left right = some sum) : sum.toNat = left.toNat + right.toNat := by
  by_cases fits : left.toNat + right.toNat < 2 ^ 64
  · rw [Word.checkedAdd_of_fits fits] at added
    rw [← Option.some.inj added, Word.toNat_add_of_fits fits]
  · rw [Word.checkedAdd_of_overflow (Nat.le_of_not_lt fits)] at added
    exact absurd added nofun

/-- A run past an early return did not meet its condition. -/
theorem Run.of_guard {α : Type} {condition : Prop} [Decidable condition] {early result : α}
    {rest : Run α} (returned : (if condition then pure early else rest) = .ok result)
    (other : early ≠ result) : ¬condition ∧ rest = .ok result := by
  by_cases met : condition
  · rw [if_pos met] at returned
    exact absurd (Except.ok.inj returned) other
  · rw [if_neg met] at returned
    exact ⟨met, returned⟩

/-- A pointer to a node can be followed. -/
theorem OrderStorage.deref_eq_ok {storage : OrderStorage} {node : OrderId} {value : OrderNode} :
    storage.deref node = .ok value ↔ storage[node]? = some value := by
  unfold OrderStorage.deref
  cases storage[node]? with
  | none => exact iff_of_false nofun nofun
  | some held =>
    rw [Except.ok.injEq, Option.some.injEq]

/-- Every address of a node can be followed. -/
theorem OrderStorage.deref_of_mem {storage : OrderStorage} {node : OrderId}
    (inside : node ∈ storage) :
    ∃ value, storage[node]? = some value ∧ storage.deref node = .ok value := by
  rw [Std.ExtTreeMap.mem_iff_isSome_getElem?, Option.isSome_iff_exists] at inside
  obtain ⟨value, held⟩ := inside
  exact ⟨value, held, OrderStorage.deref_eq_ok.mpr held⟩

namespace PriceLevel

variable {self : LevelRef} {storage : OrderStorage} {level : PriceLevel}

section Termination

/-- The look behind a link ends. -/
theorem linkReturns_total {current : OrderId} {neighbour : Option OrderId}
    {back : OrderNode → Option OrderId}
    (inside : ∀ other, neighbour = some other → other ∈ storage) :
    ∃ returns, linkReturns storage current neighbour back = .ok returns := by
  cases neighbour with
  | none => exact ⟨true, rfl⟩
  | some other =>
    obtain ⟨value, _, found⟩ := OrderStorage.deref_of_mem (inside other rfl)
    refine ⟨decide (back value = some current), ?_⟩
    rw [linkReturns, found]
    rfl

/-- The checks of one node end. -/
theorem visitForward_total {pass : ForwardPass} {current : OrderId} {node : OrderNode}
    (inside : ∀ other, node.next = some other → other ∈ storage) :
    ∃ outcome, visitForward self level storage pass current node = .ok outcome := by
  obtain ⟨returns, looked⟩ := @linkReturns_total storage current node.next Node.previous inside
  unfold visitForward
  simp only [looked, Run.ok_bind]
  split_ifs
  case neg =>
    cases Word.checkedAdd pass.observedAggregate node.payload.remainingQuantity with
    | none => exact ⟨_, rfl⟩
    | some sum => exact ⟨_, rfl⟩
  all_goals exact ⟨_, rfl⟩

/-- The forward pass ends where the forward links do. -/
theorem scanForward_total (closed : ∀ (address : OrderId) (node : OrderNode) (other : OrderId),
    storage[address]? = some node → node.next = some other → other ∈ storage) :
    ∀ (steps : Nat) (pass : ForwardPass) (pointer : Option OrderId),
      orbit Node.next storage steps pointer = none →
      (∀ other, pointer = some other → other ∈ storage) →
      ∃ outcome, scanForward self level storage steps pass pointer = .ok outcome := by
  intro steps
  induction steps with
  | zero =>
    intro pass pointer ended _
    have fallen : pointer = none := ended
    subst fallen
    exact ⟨_, rfl⟩
  | succ steps ih =>
    intro pass pointer ended inside
    cases pointer with
    | none => exact ⟨_, rfl⟩
    | some current =>
      obtain ⟨node, held, found⟩ := OrderStorage.deref_of_mem (inside current rfl)
      have further := closed current node
      obtain ⟨outcome, visited⟩ := @visitForward_total self storage level pass current node
        fun other linked => further other held linked
      rw [scanForward, found, Run.ok_bind, visited, Run.ok_bind]
      cases outcome with
      | error error => exact ⟨_, rfl⟩
      | ok after =>
        refine ih after node.next ?_ fun other linked => further other held linked
        rw [orbit_succ_left, Option.bind_some, follow, held, Option.bind_some] at ended
        exact ended

/-- The backward pass ends where the backward links do. -/
theorem scanBackward_total
    (closed : ∀ (address : OrderId) (node : OrderNode) (other : OrderId),
      storage[address]? = some node → node.previous = some other → other ∈ storage) :
    ∀ (steps : Nat) (next pointer : Option OrderId),
      orbit Node.previous storage steps pointer = none →
      (∀ other, pointer = some other → other ∈ storage) →
      ∃ outcome, scanBackward storage steps next pointer = .ok outcome := by
  intro steps
  induction steps with
  | zero =>
    intro next pointer ended _
    have fallen : pointer = none := ended
    subst fallen
    exact ⟨_, rfl⟩
  | succ steps ih =>
    intro next pointer ended inside
    cases pointer with
    | none => exact ⟨_, rfl⟩
    | some current =>
      obtain ⟨node, held, found⟩ := OrderStorage.deref_of_mem (inside current rfl)
      have further := closed current node
      obtain ⟨returns, looked⟩ := @linkReturns_total storage current node.previous Node.next
        fun other linked => further other held linked
      have later := ih (some current) node.previous (by
        rw [orbit_succ_left, Option.bind_some, follow, held, Option.bind_some] at ended
        exact ended) fun other linked => further other held linked
      rw [scanBackward, found, Run.ok_bind]
      simp only [looked, Run.ok_bind]
      split_ifs
      · exact ⟨_, rfl⟩
      · exact ⟨_, rfl⟩
      · exact later

/-- The audit ends on every finite graph of nodes. -/
theorem validateInvariants_total (self : LevelRef) (graph : LinkGraph) :
    ∃ verdict, graph.level.validateInvariants self graph.storage = .ok verdict := by
  obtain ⟨storage, level, previous, next, head, tail⟩ := graph
  show ∃ verdict, level.validateInvariants self storage = .ok verdict
  unfold validateInvariants
  split_ifs
  iterate 5 exact ⟨_, rfl⟩
  cases first : level.ends.head with
  | none => exact ⟨_, rfl⟩
  | some front =>
    cases last : level.ends.tail with
    | none => exact ⟨_, rfl⟩
    | some rear =>
      have frontIn := head front first
      have rearIn := tail rear last
      obtain ⟨headNode, _, headFound⟩ := OrderStorage.deref_of_mem frontIn
      obtain ⟨tailNode, _, tailFound⟩ := OrderStorage.deref_of_mem rearIn
      simp only [headFound, tailFound, Run.ok_bind]
      split_ifs
      · exact ⟨_, rfl⟩
      · exact ⟨_, rfl⟩
      obtain ⟨forward, chased⟩ := @pursue_total _ _ _ _ _ _ Node.next storage front _
      rw [chased]
      cases forward with
      | true => exact ⟨_, rfl⟩
      | false =>
        obtain ⟨backward, chasedBack⟩ := @pursue_total _ _ _ _ _ _ Node.previous storage rear _
        simp only [chasedBack]
        cases backward with
        | true => exact ⟨_, rfl⟩
        | false =>
          have frontEnds : orbit Node.next storage (storage.size + 1) (some front) = none := by
            obtain ⟨ended, falls⟩ := orbit_ends_of_pursue chased
            exact orbit_none_of_le (orbit_ends next frontIn falls) (Nat.le_succ _)
          have rearEnds : orbit Node.previous storage (storage.size + 1) (some rear) = none := by
            obtain ⟨ended, falls⟩ := orbit_ends_of_pursue chasedBack
            exact orbit_none_of_le (orbit_ends previous rearIn falls) (Nat.le_succ _)
          obtain ⟨forwardPass, scanned⟩ := @scanForward_total self storage level next
            (storage.size + 1) ⟨none, 0, 0, 0⟩ (some front) frontEnds
            fun other same => Option.some.inj same ▸ frontIn
          obtain ⟨backwardPass, scannedBack⟩ := scanBackward_total previous
            (storage.size + 1) none (some rear) rearEnds
            fun other same => Option.some.inj same ▸ rearIn
          simp only [scanned, scannedBack, Run.ok_bind]
          cases forwardPass with
          | error error => exact ⟨_, rfl⟩
          | ok pass =>
            cases backwardPass with
            | error error =>
              simp only
              split_ifs
              · exact ⟨_, rfl⟩
              · exact ⟨_, rfl⟩
            | ok reached =>
              simp only
              split_ifs
              all_goals exact ⟨_, rfl⟩

end Termination

section Soundness

/-- What the checks of one node establish when they pass. -/
theorem visitForward_eq_ok {pass after : ForwardPass} {current : OrderId} {node : OrderNode}
    (visited : visitForward self level storage pass current node = .ok (.ok after)) :
    node.owner = some self ∧ node.payload.price = level.price ∧
      node.payload.remainingQuantity ≠ 0 ∧ node.payload.prioritySequence ≠ 0 ∧
      (pass.previous.isSome = true → pass.previousSequence < node.payload.prioritySequence) ∧
      node.previous = pass.previous ∧
      Word.checkedAdd pass.observedAggregate node.payload.remainingQuantity =
        some after.observedAggregate ∧
      after.previous = some current ∧ after.previousSequence = node.payload.prioritySequence ∧
      after.observedCount = pass.observedCount + 1 := by
  unfold visitForward at visited
  obtain ⟨owned, visited⟩ := Run.of_guard visited nofun
  obtain ⟨priced, visited⟩ := Run.of_guard visited nofun
  obtain ⟨unfilled, visited⟩ := Run.of_guard visited nofun
  obtain ⟨issued, visited⟩ := Run.of_guard visited nofun
  obtain ⟨later, visited⟩ := Run.of_guard visited nofun
  obtain ⟨linked, visited⟩ := Run.of_guard visited nofun
  obtain ⟨returns, _, visited⟩ := Run.bind_eq_ok.mp visited
  obtain ⟨_, visited⟩ := Run.of_guard visited nofun
  obtain ⟨_, visited⟩ := Run.of_guard visited nofun
  cases added : Word.checkedAdd pass.observedAggregate node.payload.remainingQuantity with
  | none =>
    rw [added] at visited
    exact absurd visited nofun
  | some sum =>
    rw [added] at visited
    obtain rfl := Except.ok.inj (Except.ok.inj visited)
    refine ⟨not_not.mp owned, not_not.mp priced, unfilled, issued, ?_, not_not.mp linked, rfl,
      rfl, rfl, rfl⟩
    intro present
    rw [present, Bool.true_and, decide_eq_true_eq, UInt64.not_le] at later
    exact later

/-- A forward pass to the end has met a chain of live orders in arrival order. -/
theorem scanForward_sound : ∀ (steps : Nat) (pass final : ForwardPass) (pointer : Option OrderId),
    scanForward self level storage steps pass pointer = .ok (.ok final) →
    ∃ members, Chain Prod.fst storage.addressed self pass.previous pointer members ∧
      (∀ member ∈ members, member.2.price = level.price ∧ member.2.remainingQuantity ≠ 0 ∧
        member.2.prioritySequence ≠ 0) ∧
      (members.Pairwise fun first second => first.2.prioritySequence < second.2.prioritySequence) ∧
      (pass.previous.isSome = true → ∀ member ∈ members,
        pass.previousSequence < member.2.prioritySequence) ∧
      final.previous = (members.getLast?.map Prod.fst).or pass.previous ∧
      final.observedCount = pass.observedCount + members.length ∧
      final.observedAggregate.toNat =
        pass.observedAggregate.toNat + total (members.map Prod.snd) := by
  intro steps
  induction steps with
  | zero =>
    intro pass final pointer scanned
    cases pointer with
    | some current => cases scanned
    | none =>
      obtain rfl : pass = final := Except.ok.inj (Except.ok.inj scanned)
      exact ⟨[], rfl, List.forall_mem_nil _, List.Pairwise.nil, fun _ =>
        List.forall_mem_nil _, rfl, rfl, rfl⟩
  | succ steps ih =>
    intro pass final pointer scanned
    cases pointer with
    | none =>
      obtain rfl : pass = final := Except.ok.inj (Except.ok.inj scanned)
      exact ⟨[], rfl, List.forall_mem_nil _, List.Pairwise.nil, fun _ =>
        List.forall_mem_nil _, rfl, rfl, rfl⟩
    | some current =>
      rw [scanForward] at scanned
      obtain ⟨node, found, scanned⟩ := Run.bind_eq_ok.mp scanned
      obtain ⟨outcome, visited, scanned⟩ := Run.bind_eq_ok.mp scanned
      cases outcome with
      | error error => cases scanned
      | ok after =>
        obtain ⟨owned, priced, unfilled, issued, later, linked, added, reached, priority,
          counted⟩ :=
          visitForward_eq_ok visited
        obtain ⟨members, chain, sound, increasing, above, last, count, sum⟩ :=
          ih after final node.next scanned
        have present : after.previous.isSome = true := by
          rw [reached, Option.isSome_some]
        have behind : ∀ member ∈ members,
            node.payload.prioritySequence < member.2.prioritySequence := by
          rw [← priority]
          exact above present
        refine ⟨(current, node.payload) :: members, ⟨rfl, ?_, ?_⟩, ?_, ?_, ?_, ?_, ?_, ?_⟩
        · rw [OrderStorage.getElem?_addressed, OrderStorage.deref_eq_ok.mp found,
            Option.map_some, linked, owned, ← chain.pointer_eq]
        · rw [← chain.pointer_eq, ← reached]
          exact chain
        · exact List.forall_mem_cons.mpr ⟨⟨priced, unfilled, issued⟩, sound⟩
        · exact List.pairwise_cons.mpr ⟨behind, increasing⟩
        · intro earlier
          have first := later earlier
          refine List.forall_mem_cons.mpr ⟨first, fun member inside => ?_⟩
          exact UInt64.lt_trans first (behind member inside)
        · rw [last, reached]
          cases members with
          | nil => rfl
          | cons second others =>
            rw [List.getLast?_cons_cons,
              List.getLast?_eq_some_getLast (List.cons_ne_nil second others)]
            rfl
        · rw [count, counted, List.length_cons]
          omega
        · rw [sum, Word.toNat_of_checkedAdd added, List.map_cons, total_cons, Nat.add_assoc]

/-- Distinct priorities need distinct nodes. -/
theorem nodup_of_increasing {members : List (OrderId × OrderNodeSpec)}
    {previous pointer : Option OrderId}
    (chain : Chain Prod.fst storage.addressed self previous pointer members)
    (increasing : members.Pairwise fun first second =>
      first.2.prioritySequence < second.2.prioritySequence) :
    (members.map Prod.fst).Nodup := by
  have stored : ∀ member ∈ members, ∃ node : Node OrderId (OrderId × OrderNodeSpec) LevelRef,
      storage.addressed[member.1]? = some node ∧ node.payload = member := by
    intro member inside
    obtain ⟨front, back, split⟩ := List.append_of_mem inside
    exact ⟨_, chain.linked split, rfl⟩
  rw [List.Nodup, List.pairwise_map]
  refine increasing.imp_of_mem fun {first second} firstIn secondIn less same => ?_
  obtain ⟨firstNode, firstHeld, firstPayload⟩ := stored first firstIn
  obtain ⟨secondNode, secondHeld, secondPayload⟩ := stored second secondIn
  rw [same, secondHeld] at firstHeld
  have equal : first = second := by
    rw [← firstPayload, ← secondPayload, Option.some.inj firstHeld]
  rw [equal] at less
  exact UInt64.lt_irrefl _ less

end Soundness

section Exactness

/-- A failing node check names a fault. -/
theorem visitForward_error (pass : ForwardPass) (current : OrderId) (node : OrderNode) :
    visitForward self level storage pass current node ≠ .ok (.error .none) := by
  intro visited
  unfold visitForward at visited
  obtain ⟨_, visited⟩ := Run.of_guard visited nofun
  obtain ⟨_, visited⟩ := Run.of_guard visited nofun
  obtain ⟨_, visited⟩ := Run.of_guard visited nofun
  obtain ⟨_, visited⟩ := Run.of_guard visited nofun
  obtain ⟨_, visited⟩ := Run.of_guard visited nofun
  obtain ⟨_, visited⟩ := Run.of_guard visited nofun
  obtain ⟨_, _, visited⟩ := Run.bind_eq_ok.mp visited
  obtain ⟨_, visited⟩ := Run.of_guard visited nofun
  obtain ⟨_, visited⟩ := Run.of_guard visited nofun
  cases added : Word.checkedAdd pass.observedAggregate node.payload.remainingQuantity with
  | none =>
    rw [added] at visited
    exact absurd visited nofun
  | some sum =>
    rw [added] at visited
    exact absurd visited nofun

/-- A failing forward pass names a fault. -/
theorem scanForward_error (steps : Nat) (pass : ForwardPass) (pointer : Option OrderId) :
    scanForward self level storage steps pass pointer ≠ .ok (.error .none) := by
  induction steps generalizing pass pointer with
  | zero =>
    intro scanned
    cases pointer <;> cases scanned
  | succ steps ih =>
    cases pointer with
    | none =>
      intro scanned
      cases scanned
    | some current =>
      intro scanned
      rw [scanForward] at scanned
      obtain ⟨node, _, scanned⟩ := Run.bind_eq_ok.mp scanned
      obtain ⟨outcome, visited, scanned⟩ := Run.bind_eq_ok.mp scanned
      cases outcome with
      | error error =>
        obtain rfl := Except.error.inj (Except.ok.inj scanned)
        exact visitForward_error pass current node visited
      | ok after => exact ih after node.next scanned

/-- A failing backward pass names a fault. -/
theorem scanBackward_error (steps : Nat) (next pointer : Option OrderId) :
    scanBackward storage steps next pointer ≠ .ok (.error .none) := by
  induction steps generalizing next pointer with
  | zero =>
    intro scanned
    cases pointer <;> cases scanned
  | succ steps ih =>
    cases pointer with
    | none =>
      intro scanned
      cases scanned
    | some current =>
      intro scanned
      rw [scanBackward] at scanned
      obtain ⟨node, _, scanned⟩ := Run.bind_eq_ok.mp scanned
      obtain ⟨_, scanned⟩ := Run.of_guard scanned (by decide)
      obtain ⟨_, _, scanned⟩ := Run.bind_eq_ok.mp scanned
      obtain ⟨_, scanned⟩ := Run.of_guard scanned (by decide)
      exact ih (some current) node.previous scanned

/-- A valid audit of an empty level has found no pointer and no quantity. -/
theorem fifo_of_empty (positive : 0 < level.price) (headless : ¬level.ends.head.isSome = true)
    (tailless : ¬level.ends.tail.isSome = true) (count : level.orderCount = 0)
    (sum : level.aggregateQuantity = 0) : Fifo self storage level [] where
  queue := ⟨positive, nofun, nofun, nofun, List.Pairwise.nil, by decide⟩
  spans := by
    rw [Bool.not_eq_true, Option.isSome_eq_false_iff, Option.isNone_iff_eq_none]
      at headless tailless
    rw [show level.ends = ⟨level.ends.head, level.ends.tail⟩ from rfl, headless, tailless]
    exact Spans.nil
  count := count
  sum := by
    rw [sum]
    rfl

/-- A valid audit has found one proper FIFO list. -/
theorem fifo_of_valid (valid : level.validateInvariants self storage = .ok .none) :
    ∃ members, Fifo self storage level members := by
  unfold validateInvariants at valid
  obtain ⟨nonpositive, valid⟩ := Run.of_guard valid nofun
  have positive : 0 < level.price := Int64.not_le.mp nonpositive
  by_cases empty : level.orderCount = 0
  · rw [if_pos empty] at valid
    obtain ⟨headless, valid⟩ := Run.of_guard valid nofun
    obtain ⟨tailless, valid⟩ := Run.of_guard valid nofun
    obtain ⟨summed, _⟩ := Run.of_guard valid nofun
    exact ⟨[], fifo_of_empty positive headless tailless empty (not_not.mp summed)⟩
  rw [if_neg empty] at valid
  split at valid
  · exact absurd valid nofun
  · exact absurd valid nofun
  · next first last headed tailed =>
    obtain ⟨head, _, valid⟩ := Run.bind_eq_ok.mp valid
    obtain ⟨tail, _, valid⟩ := Run.bind_eq_ok.mp valid
    obtain ⟨_, valid⟩ := Run.of_guard valid nofun
    obtain ⟨_, valid⟩ := Run.of_guard valid nofun
    split at valid
    · exact absurd valid nofun
    · exact absurd valid nofun
    split at valid
    · exact absurd valid nofun
    · exact absurd valid nofun
    obtain ⟨outcome, scanned, valid⟩ := Run.bind_eq_ok.mp valid
    cases outcome with
    | error error =>
      obtain rfl := Except.ok.inj valid
      exact absurd scanned (scanForward_error _ _ _)
    | ok pass =>
      obtain ⟨reached, valid⟩ := Run.of_guard valid nofun
      obtain ⟨outcome, scannedBack, valid⟩ := Run.bind_eq_ok.mp valid
      cases outcome with
      | error error =>
        obtain rfl := Except.ok.inj valid
        exact absurd scannedBack (scanBackward_error _ _ _)
      | ok start =>
        obtain ⟨_, valid⟩ := Run.of_guard valid nofun
        obtain ⟨counted, valid⟩ := Run.of_guard valid nofun
        obtain ⟨summed, _⟩ := Run.of_guard valid nofun
        obtain ⟨members, chain, sound, increasing, _, final, count, sum⟩ :=
          scanForward_sound _ _ _ _ scanned
        have fits := pass.observedAggregate.toNat_lt
        rw [not_not] at reached counted summed
        rw [UInt64.toNat_zero, Nat.zero_add] at sum
        rw [Nat.zero_add] at count
        refine ⟨members, ⟨positive, ?_, ?_, ?_, ?_, ?_⟩, ?_, ?_, ?_⟩
        · exact List.forall_mem_map.mpr fun member inside => (sound member inside).1
        · exact List.forall_mem_map.mpr fun member inside => (sound member inside).2.1
        · exact List.forall_mem_map.mpr fun member inside => (sound member inside).2.2
        · exact List.pairwise_map.mpr increasing
        · rw [← sum]
          exact fits
        · refine Chain.spans (headed ▸ chain) (nodup_of_increasing chain increasing) ?_
          rw [tailed, ← reached, final, Option.or_none]
        · rw [← counted, count]
        · rw [← summed, sum]

end Exactness

section Addresses

/-- An order under another identifier. -/
def relabel (address : OrderId) (order : OrderNodeSpec) : OrderNodeSpec :=
  { order with orderId := address }

/-- The same nodes, each order identified by its address. -/
def rekey (storage : OrderStorage) : OrderStorage := mapPayload relabel storage

/-- The node at an address. -/
def rekeyNode (address : OrderId) (node : OrderNode) : OrderNode :=
  ⟨relabel address node.payload, node.previous, node.next, node.owner⟩

/-- Following a pointer finds the node that was there. -/
theorem deref_rekey (storage : OrderStorage) (address : OrderId) :
    (rekey storage).deref address = (storage.deref address).map (rekeyNode address) := by
  rw [OrderStorage.deref, OrderStorage.deref, rekey, getElem?_mapPayload]
  cases storage[address]? <;> rfl

/-- The look behind a link sees no identifier. -/
theorem linkReturns_rekey (storage : OrderStorage) (current : OrderId)
    (neighbour : Option OrderId) {back : OrderNode → Option OrderId}
    (plain : ∀ address node, back (rekeyNode address node) = back node) :
    linkReturns (rekey storage) current neighbour back =
      linkReturns storage current neighbour back := by
  cases neighbour with
  | none => rfl
  | some other =>
    rw [linkReturns, linkReturns, deref_rekey]
    cases storage.deref other with
    | error halt => rfl
    | ok value =>
      show Except.ok (decide (back (rekeyNode other value) = some current)) = _
      rw [plain]
      rfl

/-- The checks of one node see no identifier. -/
theorem visitForward_rekey (pass : ForwardPass) (current : OrderId) (node : OrderNode) :
    visitForward self level (rekey storage) pass current (rekeyNode current node) =
      visitForward self level storage pass current node := by
  unfold visitForward
  rw [linkReturns_rekey storage current _ fun _ _ => rfl]
  rfl

/-- The forward pass sees no identifier. -/
theorem scanForward_rekey (steps : Nat) (pass : ForwardPass) (pointer : Option OrderId) :
    scanForward self level (rekey storage) steps pass pointer =
      scanForward self level storage steps pass pointer := by
  induction steps generalizing pass pointer with
  | zero => cases pointer <;> rfl
  | succ steps ih =>
    cases pointer with
    | none => rfl
    | some current =>
      rw [scanForward, scanForward, deref_rekey]
      cases storage.deref current with
      | error halt => rfl
      | ok node =>
        show (visitForward self level (rekey storage) pass current
          (rekeyNode current node) >>= _) = _
        rw [visitForward_rekey]
        simp only [ih]
        rfl

/-- The backward pass sees no identifier. -/
theorem scanBackward_rekey (steps : Nat) (next pointer : Option OrderId) :
    scanBackward (rekey storage) steps next pointer = scanBackward storage steps next pointer := by
  induction steps generalizing next pointer with
  | zero => cases pointer <;> rfl
  | succ steps ih =>
    cases pointer with
    | none => rfl
    | some current =>
      rw [scanBackward, scanBackward, deref_rekey]
      cases storage.deref current with
      | error halt => rfl
      | ok node =>
        have looked := @linkReturns_rekey storage current node.previous Node.next fun _ _ => rfl
        rw [Run.ok_bind, ← looked, ← ih]
        rfl

/-- The audit sees no identifier. -/
theorem validateInvariants_rekey (self : LevelRef) (level : PriceLevel) (storage : OrderStorage) :
    level.validateInvariants self (rekey storage) = level.validateInvariants self storage := by
  have size : (rekey storage).size = storage.size := size_mapPayload relabel storage
  have forward : ∀ steps slow fast, pursue Node.next (rekey storage) steps slow fast =
      pursue Node.next storage steps slow fast :=
    pursue_congr (follow_next_mapPayload relabel storage)
  have backward : ∀ steps slow fast, pursue Node.previous (rekey storage) steps slow fast =
      pursue Node.previous storage steps slow fast :=
    pursue_congr (follow_previous_mapPayload relabel storage)
  unfold validateInvariants
  simp only [deref_rekey, scanForward_rekey, scanBackward_rekey, size, forward, backward]
  cases level.ends.head with
  | none => rfl
  | some first =>
    cases level.ends.tail with
    | none => rfl
    | some last =>
      simp only
      cases storage.deref first with
      | error halt => rfl
      | ok head =>
        cases storage.deref last with
        | error halt => rfl
        | ok tail => rfl

/-- The orders of a queue, each identified by its address. -/
def rekeyed (members : List (OrderId × OrderNodeSpec)) : List OrderNodeSpec :=
  members.map fun member => relabel member.1 member.2

/-- Identifiers do not count towards the sum. -/
theorem total_rekeyed (members : List (OrderId × OrderNodeSpec)) :
    total (rekeyed members) = total (members.map Prod.snd) := by
  rw [total, total, rekeyed, List.map_map, List.map_map]
  rfl

/-- A queue stays one under other identifiers. -/
theorem Queue.rekeyed {price : PriceTicks} {members : List (OrderId × OrderNodeSpec)}
    (queue : Queue price (members.map Prod.snd)) : Queue price (rekeyed members) where
  positive := queue.positive
  priced := List.forall_mem_map.mpr fun member inside =>
    queue.priced member.2 (List.mem_map_of_mem inside)
  unfilled := List.forall_mem_map.mpr fun member inside =>
    queue.unfilled member.2 (List.mem_map_of_mem inside)
  issued := List.forall_mem_map.mpr fun member inside =>
    queue.issued member.2 (List.mem_map_of_mem inside)
  increasing := by
    have increasing := queue.increasing
    rw [List.pairwise_map] at increasing
    rw [PriceLevel.rekeyed, List.pairwise_map]
    exact increasing
  fits := by
    rw [total_rekeyed]
    exact queue.fits

/-- A FIFO list of members is a held queue of orders identified by their addresses. -/
theorem Fifo.held {members : List (OrderId × OrderNodeSpec)}
    (fifo : Fifo self storage level members) :
    Held self (rekey storage) (rekeyed members) ∧
      level = describe level.price (rekeyed members) := by
  have spans := @Spans.mapPayload _ _ _ _ _ _ _ Prod.fst OrderNodeSpec.orderId
    (fun address member => relabel address member.2) _ _ _ _ fifo.spans fun _ => rfl
  rw [OrderStorage.addressed, mapPayload_mapPayload] at spans
  have ends : level.ends = endsOf (PriceLevel.rekeyed members) := spans.ends_eq
  rw [ends] at spans
  refine ⟨spans, ?_⟩
  have sum : level.aggregateQuantity = aggregate (PriceLevel.rekeyed members) := by
    apply Word.eq_of_toNat
    rw [fifo.sum, fifo.queue.rekeyed.aggregate_toNat, total_rekeyed]
  have count : level.orderCount = (PriceLevel.rekeyed members).length := by
    rw [fifo.count, PriceLevel.rekeyed, List.length_map]
  rw [describe, ← ends, ← sum, ← count]

/-- The audit finds nothing wrong with a FIFO list. -/
theorem Fifo.validateInvariants {members : List (OrderId × OrderNodeSpec)}
    (fifo : Fifo self storage level members) :
    level.validateInvariants self storage = .ok .none := by
  have valid := fifo.queue.rekeyed.validateInvariants fifo.held.1
  rw [← fifo.held.2, validateInvariants_rekey] at valid
  exact valid

end Addresses

/-- The audit ends on every finite graph of nodes with a verdict, and the verdict is that the
level is valid exactly when it describes one proper FIFO list. -/
theorem validateInvariants_exact (self : LevelRef) (graph : LinkGraph) :
    ∃ verdict, graph.level.validateInvariants self graph.storage = .ok verdict ∧
      (verdict = .none ↔ ∃ members, Fifo self graph.storage graph.level members) := by
  obtain ⟨verdict, ended⟩ := validateInvariants_total self graph
  refine ⟨verdict, ended, fun none => fifo_of_valid (none ▸ ended), fun ⟨members, fifo⟩ => ?_⟩
  have valid := fifo.validateInvariants
  rw [ended] at valid
  exact Except.ok.inj valid

end PriceLevel

end AtlasLob
