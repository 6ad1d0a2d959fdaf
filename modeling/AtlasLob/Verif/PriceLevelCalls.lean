import AtlasLob.Core.PriceLevelCalls
import AtlasLob.Verif.PriceLevelAudit

/-!
# Price level calls keep their list

Each mutating call, write by write, does what the operation of the same name does, and on a
level that is well formed it leaves a well-formed level behind.
-/

namespace AtlasLob

open Intrusive

namespace PriceLevel

section Writes

variable {α β : Type} (state : OrderStorage × PriceLevel)

/-- Two statements run one after the other. -/
theorem Call.bind_run (call : Call α) (next : α → Call β) :
    (call >>= next) state = (call state >>= fun result => next result.1 result.2) := rfl

/-- A call reads its state. -/
theorem Call.get_run : (get : Call (OrderStorage × PriceLevel)) state = .ok (state, state) := rfl

/-- A read through a pointer changes nothing. -/
theorem Call.lift_run (action : Run α) :
    (liftM action : Call α) state = (action >>= fun value => .ok (value, state)) := rfl

/-- A write to a node. -/
theorem Call.writeNode_run (node : OrderId) (change : OrderNode → OrderNode) :
    writeNode node change state = .ok ((), (update node change state.1, state.2)) := rfl

/-- A write to the level. -/
theorem Call.writeLevel_run (change : PriceLevel → PriceLevel) :
    writeLevel change state = .ok ((), (state.1, change state.2)) := rfl

end Writes

section Statements

variable {checks : Bool} {self : LevelRef} {level : PriceLevel} {storage : OrderStorage}
  {node : OrderId}

/-- What a call leaves behind, given what its operation gives back. -/
def returned (before : OrderStorage × PriceLevel) :
    Run (Except PriceLevelError (OrderStorage × PriceLevel)) →
      Run (Option PriceLevelError × (OrderStorage × PriceLevel))
  | .error halt => .error halt
  | .ok (.error failure) => .ok (some failure, before)
  | .ok (.ok after) => .ok (none, after)

/-- A call and its operation refuse alike. -/
theorem returned_guard {condition : Prop} [Decidable condition] {failure : PriceLevelError}
    {call : Call (Option PriceLevelError)} {before : OrderStorage × PriceLevel}
    {operation : Run (Except PriceLevelError (OrderStorage × PriceLevel))}
    (rest : call before = returned before operation) :
    (if condition then pure (some failure) else call) before =
      returned before (if condition then pure (.error failure) else operation) := by
  by_cases refused : condition
  · rw [if_pos refused, if_pos refused]
    rfl
  · rw [if_neg refused, if_neg refused, rest]

/-- The validation at the end of a call sees what the call has written. -/
theorem checkedReturn_run (after before : OrderStorage × PriceLevel) :
    checkedReturn checks self after = returned before (do
      after.2.enforcePostconditions checks self after.1
      return .ok after) := by
  unfold checkedReturn
  simp only [Call.bind_run, Call.get_run, Call.lift_run, Run.ok_bind]
  cases after.2.enforcePostconditions checks self after.1 with
  | error halt => rfl
  | ok _ => rfl

/-- A reduction writes the quantity of the node and the sum. -/
theorem reduceRemainingCall_eq (reduction : Quantity) :
    reduceRemainingCall checks self node reduction (storage, level) =
      returned (storage, level) (level.reduceRemaining checks self storage node reduction) := by
  unfold reduceRemainingCall reduceRemaining
  simp only [Call.bind_run, Call.get_run, Call.lift_run, Run.ok_bind]
  cases level.validateMember self storage node with
  | error halt => rfl
  | ok membership =>
    cases membership with
    | error failure => rfl
    | ok _ =>
      simp only [Call.bind_run, Call.lift_run, Run.ok_bind]
      cases storage.deref node with
      | error halt => rfl
      | ok value =>
        simp only [Run.ok_bind]
        refine returned_guard ?_
        cases Word.checkedSubtract value.payload.remainingQuantity reduction with
        | none => rfl
        | some remaining =>
          refine returned_guard ?_
          cases Word.checkedSubtract level.aggregateQuantity reduction with
          | none => rfl
          | some aggregate =>
            refine returned_guard ?_
            simp only [Call.bind_run, Call.writeNode_run, writeAggregate, Call.writeLevel_run,
              Run.ok_bind]
            exact checkedReturn_run _ _

/-- An erasure writes the neighbours or the ends, the counters, and last the node. -/
theorem eraseCall_eq :
    eraseCall checks self node (storage, level) =
      returned (storage, level) (level.erase checks self storage node) := by
  unfold eraseCall erase
  simp only [Call.bind_run, Call.get_run, Call.lift_run, Run.ok_bind]
  cases level.validateMember self storage node with
  | error halt => rfl
  | ok membership =>
    cases membership with
    | error failure => rfl
    | ok _ =>
      refine returned_guard ?_
      simp only [Call.bind_run, Call.lift_run]
      cases found : storage.deref node with
      | error halt => rfl
      | ok value =>
        simp only [Run.ok_bind]
        cases Word.checkedSubtract level.aggregateQuantity value.payload.remainingQuantity with
        | none => rfl
        | some aggregate =>
          refine returned_guard ?_
          rw [Intrusive.unlink, OrderStorage.deref_eq_ok.mp found]
          obtain ⟨payload, previous, next, owner⟩ := value
          have cleared : ∀ heap : OrderStorage,
              update node (fun old => { old with owner := none })
                (update node (fun old => { old with next := none })
                  (update node (fun old => { old with previous := none }) heap)) =
              update node (fun old => { old with previous := none, next := none, owner := none })
                heap := by
            intro heap
            rw [update_update, update_update]
          cases previous <;> cases next <;>
            simp only [Call.bind_run, Call.writeNode_run, writeAggregate, writeCount, writeHead,
              writeTail, Call.writeLevel_run, Run.ok_bind, cleared] <;>
            exact checkedReturn_run _ _

/-- An append writes the node, its neighbour or the head, the tail, and the counters. -/
theorem appendCall_eq :
    appendCall checks self node (storage, level) =
      returned (storage, level) (level.append checks self storage node) := by
  unfold appendCall append
  simp only [Call.bind_run, Call.get_run, Call.lift_run, Run.ok_bind]
  cases level.validateBoundaryState self storage with
  | error halt => rfl
  | ok boundary =>
    cases boundary with
    | error failure => rfl
    | ok _ =>
      simp only [Call.bind_run, Call.lift_run, Run.ok_bind]
      cases storage.deref node with
      | error halt => rfl
      | ok value =>
        simp only [Run.ok_bind]
        refine returned_guard ?_
        refine returned_guard ?_
        refine returned_guard ?_
        refine returned_guard ?_
        simp only [Call.bind_run, Call.lift_run]
        cases tailBlocks storage level.ends.tail value.payload.prioritySequence with
        | error halt => rfl
        | ok blocked =>
          simp only [Run.ok_bind]
          refine returned_guard ?_
          cases Word.checkedAdd level.aggregateQuantity value.payload.remainingQuantity with
          | none => rfl
          | some aggregate =>
            refine returned_guard ?_
            rw [Intrusive.pushBack]
            cases level.ends.tail <;>
              simp only [Call.bind_run, Call.writeNode_run, writeAggregate, writeCount, writeHead,
                writeTail, Call.writeLevel_run, Run.ok_bind, update_update] <;>
              exact checkedReturn_run _ _

end Statements

section Checks

variable {self : LevelRef} {level : PriceLevel} {storage : OrderStorage}
  {members : List (OrderId × OrderNodeSpec)}

/-- The constant-time check sees no identifier. -/
theorem validateBoundaryState_rekey :
    level.validateBoundaryState self (rekey storage) =
      level.validateBoundaryState self storage := by
  unfold validateBoundaryState
  simp only [deref_rekey]
  cases level.ends.head with
  | none => rfl
  | some first =>
    cases level.ends.tail with
    | none => rfl
    | some last =>
      simp only
      cases storage.deref first with
      | error halt => rfl
      | ok head =>
        cases storage.deref last with
        | error halt => rfl
        | ok tail => rfl

/-- The look at a neighbour sees no identifier. -/
theorem neighbourHolds_rekey (node : OrderId) (terminal neighbour : Option OrderId)
    {back : OrderNode → Option OrderId}
    (plain : ∀ address node, back (rekeyNode address node) = back node) :
    neighbourHolds self (rekey storage) node terminal neighbour back =
      neighbourHolds self storage node terminal neighbour back := by
  cases neighbour with
  | none => rfl
  | some other =>
    rw [neighbourHolds, neighbourHolds, deref_rekey]
    cases storage.deref other with
    | error halt => rfl
    | ok value =>
      show Except.ok (decide (back (rekeyNode other value) = some node) && _) = _
      rw [plain]
      rfl

/-- The membership check sees no identifier. -/
theorem validateMember_rekey (node : OrderId) :
    level.validateMember self (rekey storage) node = level.validateMember self storage node := by
  unfold validateMember
  rw [validateBoundaryState_rekey, deref_rekey]
  cases storage.deref node with
  | error halt => rfl
  | ok value =>
    have ahead := @neighbourHolds_rekey self storage node level.ends.head value.previous Node.next
      fun _ _ => rfl
    have behind := @neighbourHolds_rekey self storage node level.ends.tail value.next Node.previous
      fun _ _ => rfl
    cases level.validateBoundaryState self storage with
    | error halt => rfl
    | ok boundary =>
      cases boundary with
      | error failure => rfl
      | ok _ =>
        simp only [Run.ok_bind]
        rw [← ahead, ← behind]
        rfl

/-- A member's node holds its order and its links. -/
theorem Fifo.stored (fifo : Fifo self storage level members)
    {front back : List (OrderId × OrderNodeSpec)} {member : OrderId × OrderNodeSpec}
    (split : members = front ++ member :: back) :
    storage[member.1]? = some ⟨member.2, front.getLast?.map Prod.fst, back.head?.map Prod.fst,
      some self⟩ := by
  obtain ⟨address, order⟩ := member
  have linked := fifo.spans.linked front (address, order) back split
  rw [OrderStorage.getElem?_addressed, Option.map_eq_some_iff] at linked
  obtain ⟨node, held, same⟩ := linked
  obtain ⟨payload, previous, next, owner⟩ := node
  have fields := Node.mk.inj same
  simp only [Prod.mk.injEq, true_and] at fields
  obtain ⟨rfl, rfl, rfl, rfl⟩ := fields
  exact held

/-- A FIFO list passes the constant-time check. -/
theorem Fifo.validateBoundaryState (fifo : Fifo self storage level members) :
    level.validateBoundaryState self storage = .ok (.ok ()) := by
  have passed := fifo.queue.rekeyed.validateBoundaryState fifo.held.1
  rw [← fifo.held.2, validateBoundaryState_rekey] at passed
  exact passed

/-- A member of a FIFO list passes the membership check. -/
theorem Fifo.validateMember {front back : List (OrderId × OrderNodeSpec)}
    {member : OrderId × OrderNodeSpec}
    (fifo : Fifo self storage level (front ++ member :: back)) :
    level.validateMember self storage member.1 = .ok (.ok ()) := by
  have queue := fifo.queue.rekeyed
  have held := fifo.held
  have split : rekeyed (front ++ member :: back) =
      rekeyed front ++ relabel member.1 member.2 :: rekeyed back := by
    rw [rekeyed, List.map_append, List.map_cons]
    rfl
  rw [split] at queue held
  have passed := queue.validateMember held.1
  rw [← held.2, validateMember_rekey] at passed
  exact passed

/-- A node of another list, or of none, does not pass. -/
theorem Fifo.validateMember_refuses (fifo : Fifo self storage level members) {node : OrderId}
    {value : OrderNode} (held : storage[node]? = some value) (foreign : value.owner ≠ some self) :
    level.validateMember self storage node = .ok (.error .nodeNotInLevel) := by
  unfold PriceLevel.validateMember
  rw [fifo.validateBoundaryState, Run.ok_bind, OrderStorage.deref_eq_ok.mpr held]
  simp only [Run.ok_bind]
  rw [if_pos foreign]
  rfl

/-- In a well-formed level a node of the level is one of its members. -/
theorem WellFormed.member_of_owner (wellFormed : WellFormed self storage level members)
    {node : OrderId} {value : OrderNode} (held : storage[node]? = some value)
    (owned : value.owner = some self) :
    ∃ front back, members = front ++ (node, value.payload) :: back := by
  have inside := wellFormed.exclusive node value held owned
  obtain ⟨⟨address, order⟩, member, rfl⟩ := List.mem_map.mp inside
  obtain ⟨front, back, split⟩ := List.append_of_mem member
  have stored := wellFormed.stored split
  rw [held] at stored
  obtain rfl := Option.some.inj stored
  exact ⟨front, back, split⟩

/-- A member's node says that it belongs to the level. -/
theorem Fifo.owner_of_member (fifo : Fifo self storage level members) {node : OrderId}
    {value : OrderNode} (held : storage[node]? = some value)
    (member : node ∈ members.map Prod.fst) : value.owner = some self := by
  obtain ⟨item, inside, rfl⟩ := List.mem_map.mp member
  obtain ⟨front, back, split⟩ := List.append_of_mem inside
  have stored := fifo.stored split
  rw [held] at stored
  rw [Option.some.inj stored]

/-- The cached sum is the machine sum of the queue. -/
theorem Fifo.aggregate_eq (fifo : Fifo self storage level members) :
    level.aggregateQuantity = aggregate (members.map Prod.snd) := by
  apply Word.eq_of_toNat
  rw [fifo.sum, fifo.queue.aggregate_toNat]

/-- The validation after a call passes on a FIFO list in both builds. -/
theorem Fifo.enforcePostconditions (checks : Bool) (fifo : Fifo self storage level members) :
    level.enforcePostconditions checks self storage = .ok () := by
  cases checks with
  | false => rfl
  | true =>
    unfold PriceLevel.enforcePostconditions
    rw [if_pos rfl, fifo.validateInvariants]
    rfl

end Checks

section Append

variable {self : LevelRef} {level : PriceLevel} {storage : OrderStorage} {node : OrderId}
  {value : OrderNode} {members : List (OrderId × OrderNodeSpec)}

/-- A queue grows by an order that comes after its last one and still fits. -/
theorem Queue.snoc {price : PriceTicks} {orders : List OrderNodeSpec} {order : OrderNodeSpec}
    (queue : Queue price orders) (priced : order.price = price)
    (unfilled : order.remainingQuantity ≠ 0) (issued : order.prioritySequence ≠ 0)
    (later : ∀ last ∈ orders.getLast?, last.prioritySequence < order.prioritySequence)
    (fits : total orders + order.remainingQuantity.toNat < 2 ^ 64) :
    Queue price (orders ++ [order]) where
  positive := queue.positive
  priced := List.forall_mem_append.mpr ⟨queue.priced, List.forall_mem_singleton.mpr priced⟩
  unfilled := List.forall_mem_append.mpr ⟨queue.unfilled, List.forall_mem_singleton.mpr unfilled⟩
  issued := List.forall_mem_append.mpr ⟨queue.issued, List.forall_mem_singleton.mpr issued⟩
  increasing := by
    rcases List.eq_nil_or_concat orders with rfl | ⟨init, last, rfl⟩
    · exact List.pairwise_singleton _ _
    · rw [List.concat_eq_append] at *
      have increasing := queue.increasing
      have final := later last (by rw [List.getLast?_concat]; rfl)
      rw [List.pairwise_append] at increasing ⊢
      refine ⟨queue.increasing, List.pairwise_singleton _ _, ?_⟩
      intro earlier inside order same
      rw [List.mem_singleton] at same
      subst same
      rcases List.mem_append.mp inside with before | own
      · have less := increasing.2.2 earlier before last (List.mem_singleton_self last)
        exact UInt64.lt_trans less final
      · rw [List.mem_singleton] at own
        exact own ▸ final
  fits := by
    rw [total_append, total_cons, total_nil, Nat.add_zero]
    exact fits

/-- The tail of a FIFO list is compared with a new order. -/
theorem Fifo.tailBlocks (fifo : Fifo self storage level members) (sequence : Sequence) :
    ∃ blocked, PriceLevel.tailBlocks storage level.ends.tail sequence = .ok blocked ∧
      (blocked = false ↔ ∀ last ∈ (members.map Prod.snd).getLast?,
        last.prioritySequence < sequence) := by
  rw [fifo.spans.tail]
  rcases List.eq_nil_or_concat members with rfl | ⟨init, last, rfl⟩
  · exact ⟨false, rfl, iff_of_true rfl nofun⟩
  · rw [List.concat_eq_append] at *
    have stored := fifo.stored rfl
    refine ⟨decide (sequence ≤ last.2.prioritySequence), ?_, ?_⟩
    · rw [List.getLast?_concat, Option.map_some, PriceLevel.tailBlocks,
        OrderStorage.deref_eq_ok.mpr stored]
      rfl
    · rw [decide_eq_false_iff_not, UInt64.not_le, List.map_append, List.map_singleton,
        List.getLast?_concat]
      exact ⟨fun less other same => Option.some.inj same ▸ less, fun all => all last.2 rfl⟩

/-- An unlinked node that extends the queue is appended. -/
theorem WellFormed.append (checks : Bool) (wellFormed : WellFormed self storage level members)
    (held : storage[node]? = some value) (unlinked : value.isLinked = false)
    (queue : Queue level.price (members.map Prod.snd ++ [value.payload])) :
    ∃ after, level.append checks self storage node = .ok (.ok after) ∧
      WellFormed self after.1 after.2 (members ++ [(node, value.payload)]) := by
  have member : value.payload ∈ members.map Prod.snd ++ [value.payload] :=
    List.mem_append_right _ (List.mem_singleton_self _)
  have fits := queue.fits
  rw [total_append, total_cons, total_nil, Nat.add_zero, ← wellFormed.sum] at fits
  have unfilled := queue.unfilled _ member
  have positive := Word.toNat_pos unfilled
  obtain ⟨blocked, compared, free⟩ :=
    wellFormed.tailBlocks value.payload.prioritySequence
  have later : blocked = false := by
    rw [free]
    intro last final
    have increasing := (List.pairwise_append.mp queue.increasing).2.2
    exact increasing last (List.mem_of_getLast? final) _ (List.mem_singleton_self _)
  have count : level.orderCount < 2 ^ 64 - 1 := by
    have bound := length_le_total wellFormed.queue.unfilled
    rw [List.length_map, ← wellFormed.count, ← wellFormed.sum] at bound
    omega
  have foreign : value.owner ≠ some self := by
    intro owned
    rw [Node.isLinked, owned, Option.isSome_some, Bool.or_true] at unlinked
    exact absurd unlinked nofun
  have fresh : node ∉ members.map Prod.fst := fun inside =>
    foreign (wellFormed.owner_of_member held inside)
  have addressed : storage.addressed[node]? =
      some ⟨(node, value.payload), value.previous, value.next, value.owner⟩ := by
    rw [OrderStorage.getElem?_addressed, held, Option.map_some]
  have spans := @Spans.pushBack _ _ _ _ _ _ _ _ _ _ _ _ wellFormed.spans (node, value.payload) _
    addressed rfl fresh
  have moved := OrderStorage.addressed_pushBack self node storage level.ends
  rw [← moved.1, ← moved.2] at spans
  have fifo : Fifo self (pushBack self node storage level.ends).1
      ⟨level.price, level.aggregateQuantity + value.payload.remainingQuantity,
        level.orderCount + 1, (pushBack self node storage level.ends).2⟩
      (members ++ [(node, value.payload)]) := by
    refine ⟨?_, ?_, ?_, ?_⟩
    · rw [List.map_append]
      exact queue
    · exact spans
    · rw [List.length_append, List.length_singleton, ← wellFormed.count]
    · rw [Word.toNat_add_of_fits fits, List.map_append, total_append, List.map_singleton,
        total_cons, total_nil, Nat.add_zero, wellFormed.sum]
  refine ⟨_, append_ok checks wellFormed.validateBoundaryState (OrderStorage.deref_eq_ok.mpr held)
    unfilled (queue.priced _ member) unlinked (queue.issued _ member) (later ▸ compared)
    (Word.checkedAdd_of_fits fits) (Word.atMax64_of_lt count) rfl rfl
    (fifo.enforcePostconditions checks), fifo, ?_⟩
  intro address other stored owned
  rw [List.map_append, List.mem_append, List.map_singleton, List.mem_singleton]
  by_cases own : address = node
  · exact Or.inr own
  · have kept := ownerAt_pushBack storage self level.ends own
    rw [ownerAt, stored, Option.bind_some, owned, eq_comm, ownerAt, Option.bind_eq_some_iff] at kept
    obtain ⟨before, found, same⟩ := kept
    exact Or.inl (wellFormed.exclusive address before found same)

/-- Every other node is refused. -/
theorem WellFormed.append_refuses (checks : Bool)
    (wellFormed : WellFormed self storage level members) (held : storage[node]? = some value)
    (unfit : ¬(value.isLinked = false ∧
      Queue level.price (members.map Prod.snd ++ [value.payload]))) :
    ∃ failure, level.append checks self storage node = .ok (.error failure) := by
  obtain ⟨blocked, compared, free⟩ :=
    wellFormed.tailBlocks value.payload.prioritySequence
  unfold PriceLevel.append
  rw [wellFormed.validateBoundaryState, OrderStorage.deref_eq_ok.mpr held]
  simp only [Run.ok_bind]
  by_cases spent : value.payload.remainingQuantity = 0
  · exact ⟨_, if_pos spent⟩
  rw [if_neg spent]
  by_cases mispriced : value.payload.price ≠ level.price
  · exact ⟨_, if_pos mispriced⟩
  rw [if_neg mispriced]
  by_cases linked : value.isLinked = true
  · exact ⟨_, if_pos linked⟩
  rw [if_neg linked]
  by_cases unissued : value.payload.prioritySequence = 0
  · exact ⟨_, if_pos unissued⟩
  rw [if_neg unissued, compared, Run.ok_bind]
  by_cases early : blocked = true
  · exact ⟨_, if_pos early⟩
  rw [if_neg early]
  by_cases fits : level.aggregateQuantity.toNat + value.payload.remainingQuantity.toNat < 2 ^ 64
  · refine absurd ⟨Bool.eq_false_iff.mpr linked, ?_⟩ unfit
    refine wellFormed.queue.snoc (not_not.mp mispriced) spent unissued
      (free.mp (Bool.eq_false_iff.mpr early)) ?_
    rw [← wellFormed.sum]
    exact fits
  · rw [Word.checkedAdd_of_overflow (Nat.le_of_not_lt fits)]
    exact ⟨_, rfl⟩

end Append

section Members

variable {self : LevelRef} {level : PriceLevel} {storage : OrderStorage} {node : OrderId}
  {value : OrderNode} {front back : List (OrderId × OrderNodeSpec)}

/-- A member is erased. -/
theorem WellFormed.erase (checks : Bool)
    (wellFormed : WellFormed self storage level (front ++ (node, value.payload) :: back))
    (held : storage[node]? = some value) :
    ∃ after, level.erase checks self storage node = .ok (.ok after) ∧
      WellFormed self after.1 after.2 (front ++ back) := by
  have queue := wellFormed.queue
  have sum := wellFormed.aggregate_eq
  have count := wellFormed.count
  rw [List.map_append, List.map_cons] at queue sum
  rw [List.length_append, List.length_cons, ← Nat.add_assoc, ← List.length_append] at count
  have removed := queue.checkedSubtract_order
  rw [← sum] at removed
  have rest := queue.remove
  have consistent : level.orderCount - 1 = 0 ↔
      aggregate (front.map Prod.snd ++ back.map Prod.snd) = 0 := by
    rw [count, Nat.add_sub_cancel, List.length_eq_zero_iff, ← List.map_append]
    refine ⟨fun empty => by rw [empty]; rfl, fun zero => ?_⟩
    by_contra nonempty
    rw [← List.map_append] at rest
    exact rest.aggregate_ne_zero (mt List.map_eq_nil_iff.mp nonempty) zero
  have spans := Spans.unlink wellFormed.spans
  have moved := OrderStorage.addressed_unlink node storage level.ends
  rw [← moved.1, ← moved.2] at spans
  have fifo : Fifo self (unlink node storage level.ends).1
      ⟨level.price, aggregate (front.map Prod.snd ++ back.map Prod.snd), level.orderCount - 1,
        (unlink node storage level.ends).2⟩ (front ++ back) := by
    refine ⟨?_, spans, ?_, ?_⟩
    · rw [List.map_append]
      exact rest
    · rw [count, Nat.add_sub_cancel]
    · rw [List.map_append, rest.aggregate_toNat]
  refine ⟨_, erase_ok checks wellFormed.validateMember (by rw [count]; exact Nat.succ_ne_zero _)
    (OrderStorage.deref_eq_ok.mpr held) removed consistent rfl rfl
    (fifo.enforcePostconditions checks), fifo, ?_⟩
  intro address other stored owned
  have owner : ownerAt (unlink node storage level.ends).1 address = some self := by
    rw [ownerAt, stored, Option.bind_some, owned]
  have apart : address ≠ node := by
    rintro rfl
    rw [ownerAt_unlink_self] at owner
    cases owner
  rw [ownerAt_unlink storage level.ends apart, ownerAt, Option.bind_eq_some_iff] at owner
  obtain ⟨before, found, same⟩ := owner
  have inside := wellFormed.exclusive address before found same
  rw [List.map_append, List.map_cons, List.mem_append, List.mem_cons] at inside
  rw [List.map_append, List.mem_append]
  exact inside.imp_right fun later => later.resolve_left apart

/-- A member keeps a part of its quantity. -/
theorem WellFormed.reduceRemaining (checks : Bool)
    (wellFormed : WellFormed self storage level (front ++ (node, value.payload) :: back))
    (held : storage[node]? = some value) {reduction : Quantity} (positive : reduction ≠ 0)
    (smaller : reduction < value.payload.remainingQuantity) :
    ∃ after, level.reduceRemaining checks self storage node reduction = .ok (.ok after) ∧
      WellFormed self after.1 after.2 (front ++ (node, value.payload.withRemaining
        (value.payload.remainingQuantity - reduction)) :: back) := by
  have less := UInt64.lt_iff_toNat_lt.mp smaller
  have left := Word.toNat_sub_of_toNat_le (Nat.le_of_lt less)
  have split := Word.checkedSubtract_of_le (Nat.le_of_lt less)
  generalize value.payload.remainingQuantity - reduction = remaining at left split ⊢
  have unfilled : remaining ≠ 0 := by
    rw [ne_eq, Word.eq_zero_iff, left]
    omega
  have queue : Queue level.price (front.map Prod.snd ++ value.payload :: back.map Prod.snd) := by
    have queue := wellFormed.queue
    rw [List.map_append, List.map_cons] at queue
    exact queue
  have sum : level.aggregateQuantity.toNat = total (front.map Prod.snd) +
      (value.payload.remainingQuantity.toNat + total (back.map Prod.snd)) := by
    rw [wellFormed.sum, List.map_append, List.map_cons, total_append, total_cons]
  have after := queue.reduce unfilled (by rw [left]; omega)
  have taken : reduction.toNat ≤ level.aggregateQuantity.toNat := by
    omega
  have spans : Spans Prod.fst (update node (fun old =>
      { old with payload := (node, value.payload.withRemaining remaining) }) storage.addressed)
      self level.ends (front ++ (node, value.payload.withRemaining remaining) :: back) :=
    Spans.replace wellFormed.spans rfl
  rw [← OrderStorage.addressed_withRemaining held] at spans
  have fifo : Fifo self (update node (fun old =>
        { old with payload := old.payload.withRemaining remaining }) storage)
      { level with aggregateQuantity := level.aggregateQuantity - reduction }
      (front ++ (node, value.payload.withRemaining remaining) :: back) := by
    refine ⟨?_, spans, ?_, ?_⟩
    · rw [List.map_append, List.map_cons]
      exact after
    · have count := wellFormed.count
      rw [List.length_append, List.length_cons] at count ⊢
      exact count
    · rw [List.map_append, List.map_cons, total_append, total_cons,
        OrderNodeSpec.withRemaining_remainingQuantity, Word.toNat_sub_of_toNat_le taken, left, sum]
      omega
  have nonzero : level.aggregateQuantity - reduction ≠ 0 := by
    rw [ne_eq, Word.eq_zero_iff, Word.toNat_sub_of_toNat_le taken]
    omega
  refine ⟨_, reduceRemaining_ok checks wellFormed.validateMember
    (OrderStorage.deref_eq_ok.mpr held) positive smaller split unfilled
    (Word.checkedSubtract_of_le taken) nonzero rfl (fifo.enforcePostconditions checks), fifo, ?_⟩
  intro address other stored owned
  have kept : ownerAt (update node (fun old =>
      { old with payload := old.payload.withRemaining remaining }) storage) address =
        ownerAt storage address :=
    ownerAt_update storage node address fun _ => rfl
  rw [ownerAt, stored, Option.bind_some, owned, eq_comm, ownerAt, Option.bind_eq_some_iff] at kept
  obtain ⟨before, found, same⟩ := kept
  have inside := wellFormed.exclusive address before found same
  rw [List.map_append, List.map_cons] at inside ⊢
  exact inside

/-- A node of the level that is to keep nothing, or everything, is left as it is. -/
theorem WellFormed.reduceRemaining_refuses (checks : Bool)
    (wellFormed : WellFormed self storage level (front ++ (node, value.payload) :: back))
    (held : storage[node]? = some value) {reduction : Quantity}
    (unfit : ¬(reduction ≠ 0 ∧ reduction < value.payload.remainingQuantity)) :
    level.reduceRemaining checks self storage node reduction = .ok (.error .invalidReduction) := by
  have outside : (decide (reduction = 0) ||
      decide (value.payload.remainingQuantity ≤ reduction)) = true := by
    rw [Bool.or_eq_true, decide_eq_true_eq, decide_eq_true_eq, ← UInt64.not_lt]
    by_contra neither
    exact unfit ⟨fun zero => neither (Or.inl zero),
      not_not.mp fun more => neither (Or.inr more)⟩
  unfold PriceLevel.reduceRemaining
  rw [wellFormed.validateMember, OrderStorage.deref_eq_ok.mpr held]
  simp only [Run.ok_bind]
  rw [if_pos outside]
  rfl

end Members

section Outcomes

variable {checks : Bool} {self : LevelRef} {level : PriceLevel} {storage : OrderStorage}
  {node : OrderId} {value : OrderNode} {members : List (OrderId × OrderNodeSpec)}

/-- A call returns; it succeeds exactly when it should, then with a well-formed level and one of
the lists it may leave, and a failure leaves every node and the level as they were. -/
def Settles (self : LevelRef) (call : Call (Option PriceLevelError))
    (before : OrderStorage × PriceLevel) (accepted : Prop)
    (outcome : List (OrderId × OrderNodeSpec) → Prop) : Prop :=
  ∃ failure after, call before = .ok (failure, after) ∧ (failure = none ↔ accepted) ∧
    (failure = none → ∃ members, outcome members ∧ WellFormed self after.1 after.2 members) ∧
    (failure ≠ none → after = before)

/-- A call whose operation gives back a well-formed level settles. -/
theorem settles_of_ok {call : Call (Option PriceLevelError)}
    {before after : OrderStorage × PriceLevel}
    {operation : Run (Except PriceLevelError (OrderStorage × PriceLevel))} {accepted : Prop}
    {outcome : List (OrderId × OrderNodeSpec) → Prop}
    (runs : call before = returned before operation) (success : operation = .ok (.ok after))
    (fit : accepted) (possible : outcome members)
    (wellFormed : WellFormed self after.1 after.2 members) :
    Settles self call before accepted outcome := by
  rw [success] at runs
  exact ⟨none, after, runs, iff_of_true rfl fit, fun _ => ⟨members, possible, wellFormed⟩,
    fun failed => absurd rfl failed⟩

/-- A call whose operation refuses settles. -/
theorem settles_of_error {call : Call (Option PriceLevelError)} {before : OrderStorage × PriceLevel}
    {operation : Run (Except PriceLevelError (OrderStorage × PriceLevel))} {accepted : Prop}
    {outcome : List (OrderId × OrderNodeSpec) → Prop} {failure : PriceLevelError}
    (runs : call before = returned before operation) (refused : operation = .ok (.error failure))
    (unfit : ¬accepted) : Settles self call before accepted outcome := by
  rw [refused] at runs
  exact ⟨some failure, before, runs, iff_of_false (Option.some_ne_none failure) unfit,
    fun none => absurd none (Option.some_ne_none failure), fun _ => rfl⟩

/-- An append adds the node's order behind the tail. -/
theorem WellFormed.appendCall (wellFormed : WellFormed self storage level members)
    (held : storage[node]? = some value) :
    Settles self (appendCall checks self node) (storage, level)
      (value.isLinked = false ∧ Queue level.price (members.map Prod.snd ++ [value.payload]))
      (fun after => after = members ++ [(node, value.payload)]) := by
  by_cases fit : value.isLinked = false ∧
      Queue level.price (members.map Prod.snd ++ [value.payload])
  · obtain ⟨after, success, kept⟩ := wellFormed.append checks held fit.1 fit.2
    exact settles_of_ok appendCall_eq success fit rfl kept
  · obtain ⟨failure, refused⟩ := wellFormed.append_refuses checks held fit
    exact settles_of_error appendCall_eq refused fit

/-- An erasure takes the node's order out of its place. -/
theorem WellFormed.eraseCall (wellFormed : WellFormed self storage level members)
    (held : storage[node]? = some value) :
    Settles self (eraseCall checks self node) (storage, level) (value.owner = some self)
      (fun after => ∃ front back, members = front ++ (node, value.payload) :: back ∧
        after = front ++ back) := by
  by_cases owned : value.owner = some self
  · obtain ⟨front, back, rfl⟩ := wellFormed.member_of_owner held owned
    obtain ⟨after, success, kept⟩ := wellFormed.erase checks held
    exact settles_of_ok eraseCall_eq success owned ⟨front, back, rfl, rfl⟩ kept
  · have refused : level.erase checks self storage node = .ok (.error .nodeNotInLevel) := by
      unfold PriceLevel.erase
      rw [wellFormed.validateMember_refuses held owned]
      rfl
    exact settles_of_error eraseCall_eq refused owned

/-- A reduction lowers the quantity of the node's order in its place. -/
theorem WellFormed.reduceRemainingCall (wellFormed : WellFormed self storage level members)
    (held : storage[node]? = some value) (reduction : Quantity) :
    Settles self (reduceRemainingCall checks self node reduction) (storage, level)
      (value.owner = some self ∧ reduction ≠ 0 ∧ reduction < value.payload.remainingQuantity)
      (fun after => ∃ front back, members = front ++ (node, value.payload) :: back ∧
        after = front ++ (node, value.payload.withRemaining
          (value.payload.remainingQuantity - reduction)) :: back) := by
  have runs := @reduceRemainingCall_eq checks self level storage node reduction
  by_cases owned : value.owner = some self
  · obtain ⟨front, back, rfl⟩ := wellFormed.member_of_owner held owned
    by_cases fit : reduction ≠ 0 ∧ reduction < value.payload.remainingQuantity
    · obtain ⟨after, success, kept⟩ := wellFormed.reduceRemaining checks held fit.1 fit.2
      exact settles_of_ok runs success ⟨owned, fit⟩ ⟨front, back, rfl, rfl⟩ kept
    · have refused := wellFormed.reduceRemaining_refuses checks held fit
      exact settles_of_error runs refused fun accepted => fit accepted.2
  · have refused : level.reduceRemaining checks self storage node reduction =
        .ok (.error .nodeNotInLevel) := by
      unfold PriceLevel.reduceRemaining
      rw [wellFormed.validateMember_refuses held owned]
      rfl
    exact settles_of_error runs refused fun accepted => owned accepted.1

/-- On a well-formed level every call settles with the list it is for, and on any finite graph of
nodes the audit ends and accepts exactly the proper FIFO lists. -/
theorem price_level_list :
    (∀ (checks : Bool) (self : LevelRef) (storage : OrderStorage) (level : PriceLevel)
      (members : List (OrderId × OrderNodeSpec)) (node : OrderId) (value : OrderNode),
      WellFormed self storage level members → storage[node]? = some value →
      Settles self (appendCall checks self node) (storage, level)
        (value.isLinked = false ∧ Queue level.price (members.map Prod.snd ++ [value.payload]))
        (fun after => after = members ++ [(node, value.payload)]) ∧
      Settles self (eraseCall checks self node) (storage, level) (value.owner = some self)
        (fun after => ∃ front back, members = front ++ (node, value.payload) :: back ∧
          after = front ++ back) ∧
      ∀ reduction : Quantity,
        Settles self (reduceRemainingCall checks self node reduction) (storage, level)
          (value.owner = some self ∧ reduction ≠ 0 ∧ reduction < value.payload.remainingQuantity)
          (fun after => ∃ front back, members = front ++ (node, value.payload) :: back ∧
            after = front ++ (node, value.payload.withRemaining
              (value.payload.remainingQuantity - reduction)) :: back)) ∧
    (∀ (self : LevelRef) (graph : LinkGraph),
      ∃ verdict, graph.level.validateInvariants self graph.storage = .ok verdict ∧
        (verdict = .none ↔ ∃ members, Fifo self graph.storage graph.level members)) :=
  ⟨fun _ _ _ _ _ _ _ wellFormed held => ⟨wellFormed.appendCall held, wellFormed.eraseCall held,
    wellFormed.reduceRemainingCall held⟩, validateInvariants_exact⟩

/-- A call on what it accepts succeeds. -/
theorem Settles.succeeds {call : Call (Option PriceLevelError)} {before : OrderStorage × PriceLevel}
    {accepted : Prop} {outcome : List (OrderId × OrderNodeSpec) → Prop}
    (settles : Settles self call before accepted outcome) (fit : accepted) :
    ∃ after members, call before = .ok (none, after) ∧ outcome members ∧
      WellFormed self after.1 after.2 members := by
  obtain ⟨failure, after, ran, decides, succeeded, _⟩ := settles
  obtain rfl := decides.mpr fit
  obtain ⟨members, possible, fifo⟩ := succeeded rfl
  exact ⟨after, members, ran, possible, fifo⟩

/-- An order of ten units at price five. -/
def tenAtFive : OrderNodeSpec := ⟨7, 1, 1, Side.buy, 5, 10, 1⟩

/-- A later order of six units. -/
def sixAtFive : OrderNodeSpec := ⟨8, 2, 1, Side.buy, 5, 6, 2⟩

/-- A still later order of two units. -/
def twoAtFive : OrderNodeSpec := ⟨9, 3, 1, Side.buy, 5, 2, 3⟩

/-- Two nodes, at addresses one and two, that point to each other, the second of them also on to
`last`, and an unlinked third one. -/
def pairNodes (last : Option OrderId) : OrderStorage :=
  (((∅ : OrderStorage).insert 1 ⟨tenAtFive, none, some 2, some .staging⟩).insert 2
    ⟨sixAtFive, some 1, last, some .staging⟩).insert 3 ⟨twoAtFive, none, none, none⟩

/-- The level that begins at the first and ends at the second node. -/
def pairLevel : PriceLevel := ⟨5, 16, 2, ⟨some 1, some 2⟩⟩

/-- A lookup after an insertion. -/
theorem OrderStorage.getElem?_insert (storage : OrderStorage) (node address : OrderId)
    (value : OrderNode) : (storage.insert node value : OrderStorage)[address]? =
      if address = node then some value else storage[address]? := by
  rw [Std.ExtTreeMap.getElem?_insert]
  by_cases own : address = node
  · rw [if_pos own, if_pos (Std.LawfulEqOrd.compare_eq_iff_eq.mpr own.symm)]
  · rw [if_neg own, if_neg fun same => own (Std.LawfulEqOrd.compare_eq_iff_eq.mp same).symm]

/-- Every lookup of the nodes. -/
theorem getElem?_pairNodes (last : Option OrderId) (address : OrderId) :
    (pairNodes last)[address]? =
      if address = 3 then some ⟨twoAtFive, none, none, none⟩
      else if address = 2 then some ⟨sixAtFive, some 1, last, some .staging⟩
      else if address = 1 then some ⟨tenAtFive, none, some 2, some .staging⟩ else none := by
  rw [pairNodes, OrderStorage.getElem?_insert, OrderStorage.getElem?_insert,
    OrderStorage.getElem?_insert, Std.ExtTreeMap.getElem?_empty]

/-- Where the second node is the last one, the two make a well-formed level. -/
theorem pairLevel_wellFormed :
    WellFormed .staging (pairNodes none) pairLevel [(1, tenAtFive), (2, sixAtFive)] where
  queue := ⟨by decide, by decide, by decide, by decide, by decide, by decide⟩
  spans := by
    refine ⟨?_, by decide, rfl, rfl⟩
    intro front item back split
    rw [OrderStorage.getElem?_addressed, getElem?_pairNodes]
    cases front with
    | nil =>
      obtain ⟨rfl, rfl⟩ := List.cons.inj split
      rfl
    | cons first front =>
      obtain ⟨rfl, rest⟩ := List.cons.inj split
      cases front with
      | nil =>
        obtain ⟨rfl, rfl⟩ := List.cons.inj rest
        rfl
      | cons second front =>
        obtain ⟨_, none⟩ := List.cons.inj rest
        cases front <;> cases none
  count := rfl
  sum := by decide
  exclusive := by
    intro address node held owned
    rw [getElem?_pairNodes] at held
    split_ifs at held with third second first
    · rw [← Option.some.inj held] at owned
      cases owned
    · exact List.mem_cons_of_mem _ (List.mem_singleton.mpr second)
    · rw [first]
      exact List.mem_cons_self

/-- The two nodes are there. -/
theorem mem_pairNodes {last : Option OrderId} {other : OrderId} (named : other = 1 ∨ other = 2) :
    other ∈ pairNodes last := by
  rw [Std.ExtTreeMap.mem_iff_isSome_getElem?, getElem?_pairNodes]
  rcases named with rfl | rfl <;> rfl

/-- Links between the two nodes make a graph. -/
def pairGraph (last : Option OrderId) (closed : ∀ other, last = some other → other = 1) :
    LinkGraph where
  storage := pairNodes last
  level := pairLevel
  previous := by
    intro address node other held linked
    rw [getElem?_pairNodes] at held
    split_ifs at held
    all_goals rw [← Option.some.inj held] at linked
    all_goals cases linked
    exact mem_pairNodes (.inl rfl)
  next := by
    intro address node other held linked
    rw [getElem?_pairNodes] at held
    split_ifs at held
    all_goals rw [← Option.some.inj held] at linked
    · cases linked
    · exact mem_pairNodes (.inl (closed other linked))
    · cases linked
      exact mem_pairNodes (.inr rfl)
  head := by
    intro other named
    cases named
    exact mem_pairNodes (.inl rfl)
  tail := by
    intro other named
    cases named
    exact mem_pairNodes (.inr rfl)

/-- Where the second node points back to the first, the level has no end. -/
theorem pairLevel_cyclic (members : List (OrderId × OrderNodeSpec)) :
    ¬Fifo .staging (pairNodes (some 1)) pairLevel members := by
  intro fifo
  have tail := fifo.spans.tail
  cases final : members.getLast? with
  | none =>
    rw [final] at tail
    cases tail
  | some item =>
    rw [final, Option.map_some] at tail
    have second : item.1 = 2 := (Option.some.inj tail).symm
    obtain ⟨front, split⟩ := List.getLast?_eq_some_iff.mp final
    have linked := fifo.spans.linked front item [] split
    rw [OrderStorage.getElem?_addressed, getElem?_pairNodes, second] at linked
    cases congrArg (Option.bind · Node.next) linked

/-- The calls on the two nodes: the third can be appended to them, the first erased and the second
reduced. The audit accepts them, and refuses the level where the second points back to the
first. -/
theorem price_level_list_pair :
    (∃ after, appendCall true .staging 3 (pairNodes none, pairLevel) = .ok (none, after) ∧
      WellFormed .staging after.1 after.2
        [(1, tenAtFive), (2, sixAtFive), (3, twoAtFive)]) ∧
    (∃ after, eraseCall true .staging 1 (pairNodes none, pairLevel) = .ok (none, after) ∧
      WellFormed .staging after.1 after.2 [(2, sixAtFive)]) ∧
    (∃ after, reduceRemainingCall true .staging 2 5 (pairNodes none, pairLevel) =
        .ok (none, after) ∧
      WellFormed .staging after.1 after.2 [(1, tenAtFive), (2, sixAtFive.withRemaining 1)]) ∧
    pairLevel.validateInvariants .staging (pairNodes none) = .ok .none ∧
    ∃ verdict, pairLevel.validateInvariants .staging (pairNodes (some 1)) = .ok verdict ∧
      verdict ≠ .none := by
  refine ⟨?_, ?_, ?_, ?_, ?_⟩
  · have settles := (price_level_list.1 true .staging _ _ _ 3 _ pairLevel_wellFormed
      (getElem?_pairNodes none 3)).1
    obtain ⟨after, _, ran, rfl, fifo⟩ := settles.succeeds
      ⟨rfl, by decide, by decide, by decide, by decide, by decide, by decide⟩
    exact ⟨after, ran, fifo⟩
  · have settles := (price_level_list.1 true .staging _ _ _ 1 _ pairLevel_wellFormed
      (getElem?_pairNodes none 1)).2.1
    obtain ⟨after, _, ran, ⟨front, back, split, rfl⟩, fifo⟩ := settles.succeeds rfl
    cases front with
    | nil =>
      obtain ⟨_, rfl⟩ := List.cons.inj split
      exact ⟨after, ran, fifo⟩
    | cons first front =>
      have inside : ((1, tenAtFive) : OrderId × OrderNodeSpec) ∈ [(2, sixAtFive)] := by
        rw [(List.cons.inj split).2]
        exact List.mem_append_right _ List.mem_cons_self
      exact absurd inside (by decide)
  · have settles := (price_level_list.1 true .staging _ _ _ 2 _ pairLevel_wellFormed
      (getElem?_pairNodes none 2)).2.2 5
    obtain ⟨after, _, ran, ⟨front, back, split, rfl⟩, fifo⟩ := settles.succeeds
      ⟨rfl, by decide, by decide⟩
    cases front with
    | nil => exact absurd (List.cons.inj split).1 (by decide)
    | cons first front =>
      obtain ⟨rfl, rest⟩ := List.cons.inj split
      cases front with
      | nil =>
        obtain ⟨_, rfl⟩ := List.cons.inj rest
        exact ⟨after, ran, fifo⟩
      | cons second front =>
        obtain ⟨_, none⟩ := List.cons.inj rest
        cases front <;> cases none
  · obtain ⟨verdict, ran, decides⟩ := price_level_list.2 .staging
      (pairGraph none fun _ none => by cases none)
    obtain rfl := decides.mpr ⟨_, pairLevel_wellFormed.toFifo⟩
    exact ran
  · obtain ⟨verdict, ran, decides⟩ := price_level_list.2 .staging
      (pairGraph (some 1) fun _ same => (Option.some.inj same).symm)
    refine ⟨verdict, ran, ?_⟩
    intro accepted
    obtain ⟨members, fifo⟩ := decides.mp accepted
    exact pairLevel_cyclic members fifo

end Outcomes

end PriceLevel

end AtlasLob
