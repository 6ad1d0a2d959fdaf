import AtlasLob.Verif.BookPreparation

/-!
# Batches act on the ladder

A batch whose reductions are executions against different resting orders, and whose residual may
join what they leave, passes its preflight and its commit: the book afterwards represents the
ladder with the executions settled and the residual joined.
-/

namespace AtlasLob

open Intrusive PriceLevel

/-- The reductions of executions. -/
def reductionsOf (fills : List Fill) : List PrevalidatedBookReduction :=
  fills.map fun fill => reductionOf fill.order fill.executed

/-- The executions behind the first one. -/
theorem Executable.tail {ladder : Ladder} {fill : Fill} {fills : List Fill}
    (executable : Executable ladder (fill :: fills)) : Executable ladder fills := by
  have distinct := executable.distinct
  rw [List.map_cons, ids, List.map_cons, List.nodup_cons] at distinct
  exact ⟨fun other inside => executable.members other (by simp [inside]),
    fun other inside => executable.sound other (by simp [inside]), distinct.2⟩

namespace Represents

variable {instrument : InstrumentId} {book : InstrumentBook} {ladder : Ladder}
  {pending : Option Pending} {order : OrderNodeSpec} (checks : Bool) (address : BookRef)

/-- A sound reduction of a visible order binds. -/
theorem validateBinding (represents : Represents instrument book ladder pending)
    (member : order ∈ ladder.orders) {executed : Quantity} (positive : executed ≠ 0)
    (bounded : executed.toNat ≤ order.remainingQuantity.toNat) :
    book.validateBinding (reductionOf order executed) = none := by
  obtain ⟨front, before, behind, back, located⟩ := represents.valid.locate member
  have known := represents.valid.sided member
  have stored := represents.mem_storage member
  have node := represents.node member located
  have address := represents.levelAddress order.side order.price
  rw [represents.find?_located member located, Option.map_some, slot_eq known] at address
  have validSide : order.side.isValid = true := by
    simpa [Side.isValid] using known
  have apart := represents.pendingNode_ne member
  have within : ¬ order.remainingQuantity < executed := by
    rw [UInt64.lt_iff_toNat_lt]
    omega
  unfold InstrumentBook.validateBinding
  simp only [reductionOf]
  rw [node]
  simp [apart, storage_find, stored, represents.index_find, represents.findNode_of_mem member,
    represents.valid.routed_order member, represents.routed, Node.isLinked, validSide, address,
    positive, within]

/-- A new execution does not repeat an earlier one. -/
theorem duplicates_reductions {earlier rest : List Fill} {fill : Fill}
    (distinct : (ids ((earlier ++ fill :: rest).map Fill.order)).Nodup) :
    InstrumentBook.duplicates (reductionsOf earlier) (reductionOf fill.order fill.executed) =
      false := by
  simp only [ids, List.map_append, List.map_cons, List.nodup_append, List.mem_map,
    List.mem_cons] at distinct
  rw [InstrumentBook.duplicates, List.any_eq_false]
  intro reduction inside
  obtain ⟨other, present, rfl⟩ := List.mem_map.mp inside
  have apart : other.order.orderId ≠ fill.order.orderId :=
    distinct.2.2 _ ⟨other.order, ⟨other, present, rfl⟩, rfl⟩ _ (Or.inl rfl)
  simp [reductionOf, apart]

/-- The reductions of executions on the other side pass the preflight. -/
theorem validateReductions (represents : Represents instrument book ladder pending)
    (residualSide : Option Side) (fills earlier : List Fill) (position : Nat)
    (members : ∀ fill ∈ fills, fill.order ∈ ladder.orders) (sound : ∀ fill ∈ fills, fill.Sound)
    (distinct : (ids ((earlier ++ fills).map Fill.order)).Nodup)
    (opposite : ∀ fill ∈ fills, residualSide ≠ some fill.order.side) :
    book.validateReductions residualSide (reductionsOf earlier) position (reductionsOf fills) =
      none := by
  induction fills generalizing earlier position with
  | nil => rfl
  | cons fill rest ih =>
    have first := sound fill (by simp)
    have bound := represents.validateBinding (members fill (by simp)) first.positive first.bounded
    have repeats := duplicates_reductions distinct
    have tail := ih (earlier ++ [fill]) (position + 1)
      (fun other inside => members other (by simp [inside]))
      (fun other inside => sound other (by simp [inside])) (by simpa using distinct)
      (fun other inside => opposite other (by simp [inside]))
    have elsewhere := opposite fill (by simp)
    rw [reductionsOf, List.map_append, List.map_singleton] at tail
    rw [reductionsOf, reductionsOf, List.map_cons, InstrumentBook.validateReductions, bound]
    rw [reductionsOf] at repeats
    simp only [repeats, Bool.false_eq_true, ↓reduceIte]
    rw [if_neg
      (show residualSide ≠ some (reductionOf fill.order fill.executed).side from elsewhere)]
    exact tail

/-- The passive reductions of a replacement pass the preflight. -/
theorem validatePassiveReductions (represents : Represents instrument book ladder pending)
    {old : OrderNodeSpec} (fills earlier : List Fill) (position : Nat)
    (members : ∀ fill ∈ fills, fill.order ∈ ladder.orders) (sound : ∀ fill ∈ fills, fill.Sound)
    (distinct : (ids ((earlier ++ fills).map Fill.order)).Nodup)
    (opposite : ∀ fill ∈ fills, fill.order.side ≠ old.side)
    (apart : ∀ fill ∈ fills, fill.order.orderId ≠ old.orderId) :
    book.validatePassiveReductions (reductionOf old old.remainingQuantity) (reductionsOf earlier)
      position (reductionsOf fills) = none := by
  induction fills generalizing earlier position with
  | nil => rfl
  | cons fill rest ih =>
    have first := sound fill (by simp)
    have bound := represents.validateBinding (members fill (by simp)) first.positive first.bounded
    have repeats := duplicates_reductions distinct
    have tail := ih (earlier ++ [fill]) (position + 1)
      (fun other inside => members other (by simp [inside]))
      (fun other inside => sound other (by simp [inside])) (by simpa using distinct)
      (fun other inside => opposite other (by simp [inside]))
      (fun other inside => apart other (by simp [inside]))
    have elsewhere := opposite fill (by simp)
    have another := apart fill (by simp)
    rw [reductionsOf, List.map_append, List.map_singleton] at tail
    rw [reductionsOf, reductionsOf, List.map_cons, InstrumentBook.validatePassiveReductions, bound]
    rw [reductionsOf] at repeats
    have passes : (decide ((reductionOf fill.order fill.executed).side =
        (reductionOf old old.remainingQuantity).side) ||
        decide ((reductionOf fill.order fill.executed).node =
          (reductionOf old old.remainingQuantity).node) ||
        decide ((reductionOf fill.order fill.executed).orderId =
          (reductionOf old old.remainingQuantity).orderId)) = false := by
      simp [reductionOf, elsewhere, another]
    simp only [passes, repeats, Bool.false_eq_true, ↓reduceIte]
    exact tail

/-- A level survives a batch when one of its orders does. -/
theorem survivesBatch_iff {queue : List OrderNodeSpec}
    {reductions : List PrevalidatedBookReduction} :
    InstrumentBook.survivesBatch queue reductions = true ↔
      ∃ order ∈ queue, InstrumentBook.survivesBatch [order] reductions = true := by
  simp only [InstrumentBook.survivesBatch, List.any_eq_true, List.any_cons, List.any_nil,
    Bool.or_false]

/-- An order outlives a batch exactly when its executions leave something of it. -/
theorem survivesBatch_eq {queue : List OrderNodeSpec} {fills : List Fill}
    (executable : Executable ladder fills) (inside : ∀ other ∈ queue, other ∈ ladder.orders)
    (valid : ladder.Valid instrument) :
    InstrumentBook.survivesBatch queue (reductionsOf fills) = true ↔
      queue.filterMap (settle fills) ≠ [] := by
  have single : ∀ other ∈ queue,
      InstrumentBook.survivesBatch [other] (reductionsOf fills) =
        (settle fills other).isSome := by
    intro other member
    rw [InstrumentBook.survivesBatch, List.any_cons, List.any_nil, Bool.or_false,
      settle_eq executable.distinct, reductionsOf, List.find?_map]
    rw [show ((fun reduction : PrevalidatedBookReduction =>
      decide (reduction.node = other.orderId)) ∘
      fun fill : Fill => reductionOf fill.order fill.executed) =
        fun fill : Fill => decide (fill.order.orderId = other.orderId) from rfl]
    cases found : fills.find? fun fill => decide (fill.order.orderId = other.orderId) with
    | none => rfl
    | some fill =>
      have present := List.mem_of_find?_eq_some found
      have same : fill.order.orderId = other.orderId := by simpa using List.find?_some found
      have equal := valid.eq_of_orderId (executable.members fill present) (inside other member) same
      have bounded := (executable.sound fill present).bounded
      rw [equal] at bounded
      have left := Word.toNat_sub_of_toNat_le bounded
      simp only [Option.map_some, reductionOf, equal, reduceBy, ↓reduceIte]
      by_cases full : other.remainingQuantity ≤ fill.executed
      · have zero : other.remainingQuantity - fill.executed = 0 := by
          rw [UInt64.le_iff_toNat_le] at full
          rw [Word.eq_zero_iff, left]
          omega
        simp [full, zero]
      · have nonzero : other.remainingQuantity - fill.executed ≠ 0 := by
          rw [UInt64.le_iff_toNat_le] at full
          rw [ne_eq, Word.eq_zero_iff, left]
          omega
        simp [full, nonzero]
  rw [survivesBatch_iff, ne_eq, List.filterMap_eq_nil_iff]
  simp only [not_forall]
  constructor
  · rintro ⟨other, member, survives⟩
    have kept : (settle fills other).isSome = true := (single other member).symm.trans survives
    exact ⟨other, member, Option.isSome_iff_ne_none.mp kept⟩
  · rintro ⟨other, member, survives⟩
    exact ⟨other, member, (single other member).trans (Option.isSome_iff_ne_none.mpr survives)⟩

/-- The best price after a batch is that of the revised ladder. -/
theorem projectedBestPrice (represents : Represents instrument book ladder pending) {side : Side}
    (known : side = .buy ∨ side = .sell) {fills : List Fill}
    (executable : Executable ladder fills) :
    book.projectedBestPrice side (reductionsOf fills) =
      ((ladder.side side).revise (settle fills)).head?.map Prod.fst := by
  rw [InstrumentBook.projectedBestPrice, represents.levels known]
  have inside : ∀ entry ∈ ladder.side side, ∀ other ∈ entry.2, other ∈ ladder.orders := by
    intro entry member other here
    exact (ladder.orders_perm side).mem_iff.mpr
      (List.mem_append_left _ (Levels.mem_orders.mpr ⟨_, _, member, here⟩))
  generalize ladder.side side = levels at inside
  induction levels with
  | nil => rfl
  | cons entry rest ih =>
    have survives := survivesBatch_eq executable (inside entry (by simp)) represents.valid
    have tail := ih fun other member => inside other (by simp [member])
    rw [List.map_cons, Levels.revise, List.filterMap_cons, Levels.reviseEntry]
    by_cases emptied : entry.2.filterMap (settle fills) = []
    · have gone : ¬ InstrumentBook.survivesBatch entry.2 (reductionsOf fills) = true := by
        rw [survives]
        exact not_not_intro emptied
      rw [if_pos emptied, List.find?_cons_of_neg (by simpa using gone)]
      exact tail
    · rw [if_neg emptied, List.find?_cons_of_pos (by simpa using survives.mpr emptied)]
      rfl

/-- A residual that clears what the batch leaves does not cross. -/
theorem residualCrosses (represents : Represents instrument book ladder pending) {side : Side}
    (known : side = .buy ∨ side = .sell) {price : PriceTicks} {fills : List Fill}
    (executable : Executable ladder fills)
    (clears : ∀ other ∈ SortedMap.keys ((ladder.side side.opposite).revise (settle fills)),
      bestPriceFirst side.opposite price other = true) :
    book.residualCrosses side price (reductionsOf fills) = false := by
  rw [InstrumentBook.residualCrosses,
    represents.projectedBestPrice (Side.opposite_known known) executable]
  cases levels : (ladder.side side.opposite).revise (settle fills) with
  | nil => rfl
  | cons best rest =>
    have first := clears best.1 (by simp [levels])
    rcases known with rfl | rfl
    · simp only [bestPriceFirst, Side.opposite, ↓reduceIte, show Side.sell ≠ Side.buy by decide,
        decide_eq_true_eq] at first
      simp only [List.head?_cons, Option.map_some, ↓reduceIte, decide_eq_false_iff_not]
      grind
    · simp only [bestPriceFirst, Side.opposite, ↓reduceIte, show Side.sell ≠ Side.buy by decide,
        decide_eq_true_eq] at first
      simp only [List.head?_cons, Option.map_some, ↓reduceIte, show Side.sell ≠ Side.buy by decide,
        decide_eq_false_iff_not]
      grind

/-- The guard of the pending residual matches its book. -/
theorem preparationMatches {residual : Pending}
    (represents : Represents instrument book ladder (some residual)) :
    book.preparationMatches address (guardOf address residual) residual.replacedId = .ok true := by
  have staged := represents.staged residual rfl
  have value := staged.held.deref [] residual.order [] rfl
  have node : book.pendingNode = some residual.order.orderId := represents.pendingNode
  have level : book.pendingLevel = some (describe residual.order.price [residual.order]) :=
    represents.pendingLevel
  have replaced : book.pendingReplacementOldId = residual.replacedId := represents.replacedId
  unfold InstrumentBook.preparationMatches
  simp [guardOf, PreparedRest.hasValue, stagingRef_pending address level node, node, level,
    replaced, value, staged.queue.validateInvariants staged.held]

/-- The guard of a residual offers a level of its side. -/
theorem detachedFor_guard (residual : Pending) :
    InstrumentBook.detachedFor (guardOf address residual) residual.order.side =
      some (describe residual.order.price []) := by
  simp [InstrumentBook.detachedFor, guardOf, DetachedLevel.hasValue, DetachedLevel.level]
  rfl

/-- The level a residual joins holds its queue. -/
theorem held_queueAt (represents : Represents instrument book ladder pending) {side : Side}
    (known : side = .buy ∨ side = .sell) (price : PriceTicks) :
    Held (.slot side price) book.storage ((ladder.side side).queueAt price) := by
  rw [Levels.queueAt]
  cases found : SortedMap.find? price (ladder.side side) with
  | none => exact Spans.nil
  | some queue => exact represents.held _ known _ _ (SortedMap.mem_of_find? found)

/-- The residual of a new order passes the preflight of its batch. -/
theorem validateResidual {residual : Pending}
    (represents : Represents instrument book ladder (some residual)) {fills : List Fill}
    (executable : Executable ladder fills)
    (joins : Queue residual.order.price
      ((ladder.side residual.order.side).queueAt residual.order.price ++ [residual.order]))
    (clears : ∀ other ∈ SortedMap.keys
      ((ladder.side residual.order.side.opposite).revise (settle fills)),
      bestPriceFirst residual.order.side.opposite residual.order.price other = true) :
    book.validateResidual checks (guardOf address residual) (reductionsOf fills) = .ok none := by
  have staged := represents.staged residual rfl
  have value := staged.held.deref [] residual.order [] rfl
  have validSide : residual.order.side.isValid = true := by
    simpa [Side.isValid] using staged.known
  have target : (book.findLevel residual.order.side residual.order.price).getD
      (describe residual.order.price []) = describe residual.order.price
        ((ladder.side residual.order.side).queueAt residual.order.price) := by
    rw [represents.findLevel, Levels.queueAt]
    cases SortedMap.find? residual.order.price (ladder.side residual.order.side) <;> rfl
  have appends := validateAppendTarget checks joins
    (represents.held_queueAt staged.known residual.order.price)
  rw [← slot_eq staged.known] at appends
  have uncrossed := represents.residualCrosses staged.known executable clears
  have node : (guardOf address residual).node = some residual.order.orderId := rfl
  unfold InstrumentBook.validateResidual
  simp only [node, value, Run.ok_bind, validSide, detachedFor_guard, uncrossed, target, appends,
    Bool.not_true, Bool.false_eq_true, ↓reduceIte, Run.pure_eq]

/-- The residual of a replacement passes the preflight of its batch. -/
theorem validateReplacementResidual {residual : Pending} {old : OrderNodeSpec}
    (represents : Represents instrument book ladder (some residual)) {fills : List Fill}
    (executable : Executable ladder fills) (member : old ∈ ladder.orders)
    (client : old.clientId = residual.order.clientId) (sided : old.side = residual.order.side)
    (joins : Queue residual.order.price (((withoutReplaced ladder (some old)).side
      residual.order.side).queueAt residual.order.price ++ [residual.order]))
    (clears : ∀ other ∈ SortedMap.keys
      ((ladder.side residual.order.side.opposite).revise (settle fills)),
      bestPriceFirst residual.order.side.opposite residual.order.price other = true) :
    book.validateReplacementResidual checks (guardOf address residual)
      (reductionOf old old.remainingQuantity) (reductionsOf fills) = .ok none := by
  have staged := represents.staged residual rfl
  have value := staged.held.deref [] residual.order [] rfl
  have validSide : residual.order.side.isValid = true := by
    simpa [Side.isValid] using staged.known
  obtain ⟨front, before, behind, back, located⟩ := represents.valid.locate member
  have oldNode := represents.node member located
  have oldValue : book.storage.deref old.orderId = .ok ⟨old,
      before.getLast?.map OrderNodeSpec.orderId, behind.head?.map OrderNodeSpec.orderId,
        some (.slot old.side old.price)⟩ := by
    rw [OrderStorage.deref, oldNode]
  have apart : residual.order.orderId ≠ old.orderId := represents.pending_apart rfl member
  have uncrossed := represents.residualCrosses staged.known executable clears
  have resting : ∀ other ∈ some old, other ∈ ladder.orders ∧ other.side = residual.order.side := by
    rintro _ ⟨⟩
    exact ⟨member, sided⟩
  have target := represents.validateTarget checks staged.known staged.fresh resting joins
    fun orderId _ => (rfl : book.storage[orderId]? = book.storage[orderId]?)
  have node : (guardOf address residual).node = some residual.order.orderId := rfl
  have alone : Queue residual.order.price ([] ++ [residual.order]) := staged.queue
  have opens := validateAppendTarget checks alone
    (show Held (InstrumentBook.slot residual.order.side residual.order.price) book.storage [] from
      Spans.nil)
  have agrees : (decide (residual.order.side ≠ old.side) ||
      decide (residual.order.clientId ≠ old.clientId) ||
      decide (residual.order.instrumentId ≠ old.instrumentId) ||
      decide (residual.order.orderId = old.orderId)) = false := by
    simp [sided, client, staged.routed, represents.valid.routed_order member, apart]
  have found := represents.findLevel residual.order.side residual.order.price
  rw [InstrumentBook.validateTarget] at target
  unfold InstrumentBook.validateReplacementResidual
  simp only [node, value, oldValue, reductionOf, Run.ok_bind, agrees, validSide, detachedFor_guard,
    uncrossed, Bool.not_true, Bool.false_eq_true, ↓reduceIte]
  cases level : SortedMap.find? residual.order.price (ladder.side residual.order.side) with
  | none =>
    rw [level, Option.map_none] at found
    simp only [found, opens, Run.ok_bind, Run.pure_eq]
  | some queue =>
    rw [level, Option.map_some] at found
    simp only [found, Option.map_some, oldValue, Run.ok_bind] at target ⊢
    by_cases last : (decide (some (LevelRef.slot old.side old.price) =
        some (InstrumentBook.slot residual.order.side residual.order.price)) &&
          decide ((describe residual.order.price queue).orderCount = 1)) = true
    · simp only [last, ↓reduceIte, opens, Run.ok_bind, Run.pure_eq]
    · simp only [last, Bool.false_eq_true, ↓reduceIte, target, Run.ok_bind, Run.pure_eq]

/-- A batch without a residual settles its executions. -/
theorem applyBatch (represents : Represents instrument book ladder none) {fills : List Fill}
    (executable : Executable ladder fills) :
    ∃ next, book.applyPrevalidatedBatch checks address (reductionsOf fills) none =
        .ok ⟨next, none, none⟩ ∧
      Represents instrument next (ladder.revise (settle fills)) none := by
  obtain ⟨next, applied, after⟩ := represents.applyReductions checks fills executable.members
    executable.sound executable.distinct
  refine ⟨next, ?_, after⟩
  have node : book.pendingNode = none := represents.pendingNode
  have level : book.pendingLevel = none := represents.pendingLevel
  have checked := represents.validateReductions none fills [] 0 executable.members executable.sound
    executable.distinct (by simp)
  rw [← reductionsOf] at applied
  unfold InstrumentBook.applyPrevalidatedBatch
  simp only [represents.checkedInvariants checks (by simp), node, level, Run.ok_bind,
    Bool.not_true, Bool.false_eq_true, ↓reduceIte, Option.isSome_none, Bool.or_self]
  rw [show ([] : List PrevalidatedBookReduction) = reductionsOf [] from rfl, checked]
  simp only [applied, Run.ok_bind, after.enforcePostconditions checks (by simp), Run.pure_eq]

/-- A batch with a residual settles its executions and joins the residual. -/
theorem applyBatch_rest (represents : Represents instrument book ladder (some ⟨order, 0⟩))
    {fills : List Fill} (executable : Executable ladder fills)
    (opposite : ∀ fill ∈ fills, fill.order.side ≠ order.side)
    (admits : (ladder.revise (settle fills)).Admits instrument order) :
    ∃ next, book.applyPrevalidatedBatch checks address (reductionsOf fills)
        (some (guardOf address ⟨order, 0⟩)) =
        .ok ⟨next, some .spent, none⟩ ∧
      Represents instrument next ((ladder.revise (settle fills)).join order) none := by
  obtain ⟨reduced, applied, middle⟩ := represents.applyReductions checks fills executable.members
    executable.sound executable.distinct
  obtain ⟨next, committed, after⟩ := middle.commitPrepared checks address admits
  refine ⟨next, ?_, after⟩
  have staged := represents.staged _ rfl
  simp only at staged
  have pins : ∀ residual ∈ some (⟨order, 0⟩ : Pending), residual.Pins ladder := by
    rintro _ ⟨⟩ replaces
    exact absurd rfl replaces
  have joins := admits.joins.queue
  rw [Ladder.side_revise,
    Executable.revise_opposite represents.valid executable staged.known opposite]
    at joins
  have clears := admits.clears
  rw [Ladder.side_revise] at clears
  have checked := represents.validateReductions (some order.side) fills [] 0 executable.members
    executable.sound executable.distinct (by
      intro fill inside same
      rw [Option.some.injEq] at same
      exact opposite fill inside same.symm)
  have residualChecked := represents.validateResidual checks address executable joins clears
  have node := staged.held.linked [] order [] rfl
  rw [← reductionsOf] at applied
  have matched : book.preparationMatches address (guardOf address ⟨order, 0⟩) 0 = .ok true :=
    represents.preparationMatches address
  have prepared : (guardOf address ⟨order, 0⟩).node = some order.orderId := rfl
  unfold InstrumentBook.applyPrevalidatedBatch
  simp only [represents.checkedInvariants checks pins, matched, prepared, Option.bind_some, node,
    Option.map_some, Run.ok_bind, Bool.not_true, Bool.false_eq_true, ↓reduceIte]
  rw [show ([] : List PrevalidatedBookReduction) = reductionsOf [] from rfl, checked]
  simp only [residualChecked, applied, committed, Run.ok_bind,
    after.enforcePostconditions checks (by simp), Run.pure_eq]

/-- The removed order passes the preflight of a replacement. -/
theorem validateOldReduction (represents : Represents instrument book ladder pending)
    {old : OrderNodeSpec} {fills : List Fill}
    (executable : Executable ladder (removalOf old :: fills)) :
    book.validateOldReduction (reductionOf old old.remainingQuantity) = none := by
  have removal := executable.sound (removalOf old) (by simp)
  have bound := represents.validateBinding (executable.members (removalOf old) (by simp))
    removal.positive removal.bounded
  rw [InstrumentBook.validateOldReduction, show book.validateBinding
    (reductionOf old old.remainingQuantity) = none from bound]
  simp [reductionOf]

/-- The passive reductions of a replacement pass its preflight. -/
theorem validatePassive (represents : Represents instrument book ladder pending)
    {old : OrderNodeSpec} {fills : List Fill}
    (executable : Executable ladder (removalOf old :: fills))
    (opposite : ∀ fill ∈ fills, fill.order.side ≠ old.side) :
    book.validatePassiveReductions (reductionOf old old.remainingQuantity) [] 1
      (reductionsOf fills) = none := by
  have distinct := executable.distinct
  rw [List.map_cons, ids, List.map_cons, List.nodup_cons] at distinct
  refine represents.validatePassiveReductions fills [] 1
    (fun fill inside => executable.members fill (by simp [inside]))
    (fun fill inside => executable.sound fill (by simp [inside])) distinct.2 opposite
    fun fill inside same => distinct.1 ?_
  exact List.mem_map.mpr ⟨fill.order, List.mem_map.mpr ⟨fill, inside, rfl⟩, same⟩

/-- A replacement without a residual removes the old order and settles its executions. -/
theorem applyReplaceBatch (represents : Represents instrument book ladder none)
    {old : OrderNodeSpec} {fills : List Fill}
    (executable : Executable ladder (removalOf old :: fills))
    (opposite : ∀ fill ∈ fills, fill.order.side ≠ old.side) :
    ∃ next, book.applyPrevalidatedReplaceBatch checks address
        (reductionOf old old.remainingQuantity)
        (reductionsOf fills) none = .ok ⟨next, none, none⟩ ∧
      Represents instrument next (ladder.revise (settle (removalOf old :: fills))) none := by
  obtain ⟨next, applied, after⟩ := represents.applyReductions checks (removalOf old :: fills)
    executable.members executable.sound executable.distinct
  refine ⟨next, ?_, after⟩
  have idle : book.hasPendingPreparation = false := by
    simp [InstrumentBook.hasPendingPreparation, represents.pendingNode, represents.pendingLevel,
      represents.replacedId]
  have reductions : book.applyReductions checks (reductionOf old old.remainingQuantity ::
      reductionsOf fills) = .ok next := applied
  unfold InstrumentBook.applyPrevalidatedReplaceBatch
  simp only [represents.checkedInvariants checks (by simp), idle,
    represents.validateOldReduction executable, represents.validatePassive executable opposite,
    reductions, after.enforcePostconditions checks (by simp), Run.ok_bind, Bool.not_true,
    Bool.false_eq_true, ↓reduceIte, Run.pure_eq]

/-- The own side of an exchange loses the replaced order and nothing else. -/
theorem exchange_own (valid : ladder.Valid instrument) {old : OrderNodeSpec} {fills : List Fill}
    (executable : Executable ladder (removalOf old :: fills))
    (opposite : ∀ fill ∈ fills, fill.order.side ≠ old.side) {side : Side}
    (known : side = .buy ∨ side = .sell) (sided : old.side = side) :
    (ladder.revise (settle (removalOf old :: fills))).side side =
      (withoutReplaced ladder (some old)).side side := by
  have member : old ∈ ladder.orders := executable.members (removalOf old) (by simp)
  have removed : ladder.revise (settle (removalOf old :: fills)) =
      (withoutReplaced ladder (some old)).revise (settle fills) := by
    rw [withoutReplaced, Ladder.revise_revise]
    rfl
  rw [removed, Ladder.side_revise]
  refine Levels.revise_of_fixed (((valid.revise
    (reduceBy_shrinks old.orderId old.remainingQuantity)).side known).nonempty)
    fun image inside => ?_
  rw [withoutReplaced, Ladder.side_revise, Levels.orders_revise] at inside
  obtain ⟨source, present, kept⟩ := List.mem_filterMap.mp inside
  rw [← sided] at present
  exact Executable.settle_opposite valid executable.tail (valid.sided member) opposite present
    ((reduceBy_shrinks _ _).orderId_eq kept)

/-- The other side of an exchange only sees the passive executions. -/
theorem exchange_opposite (valid : ladder.Valid instrument) {old : OrderNodeSpec}
    {fills : List Fill} (member : old ∈ ladder.orders) {side : Side}
    (known : side = .buy ∨ side = .sell) (sided : old.side = side) :
    (ladder.side side.opposite).revise (settle (removalOf old :: fills)) =
      (ladder.side side.opposite).revise (settle fills) := by
  refine Levels.revise_congr fun other inside => ?_
  have apart : other.orderId ≠ old.orderId := by
    intro same
    have present : other ∈ ladder.orders :=
      (ladder.orders_perm side).mem_iff.mpr (List.mem_append_right _ inside)
    have equal := valid.eq_of_orderId present member same
    have elsewhere := (valid.side (Side.opposite_known known)).sided other inside
    rw [equal, sided] at elsewhere
    exact Side.opposite_ne known elsewhere.symm
  rw [settle, show (removalOf old).order.orderId = old.orderId from rfl, reduceBy_of_ne apart]
  rfl

/-- A replacement with a residual also joins the residual. -/
theorem applyReplaceBatch_rest {old : OrderNodeSpec}
    (represents : Represents instrument book ladder (some ⟨order, old.orderId⟩))
    {fills : List Fill} (executable : Executable ladder (removalOf old :: fills))
    (opposite : ∀ fill ∈ fills, fill.order.side ≠ old.side)
    (client : old.clientId = order.clientId) (sided : old.side = order.side)
    (admits : (ladder.revise (settle (removalOf old :: fills))).Admits instrument order) :
    ∃ next, book.applyPrevalidatedReplaceBatch checks address
        (reductionOf old old.remainingQuantity)
        (reductionsOf fills) (some (guardOf address ⟨order, old.orderId⟩)) =
        .ok ⟨next, some .spent, none⟩ ∧
      Represents instrument next ((ladder.revise (settle (removalOf old :: fills))).join order)
        none := by
  obtain ⟨reduced, applied, middle⟩ := represents.applyReductions checks (removalOf old :: fills)
    executable.members executable.sound executable.distinct
  obtain ⟨next, committed, after⟩ := middle.commitPrepared checks address admits
  refine ⟨next, ?_, after⟩
  have staged := represents.staged _ rfl
  simp only at staged
  have member : old ∈ ladder.orders := executable.members (removalOf old) (by simp)
  have pins : ∀ residual ∈ some (⟨order, old.orderId⟩ : Pending), residual.Pins ladder := by
    rintro _ ⟨⟩ _
    exact ⟨old, member, rfl, client, sided⟩
  have passive := executable.tail
  have joins := admits.joins.queue
  rw [exchange_own represents.valid executable opposite staged.known sided] at joins
  have clears := admits.clears
  rw [Ladder.side_revise, exchange_opposite represents.valid member staged.known sided] at clears
  have reductions : book.applyReductions checks (reductionOf old old.remainingQuantity ::
      reductionsOf fills) = .ok reduced := applied
  have matched : book.preparationMatches address (guardOf address ⟨order, old.orderId⟩)
      (reductionOf old old.remainingQuantity).orderId = .ok true :=
    represents.preparationMatches address
  unfold InstrumentBook.applyPrevalidatedReplaceBatch
  simp only [represents.checkedInvariants checks pins, matched,
    represents.validateOldReduction executable, represents.validatePassive executable opposite,
    represents.validateReplacementResidual checks address passive member client sided joins clears,
    reductions, committed, after.enforcePostconditions checks (by simp), Run.ok_bind, Bool.not_true,
    Bool.false_eq_true, ↓reduceIte, Run.pure_eq]

end Represents

end AtlasLob
