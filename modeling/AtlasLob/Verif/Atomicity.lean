import AtlasLob.Verif.Reports

/-!
# Batches are atomic

Whatever reductions and guard a valid book is handed, a batch either refuses them before its first
write or carries all of them out. What the preflight admits are exactly executions against
different resting orders, and a residual that may join what they leave; the refusals of the
preflight are read backwards here to show it.
-/

namespace AtlasLob

open Intrusive PriceLevel

/-- A valid book: it holds a ladder and at most one pending residual. -/
structure BookHolds (book : InstrumentBook) (ladder : Ladder) (pending : Option Pending) :
    Prop where
  represents : Represents book.instrumentId book ladder pending
  pins : ∀ residual ∈ pending, residual.Pins ladder

/-- The guards the book at an address can be handed: one that holds nothing, any one of another
book, or the one of its own residual. -/
def GuardFor (address : BookRef) (pending : Option Pending) (prepared : PreparedRest) : Prop :=
  prepared.hasValue = false ∨ prepared.owner ≠ some address ∨
    ∃ residual ∈ pending, prepared = guardOf address residual

namespace Ladder

/-- Apply one reduction. -/
def reduce (ladder : Ladder) (reduction : PrevalidatedBookReduction) : Ladder :=
  ladder.revise (reduceBy reduction.orderId reduction.reduction)

/-- Remove the order of an ID. -/
def remove (ladder : Ladder) (orderId : OrderId) : Ladder :=
  ladder.revise fun order => if order.orderId = orderId then none else some order

/-- Append a residual to the queue at its price. -/
def append (ladder : Ladder) (pending : Option Pending) : Ladder :=
  match pending with
  | none => ladder
  | some residual => ladder.join residual.order

end Ladder

/-- A batch that refuses leaves the book and the guard it was handed as they were; one that
succeeds spends the guard and leaves the valid book of a ladder. -/
def AtomicBatch (book : InstrumentBook) (prepared : Option PreparedRest)
    (applied : Run InstrumentBook.BatchResult) (ladder : Ladder) : Prop :=
  (∃ failure, applied = .ok ⟨book, prepared, some failure⟩) ∨
    ∃ next, applied = .ok ⟨next, prepared.map fun _ => .spent, none⟩ ∧
      next.instrumentId = book.instrumentId ∧ BookHolds next ladder none ∧
      next.validateInvariants = .ok .none

namespace Represents

variable {instrument : InstrumentId} {book : InstrumentBook} {ladder : Ladder}
  {pending : Option Pending} {order : OrderNodeSpec} (checks : Bool) (address : BookRef)

/-- A reduction that binds takes something from a visible order. -/
theorem of_validateBinding (represents : Represents instrument book ladder pending)
    {reduction : PrevalidatedBookReduction} (bound : book.validateBinding reduction = none) :
    ∃ order ∈ ladder.orders, reduction = reductionOf order reduction.reduction ∧
      reduction.reduction ≠ 0 ∧ reduction.reduction.toNat ≤ order.remainingQuantity.toNat := by
  unfold InstrumentBook.validateBinding at bound
  cases found : book.storage[reduction.node]? with
  | none => simp [found] at bound
  | some node =>
    simp only [found] at bound
    split_ifs at bound with misplaced mismatched misfiled excessive
    simp only [Bool.or_eq_true, decide_eq_true_eq, not_or, ne_eq, not_not, Bool.not_eq_true,
      Bool.not_eq_eq_eq_not, Bool.not_true] at misplaced mismatched misfiled excessive
    obtain ⟨⟨⟨visible, stored⟩, -⟩, -⟩ := misplaced
    have present : reduction.node ∈ book.storage :=
      Std.ExtTreeMap.mem_iff_isSome_getElem?.mpr (by rw [found]; rfl)
    obtain ⟨order, member, named⟩ : ∃ order ∈ ladder.orders, order.orderId = reduction.node := by
      obtain ⟨order, inside, same⟩ := List.mem_map.mp ((represents.stored _).mp present)
      rcases List.mem_append.mp inside with resting | staged
      · exact ⟨order, resting, same⟩
      · obtain ⟨residual, held, rfl⟩ := Option.map_eq_some_iff.mp (Option.mem_toList.mp staged)
        rw [represents.pendingNode, held, Option.map_some, Option.some.injEq] at visible
        exact absurd same visible
    obtain ⟨front, before, behind, back, located⟩ := represents.valid.locate member
    have held := represents.node member located
    rw [named, found, Option.some.injEq] at held
    subst held
    rw [storage_find] at stored
    split_ifs at stored
    rw [Option.some.injEq] at stored
    simp only at mismatched
    obtain ⟨⟨⟨⟨⟨⟨⟨⟨id, client⟩, -⟩, side⟩, price⟩, remaining⟩, priority⟩, -⟩, -⟩ := mismatched
    obtain ⟨⟨positive, within⟩, after⟩ := excessive
    refine ⟨order, member, ?_, positive, ?_⟩
    · cases reduction
      simp only at named id client side price remaining priority after
      subst named id client side price remaining priority after
      rfl
    · rw [remaining]
      exact UInt64.le_iff_toNat_le.mp (UInt64.not_lt.mp within)

/-- A reduction of a visible order is an execution against it. -/
theorem fill_of_binding (represents : Represents instrument book ladder pending)
    {reduction : PrevalidatedBookReduction} (bound : book.validateBinding reduction = none) :
    ∃ fill : Fill, reduction = reductionOf fill.order fill.executed ∧
      fill.order ∈ ladder.orders ∧ fill.Sound := by
  obtain ⟨order, member, same, positive, bounded⟩ := represents.of_validateBinding bound
  exact ⟨⟨order, reduction.reduction, 0⟩, same, member, positive, bounded, Or.inr rfl⟩

/-- An execution that repeats no earlier one. -/
theorem distinct_of_duplicates {earlier : List Fill} {fill : Fill}
    (distinct : (ids (earlier.map Fill.order)).Nodup)
    (fresh : InstrumentBook.duplicates (reductionsOf earlier)
      (reductionOf fill.order fill.executed) = false) :
    (ids ((earlier ++ [fill]).map Fill.order)).Nodup := by
  rw [ids, List.map_append, List.map_append, List.nodup_append]
  refine ⟨distinct, List.nodup_singleton _, ?_⟩
  intro first inside second single same
  obtain ⟨order, resting, rfl⟩ := List.mem_map.mp inside
  obtain ⟨other, present, rfl⟩ := List.mem_map.mp resting
  rw [InstrumentBook.duplicates, List.any_eq_false] at fresh
  refine fresh (reductionOf other.order other.executed) (List.mem_map.mpr ⟨other, present, rfl⟩) ?_
  have named : other.order.orderId = fill.order.orderId := by
    simpa [same] using single
  simp [reductionOf, named]

/-- What the preflight knows about reductions it admits. -/
structure Admitted (ladder : Ladder) (earlier fills : List Fill) : Prop where
  members : ∀ fill ∈ fills, fill.order ∈ ladder.orders
  sound : ∀ fill ∈ fills, fill.Sound
  distinct : (ids ((earlier ++ fills).map Fill.order)).Nodup

/-- One more admitted execution. -/
theorem Admitted.cons {earlier fills : List Fill} {fill : Fill}
    (member : fill.order ∈ ladder.orders)
    (sound : fill.Sound) (rest : Admitted ladder (earlier ++ [fill]) fills) :
    Admitted ladder earlier (fill :: fills) where
  members other inside := by
    rcases List.mem_cons.mp inside with rfl | later
    · exact member
    · exact rest.members other later
  sound other inside := by
    rcases List.mem_cons.mp inside with rfl | later
    · exact sound
    · exact rest.sound other later
  distinct := by
    have all := rest.distinct
    rwa [List.append_assoc, List.singleton_append] at all

/-- Reductions that pass the preflight are executions on the side the residual leaves alone. -/
theorem of_validateReductions (represents : Represents instrument book ladder pending)
    (residualSide : Option Side) (reductions : List PrevalidatedBookReduction)
    (earlier : List Fill) (position : Nat) (distinct : (ids (earlier.map Fill.order)).Nodup)
    (checked : book.validateReductions residualSide (reductionsOf earlier) position reductions =
      none) :
    ∃ fills, reductions = reductionsOf fills ∧ Admitted ladder earlier fills ∧
      ∀ fill ∈ fills, residualSide ≠ some fill.order.side := by
  induction reductions generalizing earlier position with
  | nil => exact ⟨[], rfl, ⟨by simp, by simp, by simpa using distinct⟩, by simp⟩
  | cons reduction rest ih =>
    rw [InstrumentBook.validateReductions] at checked
    cases bound : book.validateBinding reduction with
    | some error => simp [bound] at checked
    | none =>
      obtain ⟨fill, rfl, member, sound⟩ := represents.fill_of_binding bound
      simp only [bound] at checked
      split_ifs at checked with repeated facing
      have longer := distinct_of_duplicates distinct (Bool.not_eq_true _ ▸ repeated)
      obtain ⟨fills, rfl, admitted, opposite⟩ := ih (earlier ++ [fill]) (position + 1) longer (by
        rwa [reductionsOf, List.map_append, List.map_singleton, ← reductionsOf])
      refine ⟨fill :: fills, rfl, admitted.cons member sound, fun other inside => ?_⟩
      rcases List.mem_cons.mp inside with rfl | later
      · exact facing
      · exact opposite other later

/-- Passive reductions that pass the preflight of an exchange are executions on the other side. -/
theorem of_validatePassiveReductions (represents : Represents instrument book ladder pending)
    (old : PrevalidatedBookReduction) (reductions : List PrevalidatedBookReduction)
    (earlier : List Fill) (position : Nat) (distinct : (ids (earlier.map Fill.order)).Nodup)
    (checked : book.validatePassiveReductions old (reductionsOf earlier) position reductions =
      none) :
    ∃ fills, reductions = reductionsOf fills ∧ Admitted ladder earlier fills ∧
      ∀ fill ∈ fills, fill.order.side ≠ old.side ∧ fill.order.orderId ≠ old.orderId := by
  induction reductions generalizing earlier position with
  | nil => exact ⟨[], rfl, ⟨by simp, by simp, by simpa using distinct⟩, by simp⟩
  | cons reduction rest ih =>
    rw [InstrumentBook.validatePassiveReductions] at checked
    cases bound : book.validateBinding reduction with
    | some error => simp [bound] at checked
    | none =>
      obtain ⟨fill, rfl, member, sound⟩ := represents.fill_of_binding bound
      simp only [bound] at checked
      split_ifs at checked with facing repeated
      have longer := distinct_of_duplicates distinct (Bool.not_eq_true _ ▸ repeated)
      obtain ⟨fills, rfl, admitted, opposite⟩ := ih (earlier ++ [fill]) (position + 1) longer (by
        rwa [reductionsOf, List.map_append, List.map_singleton, ← reductionsOf])
      refine ⟨fill :: fills, rfl, admitted.cons member sound, fun other inside => ?_⟩
      rcases List.mem_cons.mp inside with rfl | later
      · simp only [Bool.or_eq_true, decide_eq_true_eq, not_or] at facing
        exact ⟨facing.1.1, facing.2⟩
      · exact opposite other later

/-- An order behind the last of a queue extends it. -/
theorem queue_append {price : PriceTicks} {orders : List OrderNodeSpec} (queue : Queue price orders)
    (alone : Queue order.price [order]) (priced : order.price = price)
    (later : ∀ last ∈ orders.getLast?, last.prioritySequence < order.prioritySequence)
    (fits : total orders + order.remainingQuantity.toNat < 2 ^ 64) :
    Queue price (orders ++ [order]) where
  positive := queue.positive
  priced other inside := by
    rcases List.mem_append.mp inside with early | last
    · exact queue.priced other early
    · rw [List.mem_singleton.mp last, priced]
  unfilled other inside := by
    rcases List.mem_append.mp inside with early | last
    · exact queue.unfilled other early
    · exact alone.unfilled other last
  issued other inside := by
    rcases List.mem_append.mp inside with early | last
    · exact queue.issued other early
    · exact alone.issued other last
  increasing := by
    refine List.pairwise_append.mpr ⟨queue.increasing, List.pairwise_singleton _ _, ?_⟩
    intro first inside second single
    rw [List.mem_singleton.mp single]
    rcases List.eq_nil_or_concat orders with rfl | ⟨init, last, rfl⟩
    · cases inside
    · rw [List.concat_eq_append] at *
      have ends := later last (by rw [List.getLast?_concat]; rfl)
      rcases List.mem_append.mp inside with early | tail
      · have before := (List.pairwise_append.mp queue.increasing).2.2 first early last (by simp)
        rw [UInt64.lt_iff_toNat_lt] at before ends ⊢
        omega
      · rw [List.mem_singleton.mp tail]
        exact ends
  fits := by
    rw [total_append, total_cons, total_nil]
    omega

/-- Whether the last of some stored orders blocks a priority. -/
theorem tailBlocks_eq {self : LevelRef} {storage : OrderStorage} {orders whole : List OrderNodeSpec}
    (held : Held self storage whole) (inside : ∀ other ∈ orders, other ∈ whole)
    (sequence : Sequence) :
    ∃ blocked, tailBlocks storage (orders.getLast?.map OrderNodeSpec.orderId) sequence =
        .ok blocked ∧
      (blocked = false → ∀ last ∈ orders.getLast?, last.prioritySequence < sequence) := by
  cases ends : orders.getLast? with
  | none => exact ⟨false, rfl, by simp⟩
  | some last =>
    obtain ⟨previous, next, stored⟩ :=
      held.getElem?_of_mem (inside last (List.mem_of_getLast? ends))
    refine ⟨decide (sequence ≤ last.prioritySequence), ?_, ?_⟩
    · simp [tailBlocks, OrderStorage.deref, stored]
    · intro free other same
      rw [Option.mem_def, Option.some.injEq] at same
      subst same
      exact UInt64.not_le.mp (decide_eq_false_iff_not.mp free)

/-- A sum that is not refused fits. -/
theorem fits_of_checkedAdd {left right : UInt64}
    (added : (Word.checkedAdd left right).isNone = false) :
    left.toNat + right.toNat < 2 ^ 64 := by
  by_contra long
  rw [Word.checkedAdd_of_overflow (Nat.le_of_not_lt long)] at added
  cases added

/-- A refusal admits nothing. -/
theorem exists_refusal {error : InstrumentBookError} {claim : Prop} :
    ∃ verdict, (.ok (some error) : Run (Option InstrumentBookError)) = .ok verdict ∧
      (verdict = none → claim) :=
  ⟨some error, rfl, nofun⟩

/-- The check of a level a residual may join decides whether it extends the queue. -/
theorem of_validateAppendTarget {self : LevelRef} {storage : OrderStorage} {price : PriceTicks}
    {orders : List OrderNodeSpec} (queue : Queue price orders) (alone : Queue order.price [order])
    (held : Held self storage orders) :
    ∃ verdict, InstrumentBook.validateAppendTarget checks self (describe price orders) storage
        order = .ok verdict ∧ (verdict = none → Queue price (orders ++ [order])) := by
  obtain ⟨blocked, tail, free⟩ := tailBlocks_eq held (fun other inside => inside)
    order.prioritySequence
  have ends : tailBlocks storage (describe price orders).ends.tail order.prioritySequence =
      .ok blocked := tail
  unfold InstrumentBook.validateAppendTarget
  simp only [checkedLevel checks queue held, describe_price, ends, Run.ok_bind, Bool.not_true,
    Bool.false_eq_true, ↓reduceIte, Run.pure_eq]
  by_cases mispriced : price = order.price
  · rw [if_neg (not_not.mpr mispriced)]
    cases blocks : blocked with
    | true => exact exists_refusal
    | false =>
      rw [if_neg Bool.false_ne_true]
      by_cases overflow : (Word.checkedAdd (describe price orders).aggregateQuantity
          order.remainingQuantity).isNone = true
      · rw [if_pos overflow]
        exact exists_refusal
      · rw [if_neg overflow]
        have sum := fits_of_checkedAdd (Bool.not_eq_true _ ▸ overflow)
        rw [describe_aggregateQuantity, queue.aggregate_toNat] at sum
        have joined := queue_append queue alone mispriced.symm (free blocks) sum
        have room : Word.atMax64 (describe price orders).orderCount = false := joined.atMax64_length
        rw [room]
        exact ⟨none, rfl, fun _ => joined⟩
  · rw [if_pos mispriced]
    exact exists_refusal

/-- The check of the level of a replaced order, as far as it decides. -/
theorem of_validateReplaceAppendTarget {self : LevelRef} {level : PriceLevel}
    {storage : OrderStorage} (old : OrderNode) {projected : Quantity} {tail : Option OrderId}
    {blocked : Bool} (oldPriced : level.price = old.payload.price) (owned : old.owner = some self)
    (checked : InstrumentBook.checkedLevel checks self level storage = .ok true)
    (filled : level.orderCount ≠ 0)
    (removed : Word.checkedSubtract level.aggregateQuantity old.payload.remainingQuantity =
      some projected)
    (chosen : (if level.ends.tail = some old.payload.orderId then old.previous
      else level.ends.tail) = tail)
    (unblocked : tailBlocks storage tail order.prioritySequence = .ok blocked) :
    ∃ verdict, InstrumentBook.validateReplaceAppendTarget checks self level storage order old =
        .ok verdict ∧
      (verdict = none → level.price = order.price ∧ blocked = false ∧
        (Word.checkedAdd projected order.remainingQuantity).isNone = false) := by
  unfold InstrumentBook.validateReplaceAppendTarget
  simp only [oldPriced, owned, ne_eq, not_true_eq_false, decide_false, Bool.or_self,
    Bool.false_eq_true, ↓reduceIte, checked, Run.ok_bind, Bool.not_true, filled, removed, chosen,
    unblocked, Run.pure_eq]
  by_cases mispriced : old.payload.price = order.price
  · rw [if_neg (not_not.mpr mispriced)]
    cases blocks : blocked with
    | true => exact exists_refusal
    | false =>
      rw [if_neg Bool.false_ne_true]
      cases overflow : (Word.checkedAdd projected order.remainingQuantity).isNone with
      | true => exact exists_refusal
      | false =>
        rw [if_neg Bool.false_ne_true]
        cases Word.atMax64 (level.orderCount - 1) with
        | true => exact exists_refusal
        | false => exact ⟨none, rfl, fun _ => ⟨mispriced, rfl, rfl⟩⟩
  · rw [if_pos mispriced]
    exact exists_refusal

/-- So does the check of the level of a replaced order. -/
theorem of_validateReplaceAppendTarget_same {self : LevelRef} {storage : OrderStorage}
    {price : PriceTicks} {before behind : List OrderNodeSpec} {old : OrderNodeSpec}
    (current : Queue price (before ++ old :: behind)) (alone : Queue order.price [order])
    (held : Held self storage (before ++ old :: behind)) :
    ∃ verdict, InstrumentBook.validateReplaceAppendTarget checks self
        (describe price (before ++ old :: behind)) storage order
        ⟨old, before.getLast?.map OrderNodeSpec.orderId, behind.head?.map OrderNodeSpec.orderId,
          some self⟩ = .ok verdict ∧
      (verdict = none → Queue price ((before ++ behind) ++ [order])) := by
  have inside : ∀ other ∈ before ++ behind, other ∈ before ++ old :: behind := by
    simp +contextual [or_imp]
  obtain ⟨blocked, tail, free⟩ := tailBlocks_eq held inside order.prioritySequence
  have left : Queue price (before ++ behind) := current.sublist (by simp)
  obtain ⟨verdict, checked, admits⟩ := of_validateReplaceAppendTarget checks
    ⟨old, before.getLast?.map OrderNodeSpec.orderId, behind.head?.map OrderNodeSpec.orderId,
      some self⟩ (current.priced old (by simp)).symm rfl (checkedLevel checks current held)
        (by simp)
    current.checkedSubtract_order (tail_without held) tail
  refine ⟨verdict, checked, fun passes => ?_⟩
  obtain ⟨mispriced, unblocked, overflow⟩ := admits passes
  have sum := fits_of_checkedAdd overflow
  rw [left.aggregate_toNat] at sum
  exact queue_append left alone mispriced.symm (free unblocked) sum

/-- A price that does not cross what a batch leaves comes before all of it. -/
theorem clears_of_residualCrosses (represents : Represents instrument book ladder pending)
    {side : Side} (known : side = .buy ∨ side = .sell) {price : PriceTicks} {fills : List Fill}
    (executable : Executable ladder fills)
    (uncrossed : book.residualCrosses side price (reductionsOf fills) = false) :
    ∀ other ∈ SortedMap.keys ((ladder.side side.opposite).revise (settle fills)),
      bestPriceFirst side.opposite price other = true := by
  have across := Side.opposite_known known
  have sorted := ((represents.valid.revise (settle_shrinks fills)).side across).sorted
  rw [Ladder.side_revise] at sorted
  rw [InstrumentBook.residualCrosses, represents.projectedBestPrice across executable] at uncrossed
  cases levels : (ladder.side side.opposite).revise (settle fills) with
  | nil => simp
  | cons best rest =>
    rw [levels, SortedMap.Sorted, SortedMap.keys, List.map_cons, List.pairwise_cons] at sorted
    have first : bestPriceFirst side.opposite price best.1 = true := by
      rw [levels] at uncrossed
      simp only [List.head?_cons, Option.map_some] at uncrossed
      rcases known with rfl | rfl
      · simp only [↓reduceIte, decide_eq_false_iff_not] at uncrossed
        simp only [bestPriceFirst, Side.opposite, ↓reduceIte, show Side.sell ≠ Side.buy by decide,
          decide_eq_true_eq]
        grind
      · simp only [↓reduceIte, show Side.sell ≠ Side.buy by decide, decide_eq_false_iff_not]
          at uncrossed
        simp only [bestPriceFirst, Side.opposite, ↓reduceIte, show Side.sell ≠ Side.buy by decide,
          decide_eq_true_eq]
        grind
    intro other inside
    rw [SortedMap.keys, List.map_cons, List.mem_cons] at inside
    rcases inside with rfl | later
    · exact first
    · exact (bestPriceFirst_strictOrder side.opposite).trans first (sorted.1 other later)

/-- A refusal of a batch admits nothing. -/
theorem exists_batchRefusal {error : PrevalidatedBatchError} {claim : Prop} :
    ∃ verdict, (.ok (some error) : Run (Option PrevalidatedBatchError)) = .ok verdict ∧
      (verdict = none → claim) :=
  ⟨some error, rfl, nofun⟩

/-- The queue at a price is well formed, also when it is empty. -/
theorem queueAt_queue (valid : ladder.Valid instrument) {side : Side}
    (known : side = .buy ∨ side = .sell) {price : PriceTicks} (positive : 0 < price) :
    Queue price ((ladder.side side).queueAt price) := by
  by_cases present : price ∈ SortedMap.keys (ladder.side side)
  · exact (valid.queueAt known present).1
  · rw [Levels.queueAt_of_not_mem present]
    exact ⟨positive, by simp, by simp, by simp, List.Pairwise.nil, by simp⟩

/-- The preflight of a residual decides whether it may join what the batch leaves. -/
theorem of_validateResidual {residual : Pending}
    (represents : Represents instrument book ladder (some residual)) {fills : List Fill}
    (executable : Executable ladder fills) :
    ∃ verdict, book.validateResidual checks (guardOf address residual) (reductionsOf fills) =
        .ok verdict ∧
      (verdict = none → Queue residual.order.price
          ((ladder.side residual.order.side).queueAt residual.order.price ++ [residual.order]) ∧
        ∀ other ∈ SortedMap.keys
            ((ladder.side residual.order.side.opposite).revise (settle fills)),
          bestPriceFirst residual.order.side.opposite residual.order.price other = true) := by
  have staged := represents.staged residual rfl
  have value := staged.held.deref [] residual.order [] rfl
  have validSide : residual.order.side.isValid = true := by
    simpa [Side.isValid] using staged.known
  have target : (book.findLevel residual.order.side residual.order.price).getD
      (describe residual.order.price []) = describe residual.order.price
        ((ladder.side residual.order.side).queueAt residual.order.price) := by
    rw [represents.findLevel, Levels.queueAt]
    cases SortedMap.find? residual.order.price (ladder.side residual.order.side) <;> rfl
  obtain ⟨refusal, appends, joins⟩ := of_validateAppendTarget checks
    (queueAt_queue represents.valid staged.known staged.queue.positive) staged.queue
    (represents.held_queueAt staged.known residual.order.price)
  rw [← slot_eq staged.known] at appends
  have node : (guardOf address residual).node = some residual.order.orderId := rfl
  unfold InstrumentBook.validateResidual
  simp only [node, value, Run.ok_bind, validSide, detachedFor_guard, target, appends,
    Bool.not_true, Bool.false_eq_true, ↓reduceIte, Run.pure_eq]
  cases crossed : book.residualCrosses residual.order.side residual.order.price
      (reductionsOf fills) with
  | true => exact exists_batchRefusal
  | false =>
    rw [if_neg Bool.false_ne_true]
    cases refusal with
    | some error => exact exists_batchRefusal
    | none =>
      exact ⟨none, rfl, fun _ => ⟨joins rfl,
        represents.clears_of_residualCrosses staged.known executable crossed⟩⟩

/-- A residual behind the queue at its price that crosses nothing may join what the batch
leaves. -/
theorem admits_of_joins {residual : Pending}
    (represents : Represents instrument book ladder (some residual)) {fills : List Fill}
    (joins : Queue residual.order.price (((ladder.revise (settle fills)).side
      residual.order.side).queueAt residual.order.price ++ [residual.order]))
    (clears : ∀ other ∈ SortedMap.keys
        ((ladder.side residual.order.side.opposite).revise (settle fills)),
      bestPriceFirst residual.order.side.opposite residual.order.price other = true) :
    (ladder.revise (settle fills)).Admits instrument residual.order where
  joins := by
    have staged := represents.staged residual rfl
    exact ⟨joins, rfl, staged.routed, staged.named, staged.owned⟩
  known := (represents.staged residual rfl).known
  fresh inside := by
    rw [Ladder.orders_revise] at inside
    exact (represents.staged residual rfl).fresh
      (((settle_shrinks fills).ids_sublist _).subset inside)
  clears := by
    rw [Ladder.side_revise]
    exact clears

/-- Applying the reductions of executions one after another settles them. -/
theorem foldl_reduce (valid : ladder.Valid instrument) (fills : List Fill) :
    (reductionsOf fills).foldl Ladder.reduce ladder = ladder.revise (settle fills) := by
  induction fills generalizing ladder with
  | nil => exact (valid.revise_of_fixed fun order _ => rfl).symm
  | cons fill rest ih =>
    rw [reductionsOf, List.map_cons, List.foldl_cons, ← reductionsOf, Ladder.reduce,
      ih (valid.revise (reduceBy_shrinks _ _)), Ladder.revise_revise]
    rfl

/-- A guard that holds nothing does not match. -/
theorem preparationMatches_idle (book : InstrumentBook) {prepared : PreparedRest}
    (idle : prepared.hasValue = false) (oldId : OrderId) :
    book.preparationMatches address prepared oldId = .ok false := by
  unfold InstrumentBook.preparationMatches
  simp [idle]

/-- A guard of another book does not match, whatever it holds. -/
theorem preparationMatches_foreign (book : InstrumentBook) {prepared : PreparedRest}
    (foreign : prepared.owner ≠ some address) (oldId : OrderId) :
    book.preparationMatches address prepared oldId = .ok false := by
  unfold InstrumentBook.preparationMatches
  simp [foreign]

/-- A guard of another exchange does not match. -/
theorem preparationMatches_other (book : InstrumentBook) {residual : Pending} {oldId : OrderId}
    (other : residual.replacedId ≠ oldId) :
    book.preparationMatches address (guardOf address residual) oldId = .ok false := by
  unfold InstrumentBook.preparationMatches
  simp [guardOf, other]

/-- The check of the level an exchange's residual joins decides whether it extends what the
replaced order leaves there. -/
theorem of_replacementTarget (represents : Represents instrument book ladder pending)
    (alone : Queue order.price [order]) {old : OrderNodeSpec} (member : old ∈ ladder.orders)
    (sided : old.side = order.side) {front back : Levels} {before behind : List OrderNodeSpec}
    (located : ladder.side old.side = front ++ (old.price, before ++ old :: behind) :: back) :
    ∃ refusal, (match book.findLevel order.side order.price with
      | none => InstrumentBook.validateAppendTarget checks
          (InstrumentBook.slot order.side order.price) (describe order.price []) book.storage order
      | some visible =>
        if (decide (some (LevelRef.slot old.side old.price) =
            some (InstrumentBook.slot order.side order.price)) &&
              decide (visible.orderCount = 1)) = true then
          InstrumentBook.validateAppendTarget checks (InstrumentBook.slot order.side order.price)
            (describe order.price []) book.storage order
        else InstrumentBook.validateReplaceAppendTarget checks
          (InstrumentBook.slot order.side order.price) visible book.storage order
          ⟨old, before.getLast?.map OrderNodeSpec.orderId, behind.head?.map OrderNodeSpec.orderId,
            some (.slot old.side old.price)⟩) = .ok refusal ∧
      (refusal = none → Queue order.price (((withoutReplaced ladder (some old)).side
        order.side).queueAt order.price ++ [order])) := by
  have known : order.side = .buy ∨ order.side = .sell := sided ▸ represents.valid.sided member
  have opens := of_validateAppendTarget checks
    (show Queue order.price [] from alone.sublist (List.nil_sublist _)) alone
    (show Held (InstrumentBook.slot order.side order.price) book.storage [] from Spans.nil)
  by_cases here : order.price = old.price
  · have self : LevelRef.slot old.side old.price =
        InstrumentBook.slot order.side order.price := by
      rw [slot_eq known, sided, here]
    have level : (order.price, before ++ old :: behind) ∈ ladder.side order.side := by
      rw [← sided, here, located]
      simp
    have queued := Levels.queueAt_of_mem (represents.valid.keys_nodup known) level
    have present : order.price ∈ SortedMap.keys (ladder.side order.side) :=
      List.mem_map.mpr ⟨_, level, rfl⟩
    have visible := represents.findLevel_of_mem order.side present
    have left : ((withoutReplaced ladder (some old)).side order.side).queueAt order.price =
        before ++ behind := by
      rw [← sided, here]
      exact represents.queueAt_without_same member located
    have current := (represents.valid.side known).queue _ _ level
    have held := represents.held _ known _ _ level
    rw [← slot_eq known] at held
    rw [queued] at visible
    rw [visible, left, self]
    simp only [decide_true, Bool.true_and]
    by_cases single :
        decide ((describe order.price (before ++ old :: behind)).orderCount = 1) = true
    · rw [if_pos single]
      have empty : before ++ behind = [] := by
        rw [decide_eq_true_eq, describe_orderCount, List.length_append, List.length_cons] at single
        rw [← List.length_eq_zero_iff, List.length_append]
        omega
      rw [empty]
      exact opens
    · rw [if_neg single]
      exact of_validateReplaceAppendTarget_same checks current alone held
  · have left : ((withoutReplaced ladder (some old)).side order.side).queueAt order.price =
        (ladder.side order.side).queueAt order.price := by
      rw [← sided]
      exact represents.queueAt_without_other member here
    have elsewhere : ¬ (some (LevelRef.slot old.side old.price) =
        some (InstrumentBook.slot order.side order.price)) := by
      rw [slot_eq known, Option.some.injEq, LevelRef.slot.injEq, not_and]
      exact fun _ same => here same.symm
    rw [left]
    by_cases present : order.price ∈ SortedMap.keys (ladder.side order.side)
    · have held := represents.held_queueAt known order.price
      rw [← slot_eq known] at held
      rw [represents.findLevel_of_mem order.side present]
      simp only [elsewhere, decide_false, Bool.false_and, Bool.false_eq_true, ↓reduceIte]
      unfold InstrumentBook.validateReplaceAppendTarget
      simp only [describe_price, ne_eq, here, not_false_eq_true, decide_true, Bool.true_or,
        ↓reduceIte]
      exact of_validateAppendTarget checks (represents.valid.queueAt known present).1 alone held
    · rw [represents.findLevel_of_not_mem order.side present, Levels.queueAt_of_not_mem present]
      exact opens

/-- The preflight of an exchange's residual decides whether it may join what the batch leaves. -/
theorem of_validateReplacementResidual {residual : Pending} {old : OrderNodeSpec}
    (represents : Represents instrument book ladder (some residual)) {fills : List Fill}
    (executable : Executable ladder fills) (member : old ∈ ladder.orders) :
    ∃ verdict, book.validateReplacementResidual checks (guardOf address residual)
        (reductionOf old old.remainingQuantity) (reductionsOf fills) = .ok verdict ∧
      (verdict = none → (old.side = residual.order.side ∧ old.clientId = residual.order.clientId) ∧
        Queue residual.order.price (((withoutReplaced ladder (some old)).side
          residual.order.side).queueAt residual.order.price ++ [residual.order]) ∧
        ∀ other ∈ SortedMap.keys
            ((ladder.side residual.order.side.opposite).revise (settle fills)),
          bestPriceFirst residual.order.side.opposite residual.order.price other = true) := by
  have staged := represents.staged residual rfl
  have value := staged.held.deref [] residual.order [] rfl
  have validSide : residual.order.side.isValid = true := by
    simpa [Side.isValid] using staged.known
  obtain ⟨front, before, behind, back, located⟩ := represents.valid.locate member
  have oldNode := represents.node member located
  have oldValue : book.storage.deref old.orderId = .ok ⟨old,
      before.getLast?.map OrderNodeSpec.orderId, behind.head?.map OrderNodeSpec.orderId,
        some (.slot old.side old.price)⟩ := by
    rw [OrderStorage.deref, oldNode]
  have node : (guardOf address residual).node = some residual.order.orderId := rfl
  have oldHandle : (reductionOf old old.remainingQuantity).node = old.orderId := rfl
  unfold InstrumentBook.validateReplacementResidual
  simp only [node, value, oldHandle, oldValue, Run.ok_bind, validSide, detachedFor_guard,
    Bool.not_true, Bool.false_eq_true, ↓reduceIte]
  by_cases differs : (decide (residual.order.side ≠ old.side) ||
      decide (residual.order.clientId ≠ old.clientId) ||
      decide (residual.order.instrumentId ≠ old.instrumentId) ||
      decide (residual.order.orderId = old.orderId)) = true
  · rw [if_pos differs]
    exact exists_batchRefusal
  rw [if_neg differs]
  simp only [Bool.or_eq_true, decide_eq_true_eq, not_or, ne_eq, not_not] at differs
  obtain ⟨⟨⟨sided, client⟩, -⟩, -⟩ := differs
  cases crossed : book.residualCrosses residual.order.side residual.order.price
      (reductionsOf fills) with
  | true => exact exists_batchRefusal
  | false =>
    rw [if_neg Bool.false_ne_true]
    obtain ⟨refusal, target, joins⟩ := represents.of_replacementTarget checks staged.queue member
      sided.symm located
    have clears := represents.clears_of_residualCrosses staged.known executable crossed
    -- The three branches of the target check end in the same way.
    cases level : book.findLevel residual.order.side residual.order.price with
    | none =>
      simp only [level] at target ⊢
      rw [target, Run.ok_bind]
      cases refusal with
      | some error => exact exists_batchRefusal
      | none => exact ⟨none, rfl, fun _ => ⟨⟨sided.symm, client.symm⟩, joins rfl, clears⟩⟩
    | some visible =>
      simp only [level] at target ⊢
      by_cases last : (decide (some (LevelRef.slot old.side old.price) =
          some (InstrumentBook.slot residual.order.side residual.order.price)) &&
            decide (visible.orderCount = 1)) = true
      · rw [if_pos last] at target ⊢
        rw [target, Run.ok_bind]
        cases refusal with
        | some error => exact exists_batchRefusal
        | none => exact ⟨none, rfl, fun _ => ⟨⟨sided.symm, client.symm⟩, joins rfl, clears⟩⟩
      · rw [if_neg last] at target ⊢
        rw [target, Run.ok_bind]
        cases refusal with
        | some error => exact exists_batchRefusal
        | none => exact ⟨none, rfl, fun _ => ⟨⟨sided.symm, client.symm⟩, joins rfl, clears⟩⟩

/-- Admitted reductions are executable. -/
theorem Admitted.executable {fills : List Fill} (admitted : Admitted ladder [] fills) :
    Executable ladder fills :=
  ⟨admitted.members, admitted.sound, admitted.distinct⟩

end Represents

namespace BookHolds

variable {book : InstrumentBook} {ladder : Ladder} {pending : Option Pending} (checks : Bool)
  (address : BookRef)

/-- A batch that was applied. -/
theorem atomic_of_applied
    {applied : Run InstrumentBook.BatchResult} {prepared : Option PreparedRest}
    {next : InstrumentBook} {after : Ladder}
    (succeeds : applied = .ok ⟨next, prepared.map fun _ => .spent, none⟩)
    (represents : Represents book.instrumentId next after none) :
    AtomicBatch book prepared applied after := by
  have routed : next.instrumentId = book.instrumentId := represents.routed
  refine Or.inr ⟨next, succeeds, routed, ⟨?_, by simp⟩,
    represents.validateInvariants (by simp)⟩
  rw [routed]
  exact represents

/-- A batch without a residual is atomic. -/
theorem batch_atomic_plain (holds : BookHolds book ladder pending)
    (reductions : List PrevalidatedBookReduction) :
    AtomicBatch book none (book.applyPrevalidatedBatch checks address reductions none)
      ((reductions.foldl Ladder.reduce ladder).append pending) := by
  have represents := holds.represents
  have node := represents.pendingNode
  cases pending with
  | some residual =>
    refine Or.inl ⟨⟨.preparationMismatch, 0⟩, ?_⟩
    unfold InstrumentBook.applyPrevalidatedBatch
    simp only [represents.checkedInvariants checks holds.pins, node, Run.ok_bind, Bool.not_true,
      Bool.false_eq_true, ↓reduceIte, Option.map_some, Option.isSome_some, Bool.true_or,
        Run.pure_eq]
  | none =>
    have level := represents.pendingLevel
    cases checked : book.validateReductions none [] 0 reductions with
    | some failure =>
      refine Or.inl ⟨failure, ?_⟩
      unfold InstrumentBook.applyPrevalidatedBatch
      simp only [represents.checkedInvariants checks holds.pins, node, level, checked, Run.ok_bind,
        Bool.not_true, Bool.false_eq_true, ↓reduceIte, Option.map_none, Option.isSome_none,
        Bool.or_self, Run.pure_eq]
    | none =>
      obtain ⟨fills, rfl, admitted, -⟩ := represents.of_validateReductions none reductions [] 0
        (by simp [ids]) checked
      obtain ⟨next, applied, after⟩ := represents.applyBatch checks address admitted.executable
      rw [Represents.foldl_reduce represents.valid]
      exact atomic_of_applied applied after

/-- A guard that does not match refuses a batch. -/
theorem batch_mismatch (holds : BookHolds book ladder pending)
    (reductions : List PrevalidatedBookReduction) {prepared : PreparedRest}
    (mismatch : book.preparationMatches address prepared 0 = .ok false) :
    book.applyPrevalidatedBatch checks address reductions (some prepared) =
      .ok ⟨book, some prepared, some ⟨.preparationMismatch, 0⟩⟩ := by
  unfold InstrumentBook.applyPrevalidatedBatch
  simp only [holds.represents.checkedInvariants checks holds.pins, mismatch, Run.ok_bind,
    Bool.not_true, Bool.not_false, Bool.false_eq_true, ↓reduceIte, Run.pure_eq]

/-- A batch with the residual of its book is atomic. -/
theorem batch_atomic_rest {order : OrderNodeSpec} (holds : BookHolds book ladder (some ⟨order, 0⟩))
    (reductions : List PrevalidatedBookReduction) :
    AtomicBatch book (some (guardOf address ⟨order, 0⟩))
      (book.applyPrevalidatedBatch checks address reductions (some (guardOf address ⟨order, 0⟩)))
      ((reductions.foldl Ladder.reduce ladder).join order) := by
  have represents := holds.represents
  have staged := represents.staged _ rfl
  have stored := staged.held.linked [] order [] rfl
  have matched : book.preparationMatches address (guardOf address ⟨order, 0⟩) 0 = .ok true :=
    represents.preparationMatches address
  have node : (guardOf address ⟨order, 0⟩).node = some order.orderId := rfl
  cases checked : book.validateReductions (some order.side) [] 0 reductions with
  | some failure =>
    refine Or.inl ⟨failure, ?_⟩
    unfold InstrumentBook.applyPrevalidatedBatch
    simp only [represents.checkedInvariants checks holds.pins, matched, node, Option.bind_some,
      stored, Option.map_some, checked, Run.ok_bind, Bool.not_true, Bool.false_eq_true, ↓reduceIte,
      Run.pure_eq]
  | none =>
    obtain ⟨fills, rfl, admitted, opposite⟩ := represents.of_validateReductions (some order.side)
      reductions [] 0 (by simp [ids]) checked
    have executable := admitted.executable
    obtain ⟨verdict, residual, admits⟩ := represents.of_validateResidual checks address executable
    cases verdict with
    | some error =>
      refine Or.inl ⟨⟨error, 0⟩, ?_⟩
      unfold InstrumentBook.applyPrevalidatedBatch
      simp only [represents.checkedInvariants checks holds.pins, matched, node, Option.bind_some,
        stored, Option.map_some, checked, residual, Run.ok_bind, Bool.not_true, Bool.false_eq_true,
        ↓reduceIte, Run.pure_eq]
    | none =>
      obtain ⟨joins, clears⟩ := admits rfl
      have apart : ∀ fill ∈ fills, fill.order.side ≠ order.side := by
        intro fill inside same
        exact opposite fill inside (by rw [same])
      have own : (ladder.revise (settle fills)).side order.side = ladder.side order.side := by
        rw [Ladder.side_revise]
        exact Executable.revise_opposite represents.valid executable staged.known apart
      rw [← own] at joins
      obtain ⟨next, applied, after⟩ := represents.applyBatch_rest checks address executable apart
        (represents.admits_of_joins joins clears)
      rw [Represents.foldl_reduce represents.valid]
      exact atomic_of_applied applied after

/-- Every batch on a valid book is atomic. -/
theorem batch_atomic (holds : BookHolds book ladder pending)
    (reductions : List PrevalidatedBookReduction) {prepared : Option PreparedRest}
    (guarded : ∀ guard ∈ prepared, GuardFor address pending guard) :
    AtomicBatch book prepared (book.applyPrevalidatedBatch checks address reductions prepared)
      ((reductions.foldl Ladder.reduce ladder).append pending) := by
  cases prepared with
  | none => exact holds.batch_atomic_plain checks address reductions
  | some guard =>
    rcases guarded guard rfl with idle | foreign | ⟨residual, present, rfl⟩
    · exact Or.inl ⟨_, holds.batch_mismatch checks address reductions
        (Represents.preparationMatches_idle address book idle 0)⟩
    · exact Or.inl ⟨_, holds.batch_mismatch checks address reductions
        (Represents.preparationMatches_foreign address book foreign 0)⟩
    · rw [Option.mem_def] at present
      subst present
      by_cases replaces : residual.replacedId = 0
      · obtain ⟨order, replacedId⟩ := residual
        simp only at replaces
        subst replaces
        exact holds.batch_atomic_rest checks address reductions
      · exact Or.inl ⟨_, holds.batch_mismatch checks address reductions
          (Represents.preparationMatches_other address book replaces)⟩

end BookHolds

namespace Represents

variable {instrument : InstrumentId} {book : InstrumentBook} {ladder : Ladder}
  {pending : Option Pending}

/-- The removal of an exchange that passes the preflight takes all of a visible order. -/
theorem of_validateOldReduction (represents : Represents instrument book ladder pending)
    {reduction : PrevalidatedBookReduction} (checked : book.validateOldReduction reduction = none) :
    ∃ old ∈ ladder.orders, reduction = reductionOf old old.remainingQuantity ∧
      (removalOf old).Sound := by
  unfold InstrumentBook.validateOldReduction at checked
  cases bound : book.validateBinding reduction with
  | some error => simp [bound] at checked
  | none =>
    simp only [bound] at checked
    split_ifs at checked with leaves
    simp only [Bool.or_eq_true, decide_eq_true_eq, not_or, ne_eq, not_not] at leaves
    obtain ⟨old, member, same, positive, -⟩ := represents.of_validateBinding bound
    have all : reduction.reduction = old.remainingQuantity := by
      rw [leaves.2, same, reductionOf]
    rw [all] at same positive
    exact ⟨old, member, same, positive, le_refl _, Or.inl rfl⟩

/-- Removing a resting order is taking all of it. -/
theorem remove_eq (valid : ladder.Valid instrument) {old : OrderNodeSpec}
    (member : old ∈ ladder.orders) :
    ladder.remove old.orderId = ladder.revise (reduceBy old.orderId old.remainingQuantity) := by
  have agree : ∀ order ∈ ladder.orders,
      (if order.orderId = old.orderId then none else some order) =
        reduceBy old.orderId old.remainingQuantity order := by
    intro order inside
    by_cases same : order.orderId = old.orderId
    · rw [valid.eq_of_orderId inside member same, if_pos rfl, reduceBy, if_pos rfl,
        if_pos (UInt64.le_iff_toNat_le.mpr (le_refl _))]
    · rw [if_neg same, reduceBy_of_ne same]
  rw [Ladder.remove, Ladder.revise, Ladder.revise,
    Levels.revise_congr fun order inside => agree order (List.mem_append_left _ inside),
    Levels.revise_congr fun order inside => agree order (List.mem_append_right _ inside)]

/-- Removing an order and then applying reductions settles both. -/
theorem foldl_reduce_remove (valid : ladder.Valid instrument) {old : OrderNodeSpec}
    (member : old ∈ ladder.orders) (fills : List Fill) :
    (reductionsOf fills).foldl Ladder.reduce (ladder.remove old.orderId) =
      ladder.revise (settle (removalOf old :: fills)) := by
  rw [remove_eq valid member, foldl_reduce (valid.revise (reduceBy_shrinks _ _)),
    Ladder.revise_revise]
  rfl

/-- The removal of an exchange and its passive executions are executable together. -/
theorem Admitted.executable_cons {fills : List Fill} (admitted : Admitted ladder [] fills)
    {old : OrderNodeSpec} (member : old ∈ ladder.orders) (sound : (removalOf old).Sound)
    (apart : ∀ fill ∈ fills, fill.order.orderId ≠ old.orderId) :
    Executable ladder (removalOf old :: fills) where
  members fill inside := by
    rcases List.mem_cons.mp inside with rfl | later
    · exact member
    · exact admitted.members fill later
  sound fill inside := by
    rcases List.mem_cons.mp inside with rfl | later
    · exact sound
    · exact admitted.sound fill later
  distinct := by
    rw [List.map_cons, ids, List.map_cons, List.nodup_cons]
    refine ⟨fun inside => ?_, admitted.distinct⟩
    obtain ⟨order, resting, same⟩ := List.mem_map.mp inside
    obtain ⟨fill, present, rfl⟩ := List.mem_map.mp resting
    exact apart fill present same

end Represents

namespace BookHolds

variable {book : InstrumentBook} {ladder : Ladder} {pending : Option Pending} (checks : Bool)
  (address : BookRef)

/-- An exchange's batch without a residual is atomic. -/
theorem replaceBatch_atomic_plain (holds : BookHolds book ladder none)
    (old : PrevalidatedBookReduction) (reductions : List PrevalidatedBookReduction) :
    AtomicBatch book none (book.applyPrevalidatedReplaceBatch checks address old reductions none)
      (reductions.foldl Ladder.reduce (ladder.remove old.orderId)) := by
  have represents := holds.represents
  have idle : book.hasPendingPreparation = false := by
    simp [InstrumentBook.hasPendingPreparation, represents.pendingNode, represents.pendingLevel,
      represents.replacedId]
  cases removal : book.validateOldReduction old with
  | some error =>
    refine Or.inl ⟨⟨error, 0⟩, ?_⟩
    unfold InstrumentBook.applyPrevalidatedReplaceBatch
    simp only [represents.checkedInvariants checks holds.pins, idle, removal, Run.ok_bind,
      Bool.not_true, Bool.false_eq_true, ↓reduceIte, Run.pure_eq]
  | none =>
    cases checked : book.validatePassiveReductions old [] 1 reductions with
    | some failure =>
      refine Or.inl ⟨failure, ?_⟩
      unfold InstrumentBook.applyPrevalidatedReplaceBatch
      simp only [represents.checkedInvariants checks holds.pins, idle, removal, checked,
        Run.ok_bind, Bool.not_true, Bool.false_eq_true, ↓reduceIte, Run.pure_eq]
    | none =>
      obtain ⟨replaced, member, rfl, sound⟩ := represents.of_validateOldReduction removal
      obtain ⟨fills, rfl, admitted, opposite⟩ := represents.of_validatePassiveReductions _
        reductions [] 1 (by simp [ids]) checked
      have executable := admitted.executable_cons member sound fun fill inside =>
        (opposite fill inside).2
      obtain ⟨next, applied, after⟩ := represents.applyReplaceBatch checks address executable
        fun fill inside => (opposite fill inside).1
      have folded := Represents.foldl_reduce_remove represents.valid member fills
      rw [show (reductionOf replaced replaced.remainingQuantity).orderId = replaced.orderId from
        rfl, folded]
      exact atomic_of_applied applied after

/-- A guard that does not match refuses an exchange's batch. -/
theorem replaceBatch_mismatch (holds : BookHolds book ladder pending)
    (old : PrevalidatedBookReduction) (reductions : List PrevalidatedBookReduction)
    {prepared : PreparedRest}
    (mismatch : book.preparationMatches address prepared old.orderId = .ok false) (after : Ladder) :
    AtomicBatch book (some prepared)
      (book.applyPrevalidatedReplaceBatch checks address old reductions (some prepared)) after := by
  refine Or.inl ⟨⟨.preparationMismatch, 0⟩, ?_⟩
  unfold InstrumentBook.applyPrevalidatedReplaceBatch
  simp only [holds.represents.checkedInvariants checks holds.pins, mismatch, Run.ok_bind,
    Bool.not_true, Bool.not_false, Bool.false_eq_true, ↓reduceIte, Run.pure_eq]

/-- An exchange's batch with the residual of its book is atomic. -/
theorem replaceBatch_atomic_rest {order : OrderNodeSpec} (old : PrevalidatedBookReduction)
    (holds : BookHolds book ladder (some ⟨order, old.orderId⟩))
    (reductions : List PrevalidatedBookReduction) :
    AtomicBatch book (some (guardOf address ⟨order, old.orderId⟩))
      (book.applyPrevalidatedReplaceBatch checks address old reductions
        (some (guardOf address ⟨order, old.orderId⟩)))
      ((reductions.foldl Ladder.reduce (ladder.remove old.orderId)).join order) := by
  have represents := holds.represents
  have staged := represents.staged _ rfl
  have matched :
      book.preparationMatches address (guardOf address ⟨order, old.orderId⟩) old.orderId =
        .ok true :=
    represents.preparationMatches address
  cases removal : book.validateOldReduction old with
  | some error =>
    refine Or.inl ⟨⟨error, 0⟩, ?_⟩
    unfold InstrumentBook.applyPrevalidatedReplaceBatch
    simp only [represents.checkedInvariants checks holds.pins, matched, removal, Run.ok_bind,
      Bool.not_true, Bool.false_eq_true, ↓reduceIte, Run.pure_eq]
  | none =>
    cases checked : book.validatePassiveReductions old [] 1 reductions with
    | some failure =>
      refine Or.inl ⟨failure, ?_⟩
      unfold InstrumentBook.applyPrevalidatedReplaceBatch
      simp only [represents.checkedInvariants checks holds.pins, matched, removal, checked,
        Run.ok_bind, Bool.not_true, Bool.false_eq_true, ↓reduceIte, Run.pure_eq]
    | none =>
      obtain ⟨replaced, member, rfl, sound⟩ := represents.of_validateOldReduction removal
      obtain ⟨fills, rfl, admitted, opposite⟩ := represents.of_validatePassiveReductions _
        reductions [] 1 (by simp [ids]) checked
      have named :
          (reductionOf replaced replaced.remainingQuantity).orderId = replaced.orderId := rfl
      have executable := admitted.executable_cons member sound fun fill inside =>
        (opposite fill inside).2
      obtain ⟨verdict, residual, admits⟩ := represents.of_validateReplacementResidual checks
        address         admitted.executable member
      cases verdict with
      | some error =>
        refine Or.inl ⟨⟨error, 0⟩, ?_⟩
        unfold InstrumentBook.applyPrevalidatedReplaceBatch
        simp only [represents.checkedInvariants checks holds.pins, matched, removal, checked,
          residual, Run.ok_bind, Bool.not_true, Bool.false_eq_true, ↓reduceIte, Run.pure_eq]
      | none =>
        obtain ⟨⟨sided, client⟩, joins, clears⟩ := admits rfl
        have folded := Represents.foldl_reduce_remove represents.valid member fills
        have across : ∀ fill ∈ fills, fill.order.side ≠ replaced.side :=
          fun fill inside => (opposite fill inside).1
        rw [← Represents.exchange_own represents.valid executable across staged.known sided]
          at joins
        rw [← Represents.exchange_opposite represents.valid member staged.known sided] at clears
        obtain ⟨next, applied, after⟩ :=
          represents.applyReplaceBatch_rest checks address executable across
          client sided (represents.admits_of_joins joins clears)
        rw [named, folded]
        exact atomic_of_applied applied after

/-- Every exchange's batch on a valid book is atomic. -/
theorem replaceBatch_atomic (holds : BookHolds book ladder pending)
    (old : PrevalidatedBookReduction) (reductions : List PrevalidatedBookReduction)
    {prepared : Option PreparedRest}
    (guarded : ∀ guard ∈ prepared, GuardFor address pending guard) :
    AtomicBatch book prepared
      (book.applyPrevalidatedReplaceBatch checks address old reductions prepared)
      ((reductions.foldl Ladder.reduce (ladder.remove old.orderId)).append pending) := by
  cases prepared with
  | none =>
    cases pending with
    | none => exact holds.replaceBatch_atomic_plain checks address old reductions
    | some residual =>
      have busy : book.hasPendingPreparation = true := by
        simp [InstrumentBook.hasPendingPreparation, holds.represents.pendingNode]
      refine Or.inl ⟨⟨.preparationMismatch, 0⟩, ?_⟩
      unfold InstrumentBook.applyPrevalidatedReplaceBatch
      simp only [holds.represents.checkedInvariants checks holds.pins, busy, Run.ok_bind,
        Bool.not_true, Bool.false_eq_true, ↓reduceIte, Run.pure_eq]
  | some guard =>
    rcases guarded guard rfl with idle | foreign | ⟨residual, present, rfl⟩
    · exact holds.replaceBatch_mismatch checks address old reductions
        (Represents.preparationMatches_idle address book idle old.orderId) _
    · exact holds.replaceBatch_mismatch checks address old reductions
        (Represents.preparationMatches_foreign address book foreign old.orderId) _
    · rw [Option.mem_def] at present
      subst present
      by_cases replaces : residual.replacedId = old.orderId
      · obtain ⟨order, replacedId⟩ := residual
        simp only at replaces
        subst replaces
        exact holds.replaceBatch_atomic_rest checks address old reductions
      · exact holds.replaceBatch_mismatch checks address old reductions
          (Represents.preparationMatches_other address book replaces) _

end BookHolds

/-- Whatever reductions, guard and removal a valid book is handed, its batches refuse them and leave
book and guard as they were, or leave the valid book of the reductions applied one after another,
the replaced order removed and the residual appended. -/
theorem applyBatches_atomic (checks : Bool) (address : BookRef) {book : InstrumentBook}
    {ladder : Ladder} {pending : Option Pending} (holds : BookHolds book ladder pending)
    (reductions : List PrevalidatedBookReduction) {prepared : Option PreparedRest}
    (guarded : ∀ guard ∈ prepared, GuardFor address pending guard) :
    AtomicBatch book prepared (book.applyPrevalidatedBatch checks address reductions prepared)
        ((reductions.foldl Ladder.reduce ladder).append pending) ∧
      ∀ old, AtomicBatch book prepared
        (book.applyPrevalidatedReplaceBatch checks address old reductions prepared)
        ((reductions.foldl Ladder.reduce (ladder.remove old.orderId)).append pending) :=
  ⟨holds.batch_atomic checks address reductions guarded,
    fun old => holds.replaceBatch_atomic checks address old reductions guarded⟩

/-- The buy that is left when the first sell of the session is taken. -/
def sessionResidual : OrderNodeSpec := ⟨3, 3, 1, .buy, 15, 2, 3⟩

/-- The execution that takes all of the first sell of the session. -/
def sessionFill : Fill := ⟨⟨1, 1, 1, .sell, 15, 4, 1⟩, 4, 2⟩

/-- A book that holds the two sells of the session, and one in which the residual is also staged. -/
theorem session_books : ∃ book staged, BookHolds book sessionLadder none ∧
    BookHolds staged sessionLadder (some ⟨sessionResidual, 0⟩) := by
  obtain ⟨book, represents⟩ := represents_of_run session_created session_desk
  have alone : Queue sessionResidual.price [sessionResidual] :=
    ⟨by decide, by simp, by simp [sessionResidual], by simp [sessionResidual], by simp,
      by decide⟩
  have restable : Restable 1 sessionLadder sessionResidual :=
    ⟨alone, Or.inl rfl, rfl, by decide, by decide, by decide⟩
  have resting : ∀ old ∈ (none : Option OrderNodeSpec), old ∈ sessionLadder.orders ∧
      old.clientId = sessionResidual.clientId ∧ old.side = sessionResidual.side := by simp
  obtain ⟨staged, -, pending⟩ := represents.prepareRestImpl true 1 restable resting alone
  refine ⟨book, staged, ⟨represents.routed.symm ▸ represents, by simp⟩,
    ⟨pending.routed.symm ▸ pending, ?_⟩⟩
  rintro _ ⟨⟩ replaces
  exact absurd rfl replaces

/-- The residual may rest once the first sell is taken. -/
theorem session_admits {staged : InstrumentBook}
    (pending : BookHolds staged sessionLadder (some ⟨sessionResidual, 0⟩)) :
    (sessionLadder.revise (settle [sessionFill])).Admits staged.instrumentId sessionResidual := by
  have empty : ((sessionLadder.revise (settle [sessionFill])).side
      sessionResidual.side).queueAt sessionResidual.price = [] := by
    decide +kernel
  have prices : SortedMap.keys ((sessionLadder.revise
      (settle [sessionFill])).side sessionResidual.side.opposite) = [20] := by
    decide +kernel
  have aside := pending.represents.staged _ rfl
  refine ⟨⟨?_, rfl, aside.routed, by decide, by decide⟩, Or.inl rfl, by decide +kernel, ?_⟩
  · rw [empty]
    exact aside.queue
  · intro price inside
    rw [prices, List.mem_singleton] at inside
    rw [inside]
    decide

/-- Taking the first sell of the session and joining the residual is carried out, so is removing the
second sell, and a guard of another book is refused without a change. -/
theorem applyBatches_atomic_session : ∃ book staged removed joined,
    BookHolds book sessionLadder none ∧ BookHolds staged sessionLadder (some ⟨sessionResidual, 0⟩) ∧
    book.applyPrevalidatedReplaceBatch true 1 (reductionOf ⟨2, 2, 1, .sell, 20, 3, 2⟩ 3) [] none =
      .ok ⟨removed, none, none⟩ ∧
    BookHolds removed ⟨[], [(15, [⟨1, 1, 1, .sell, 15, 4, 1⟩])]⟩ none ∧
    staged.applyPrevalidatedBatch true 1 (reductionsOf [sessionFill])
      (some (guardOf 1 ⟨sessionResidual, 0⟩)) = .ok ⟨joined, some .spent, none⟩ ∧
    BookHolds joined ⟨[(15, [sessionResidual])], [(20, [⟨2, 2, 1, .sell, 20, 3, 2⟩])]⟩ none ∧
    joined.validateInvariants = .ok .none ∧
    staged.applyPrevalidatedBatch true 1 (reductionsOf [sessionFill])
      (some (guardOf 2 ⟨sessionResidual, 0⟩)) =
        .ok ⟨staged, some (guardOf 2 ⟨sessionResidual, 0⟩), some ⟨.preparationMismatch, 0⟩⟩ := by
  obtain ⟨book, staged, holds, pending⟩ := session_books
  have taken : Executable sessionLadder [sessionFill] :=
    ⟨by decide, by simp; exact ⟨by decide, by decide, by decide⟩, by decide⟩
  have removal : Executable sessionLadder [removalOf ⟨2, 2, 1, .sell, 20, 3, 2⟩] :=
    ⟨by decide, by simp; exact ⟨by decide, by decide, by decide⟩, by decide⟩
  have admits := session_admits pending
  obtain ⟨removed, removes, -⟩ := holds.represents.applyReplaceBatch true 1 removal (by simp)
  obtain ⟨joined, joinedBatch, -⟩ :=
    pending.represents.applyBatch_rest true 1 taken (by decide) admits
  have unguarded : ∀ guard ∈ (none : Option PreparedRest), GuardFor 1 none guard := by simp
  have guarded : ∀ guard ∈ some (guardOf 1 ⟨sessionResidual, 0⟩),
      GuardFor 1 (some ⟨sessionResidual, 0⟩) guard := by
    rintro _ ⟨⟩
    exact Or.inr (Or.inr ⟨_, rfl, rfl⟩)
  have foreign : ∀ guard ∈ some (guardOf 2 ⟨sessionResidual, 0⟩),
      GuardFor 1 (some ⟨sessionResidual, 0⟩) guard := by
    rintro _ ⟨⟩
    exact Or.inr (Or.inl (by decide))
  have mismatch := pending.batch_mismatch true 1 (reductionsOf [sessionFill])
    (Represents.preparationMatches_foreign 1 staged
      (show (guardOf 2 ⟨sessionResidual, 0⟩).owner ≠ some 1 by decide) 0)
  have without : (([] : List PrevalidatedBookReduction).foldl Ladder.reduce
      (sessionLadder.remove 2)).append none = ⟨[], [(15, [⟨1, 1, 1, .sell, 15, 4, 1⟩])]⟩ := by
    decide +kernel
  have swept : ((reductionsOf [sessionFill]).foldl Ladder.reduce
      sessionLadder).append (some ⟨sessionResidual, 0⟩) =
        ⟨[(15, [sessionResidual])], [(20, [⟨2, 2, 1, .sell, 20, 3, 2⟩])]⟩ := by
    decide +kernel
  refine ⟨book, staged, removed, joined, holds, pending, removes, ?_, joinedBatch, ?_⟩
  · rcases (applyBatches_atomic true 1 holds [] unguarded).2
        (reductionOf ⟨2, 2, 1, .sell, 20, 3, 2⟩ 3) with ⟨failure, refused⟩ |
          ⟨next, applied, -, left, -⟩
    · cases refused.symm.trans removes
    · cases applied.symm.trans removes
      rw [show (reductionOf ⟨2, 2, 1, .sell, 20, 3, 2⟩ 3).orderId = 2 from rfl, without] at left
      exact left
  · rcases (applyBatches_atomic true 1 pending (reductionsOf [sessionFill])
        guarded).1 with ⟨failure, refused⟩ | ⟨next, applied, -, left, valid⟩
    · cases refused.symm.trans joinedBatch
    · cases applied.symm.trans joinedBatch
      rw [swept] at left
      refine ⟨left, valid, ?_⟩
      rcases (applyBatches_atomic true 1 pending (reductionsOf [sessionFill])
          foreign).1 with ⟨failure, refused⟩ | ⟨next, applied, -⟩
      · cases refused.symm.trans mismatch
        exact refused
      · cases applied.symm.trans mismatch

end AtlasLob
