import AtlasLob.Verif.Events
import AtlasLob.Verif.ProjectedTop

/-!
# The executor refines the ladder

Preparing an admitted command refuses it, fails because its report cannot be indexed, or stages
exactly the consequences of the command on the ladder. Committing what was staged leads to the
ladder after the command; abandoning it leads back.
-/

namespace AtlasLob

open PriceLevel

namespace Aggresses

variable {instrument : InstrumentId} {ladder : Ladder} {order : NewOrder}
  {replaced : Option OrderNodeSpec} {sequence : Sequence}

/-- The residual an aggressor stages. -/
def pending (ladder : Ladder) (order : NewOrder) (replaced : Option OrderNodeSpec)
    (sequence : Sequence) : Option Pending :=
  (newcomer ladder order sequence).map fun rested => ⟨rested, Represents.replacedIdOf replaced⟩

/-- The orders of a ladder leave room for one more word. -/
theorem length_lt (aggresses : Aggresses instrument ladder order replaced sequence) :
    ladder.orders.length < 2 ^ 64 - 1 := by
  have distinct : (order.orderId :: ids ladder.orders).Nodup :=
    List.nodup_cons.mpr ⟨aggresses.fresh, aggresses.valid.distinct⟩
  have named : 0 ∉ order.orderId :: ids ladder.orders := by
    rw [List.mem_cons, not_or]
    refine ⟨fun zero => aggresses.wellFormed.id zero.symm, fun inside => ?_⟩
    obtain ⟨resting, member, zero⟩ := List.mem_map.mp inside
    exact aggresses.valid.named_order member zero
  have bound := length_lt_of_nodup distinct named
  rw [List.length_cons, ids, List.length_map] at bound
  omega

/-- The residual can be staged. -/
theorem restable (aggresses : Aggresses instrument ladder order replaced sequence)
    (rests : ladder.disposition order = .rest) :
    Restable instrument ladder (ladder.rested order sequence) where
  queue := by
    obtain ⟨unfilled, limit, -, given, positive⟩ := aggresses.rest_terms rests
    have price : (ladder.rested order sequence).price = limit := by
      rw [Ladder.rested, given, Option.getD_some]
    refine ⟨by rw [price]; exact positive, by simp, ?_, ?_, List.pairwise_singleton _ _, ?_⟩
    · rintro resting inside
      rw [List.mem_singleton.mp inside]
      exact unfilled
    · rintro resting inside
      rw [List.mem_singleton.mp inside]
      exact aggresses.issued
    · rw [total_cons, total_nil]
      exact (ladder.left order).toNat_lt
  known := aggresses.wellFormed.side
  routed := aggresses.routed
  named := aggresses.wellFormed.id
  owned := aggresses.wellFormed.client
  fresh := aggresses.fresh

/-- The event of what is left of an aggressor. -/
theorem residualPayload (aggresses : Aggresses instrument ladder order replaced sequence) :
    AtlasLob.residualPayload order (planOf ladder order) = .ok (ladder.closingEvent order) := by
  rw [AtlasLob.residualPayload, planOf_residualDisposition, planOf_residualQuantity,
    Ladder.closingEvent]
  cases disposed : ladder.disposition order with
  | rest =>
    obtain ⟨-, price, -, given, -⟩ := aggresses.rest_terms disposed
    simp [given]
  | filled => rfl
  | iocCanceled => rfl
  | marketExhausted => rfl

/-- The event of a planned execution. -/
theorem tradePayload_plannedOf (order : NewOrder) (fill : Fill) :
    tradePayload order (plannedOf fill) = Ladder.tradeEvent order fill := rfl

/-- The events of a plan are the report of its aggressor. -/
theorem planPayloads (aggresses : Aggresses instrument ladder order replaced sequence)
    (opening : List EventPayload) :
    AtlasLob.planPayloads opening order (planOf ladder order)
        (ladder.after order replaced sequence).top
        (decide (ladder.top ≠ (ladder.after order replaced sequence).top)) =
      .ok (ladder.report order replaced sequence opening) := by
  have trades : (planOf ladder order).trades.map (tradePayload order) =
      (ladder.fills order).map (Ladder.tradeEvent order) := by
    rw [planOf_trades, List.map_map]
    exact List.map_congr_left fun fill _ => tradePayload_plannedOf order fill
  have changes : bookChangedPayloads (ladder.after order replaced sequence).top
      (decide (ladder.top ≠ (ladder.after order replaced sequence).top)) =
        Ladder.changeEvents ladder (ladder.after order replaced sequence) := by
    rw [bookChangedPayloads, Ladder.changeEvents]
    by_cases same : ladder.top = (ladder.after order replaced sequence).top
    · rw [if_pos same, if_neg (by simp [same])]
    · rw [if_neg same, if_pos (by simpa using same)]
  rw [AtlasLob.planPayloads, aggresses.residualPayload, Run.ok_bind, trades, changes, Ladder.report]
  rfl

/-- The number of events of an aggressor. -/
theorem report_length (ladder : Ladder) (order : NewOrder) (replaced : Option OrderNodeSpec)
    (sequence : Sequence) (opening : List EventPayload) :
    (ladder.report order replaced sequence opening).length = (planOf ladder order).trades.length +
      (opening.length + 1 +
        if decide (ladder.top ≠ (ladder.after order replaced sequence).top) then 1 else 0) := by
  have changes : (Ladder.changeEvents ladder (ladder.after order replaced sequence)).length =
      if decide (ladder.top ≠ (ladder.after order replaced sequence).top) then 1 else 0 := by
    rw [Ladder.changeEvents]
    by_cases same : ladder.top = (ladder.after order replaced sequence).top
    · rw [if_pos same, if_neg (by simp [same])]
      rfl
    · rw [if_neg same, if_pos (by simpa using same)]
      rfl
  rw [Ladder.report, planOf_trades]
  simp only [List.length_append, List.length_map, List.length_singleton, changes]
  omega

/-- A report that cannot be indexed has no batch. -/
theorem buildBatch_long {opening : List EventPayload} (small : opening.length + 1 < 2 ^ 32)
    (long : 2 ^ 32 < (ladder.report order replaced sequence opening).length) :
    CommandExecutor.buildBatch sequence order opening (opening.length + 1) (planOf ladder order)
        (ladder.after order replaced sequence).top
        (decide (ladder.top ≠ (ladder.after order replaced sequence).top)) =
      .ok (.error .eventCountOverflow) := by
  rw [report_length] at long
  rw [CommandExecutor.buildBatch, checkedEventCount_eq _ _ (by omega) small, if_pos long]
  rfl

/-- A report that can be indexed has its batch. -/
theorem buildBatch_ok (aggresses : Aggresses instrument ladder order replaced sequence)
    {opening : List EventPayload} (small : opening.length + 1 < 2 ^ 32)
    (short : ¬ 2 ^ 32 < (ladder.report order replaced sequence opening).length) :
    ∃ batch, CommandExecutor.buildBatch sequence order opening (opening.length + 1)
        (planOf ladder order) (ladder.after order replaced sequence).top
        (decide (ladder.top ≠ (ladder.after order replaced sequence).top)) = .ok (.ok batch) ∧
      batch.events = numberEvents sequence instrument 0
        (ladder.report order replaced sequence opening) := by
  have nonempty : ladder.report order replaced sequence opening ≠ [] := by
    simp [Ladder.report]
  have named : order.instrumentId ≠ 0 := aggresses.wellFormed.instrument
  obtain ⟨filled, batch, created, appended, finished, events⟩ :=
    build_ok aggresses.issued named nonempty (Nat.le_of_not_lt short)
  refine ⟨batch, ?_, by rw [events, aggresses.routed]⟩
  rw [report_length] at short created appended
  rw [CommandExecutor.buildBatch, checkedEventCount_eq _ _ (by omega) small, if_neg short]
  simp only
  rw [created, Run.ok_bind, aggresses.planPayloads, Run.ok_bind, appended]
  simp only
  rw [finished, Run.ok_bind]
  rfl

end Aggresses

/-- What an aggressor stages in the book at an address. -/
def stagedExecution (address : BookRef) (ladder : Ladder) (order : NewOrder)
    (replaced : Option OrderNodeSpec) (sequence : Sequence) (batch : EventBatch) :
    PreparedCommandExecution where
  leased := false
  result := .ok batch
  passiveReductions := reductionsOf (ladder.fills order)
  primaryReduction := replaced.map CommandExecutor.wholeReduction
  preparedRest := (Aggresses.pending ladder order replaced sequence).map (guardOf address)
  projectedTop := (ladder.after order replaced sequence).top
  mutation := if replaced.isSome then .replace else .batch
  consumed := false

/-- The residual an aggressor holds. -/
theorem stagedExecution_preparedRest (address : BookRef) (ladder : Ladder) (order : NewOrder)
    (replaced : Option OrderNodeSpec) (sequence : Sequence) (batch : EventBatch) :
    (stagedExecution address ladder order replaced sequence batch).preparedRest =
      (Aggresses.pending ladder order replaced sequence).map (guardOf address) := by
  rw [stagedExecution]

/-- What a withdrawal stages. -/
def withdrawnExecution (ladder : Ladder) (old : OrderNodeSpec) (batch : EventBatch) :
    PreparedCommandExecution where
  leased := false
  result := .ok batch
  passiveReductions := []
  primaryReduction := some (CommandExecutor.wholeReduction old)
  preparedRest := none
  projectedTop := (ladder.without old).top
  mutation := .batch
  consumed := false

namespace Represents

variable {instrument : InstrumentId} {book : InstrumentBook} {ladder : Ladder}
  {order : NewOrder} {replaced : Option OrderNodeSpec} {old : OrderNodeSpec}
  {sequence : Sequence} (checks : Bool) (address : BookRef) {executor : CommandExecutor}

/-- Whether a limit of one book stands against an aggressor. -/
def refuses (policy : ExecutionPolicy) (ladder : Ladder) (order : NewOrder)
    (replaced : Option OrderNodeSpec) (sequence : Sequence) : Bool :=
  decide (policy.maxActiveOrders.toNat < (ladder.after order replaced sequence).orders.length) ||
    ladder.overflows order replaced

/-- Assessing an aggressor. -/
theorem assess (represents : Represents instrument book ladder none)
    (aggresses : Aggresses instrument ladder order replaced sequence) (policy : ExecutionPolicy) :
    CommandExecutor.assess checks book policy order replaced =
      .ok (if refuses policy ladder order replaced sequence then .refused
        else .planned (planOf ladder order) (reductionsOf (ladder.fills order))
          (Aggresses.projected ladder order) (ladder.after order replaced sequence).top) := by
  have count := Represents.projectActiveOrderCount aggresses aggresses.length_lt (le_refl _)
  rw [Nat.sub_self, Nat.zero_add] at count
  rw [CommandExecutor.assess, represents.planMatches checks aggresses.toMeets, Run.ok_bind]
  simp only
  rw [represents.activeOrderCount, count]
  simp only
  by_cases crowded : policy.maxActiveOrders.toNat <
      (ladder.after order replaced sequence).orders.length
  · rw [if_pos crowded, refuses, decide_eq_true crowded, Bool.true_or]
    rfl
  · rw [if_neg crowded, represents.bindMatchPlan aggresses.toMeets]
    simp only
    rw [aggresses.projectedResidual, Run.ok_bind, represents.projectTop checks aggresses,
      Run.ok_bind]
    cases overflows : ladder.overflows order replaced with
    | true => simp only [refuses, overflows, Bool.or_true, ↓reduceIte, Run.pure_eq]
    | false =>
      simp only [refuses, overflows, crowded, decide_false, Bool.or_self, Bool.false_eq_true,
        ↓reduceIte, Run.pure_eq]

/-- Staging the residual of an aggressor. -/
theorem stageResidual (represents : Represents instrument book ladder none)
    (aggresses : Aggresses instrument ladder order replaced sequence)
    (fits : ladder.overflows order replaced = false) :
    ∃ next, CommandExecutor.stageResidual checks address book sequence order replaced
        (Aggresses.projected ladder order) =
          .ok (next, (Aggresses.pending ladder order replaced sequence).map (guardOf address)) ∧
      Represents instrument next ladder (Aggresses.pending ladder order replaced sequence) := by
  rw [Aggresses.projected, Aggresses.pending, Aggresses.newcomer]
  by_cases rests : ladder.disposition order = .rest
  · have joins := aggresses.joins rests fits
    rw [aggresses.struck_own] at joins
    have resting : ∀ old ∈ replaced, old ∈ ladder.orders ∧
        old.clientId = (ladder.rested order sequence).clientId ∧
        old.side = (ladder.rested order sequence).side := fun old inside =>
      ⟨(aggresses.replaces old inside).1, (aggresses.replaces old inside).2.1,
        (aggresses.replaces old inside).2.2.1⟩
    obtain ⟨next, staged, pending⟩ := represents.prepareRestImpl checks address
      (aggresses.restable rests) resting joins
    refine ⟨next, ?_, by simpa [rests] using pending⟩
    simp only [rests, ↓reduceIte, CommandExecutor.stageResidual, Option.map_some]
    rw [Ladder.rested] at staged ⊢
    cases replaced with
    | none =>
      rw [Option.map_none] at staged
      simp only [InstrumentBook.prepareRest, staged]
      rfl
    | some old =>
      rw [Option.map_some] at staged
      simp only [InstrumentBook.prepareReplaceRest, staged]
      rfl
  · exact ⟨book, by simp [rests, CommandExecutor.stageResidual], by simpa [rests] using represents⟩

/-- An aggressor that a limit stands against is refused. -/
theorem prepareAggressor_refused (represents : Represents instrument executor.book ladder none)
    (aggresses : Aggresses instrument ladder order replaced sequence)
    (refused : refuses executor.policy ladder order replaced sequence = true)
    (commandType : CommandType) (opening : List EventPayload) (fixedCount : Nat) :
    ∃ batch, executor.prepareAggressor checks sequence commandType order replaced opening
        fixedCount = .ok (executor, .immediate (.ok batch)) ∧
      batch.events = numberEvents sequence instrument 0
        [.rejected commandType .capacityExceeded (some order.orderId)] := by
  obtain ⟨batch, made, events⟩ := makeRejection_ok aggresses.issued order.instrumentId commandType
    ⟨.capacityExceeded, some order.orderId⟩
  refine ⟨batch, ?_, by rw [events, aggresses.routed]⟩
  rw [CommandExecutor.prepareAggressor, represents.assess checks aggresses, Run.ok_bind,
    if_pos refused]
  simp only
  rw [made]
  rfl

/-- The guard of a staged residual holds it. -/
theorem guards_hasValue (pending : Option Pending) :
    ((pending.map (guardOf address)).any fun prepared => !prepared.hasValue) = false := by
  cases pending <;> rfl

/-- Dropping the guard of a staged residual leads back. -/
theorem dropRest {book : InstrumentBook} {pending : Option Pending}
    (represents : Represents instrument book ladder pending) :
    ∃ next, CommandExecutor.dropRest checks address book (pending.map (guardOf address)) =
        .ok next ∧
      Represents instrument next ladder none := by
  cases pending with
  | none => exact ⟨book, rfl, represents⟩
  | some residual => exact represents.rollback checks address

/-- An aggressor whose report cannot be indexed fails and leaves its book as it was. -/
theorem prepareAggressor_long (represents : Represents instrument executor.book ladder none)
    (aggresses : Aggresses instrument ladder order replaced sequence)
    (admitted : refuses executor.policy ladder order replaced sequence = false)
    (commandType : CommandType) {opening : List EventPayload} (small : opening.length + 1 < 2 ^ 32)
    (long : 2 ^ 32 < (ladder.report order replaced sequence opening).length) :
    ∃ book, executor.prepareAggressor checks sequence commandType order replaced opening
        (opening.length + 1) =
          .ok ({ executor with book := book }, .immediate (.error .eventCountOverflow)) ∧
      Represents instrument book ladder none := by
  have fits := (Bool.or_eq_false_iff.mp admitted).2
  obtain ⟨book, staged, pending⟩ := represents.stageResidual checks executor.address aggresses fits
  obtain ⟨next, dropped, restored⟩ := pending.dropRest checks executor.address
  refine ⟨next, ?_, restored⟩
  rw [CommandExecutor.prepareAggressor, represents.assess checks aggresses, Run.ok_bind,
    admitted, if_neg Bool.false_ne_true]
  simp only
  rw [staged, Run.ok_bind]
  simp only
  rw [guards_hasValue executor.address, if_neg Bool.false_ne_true, represents.snapshotTopOfBook,
    Aggresses.buildBatch_long small long, Run.ok_bind]
  simp only
  rw [dropped]
  rfl

/-- Any other aggressor is staged. -/
theorem prepareAggressor_staged (represents : Represents instrument executor.book ladder none)
    (aggresses : Aggresses instrument ladder order replaced sequence)
    (admitted : refuses executor.policy ladder order replaced sequence = false)
    (commandType : CommandType) {opening : List EventPayload} (small : opening.length + 1 < 2 ^ 32)
    (short : ¬ 2 ^ 32 < (ladder.report order replaced sequence opening).length) :
    ∃ book batch, executor.prepareAggressor checks sequence commandType order replaced opening
        (opening.length + 1) =
          .ok ({ executor with book := book },
            stagedExecution executor.address ladder order replaced sequence batch) ∧
      Represents instrument book ladder (Aggresses.pending ladder order replaced sequence) ∧
      batch.events = numberEvents sequence instrument 0
        (ladder.report order replaced sequence opening) := by
  have fits := (Bool.or_eq_false_iff.mp admitted).2
  obtain ⟨book, staged, pending⟩ := represents.stageResidual checks executor.address aggresses fits
  obtain ⟨batch, built, events⟩ := aggresses.buildBatch_ok small short
  refine ⟨book, batch, ?_, pending, events⟩
  rw [CommandExecutor.prepareAggressor, represents.assess checks aggresses, Run.ok_bind,
    admitted, if_neg Bool.false_ne_true]
  simp only
  rw [staged, Run.ok_bind]
  simp only
  rw [guards_hasValue executor.address, if_neg Bool.false_ne_true, represents.snapshotTopOfBook,
    built, Run.ok_bind]
  rfl

/-- A withdrawal of a resting order is staged. -/
theorem prepareCancel (represents : Represents instrument executor.book ladder none)
    (issued : sequence ≠ 0) (member : old ∈ ladder.orders) {order : CancelOrder}
    (named : old.orderId = order.orderId) (owned : old.clientId = order.clientId)
    (routed : order.instrumentId = instrument) :
    ∃ batch, executor.prepareCancel checks order sequence =
        .ok (executor, withdrawnExecution ladder old batch) ∧
      batch.events = numberEvents sequence instrument 0 (ladder.withdrawalReport old) := by
  have valid := represents.valid
  have found : executor.book.find order.orderId = some old := by
    rw [represents.find]
    exact valid.find_eq_some_iff.mpr ⟨member, named⟩
  have here : old.instrumentId = order.instrumentId :=
    (valid.routed_order member).trans routed.symm
  have length : (ladder.withdrawalReport old).length =
      3 + if decide (ladder.top ≠ (ladder.without old).top) then 1 else 0 := by
    rw [Ladder.withdrawalReport, Ladder.changeEvents]
    by_cases same : ladder.top = (ladder.without old).top
    · simp [same]
    · simp [same]
  have payloads : [EventPayload.accepted .cancel, .canceled order.orderId old.remainingQuantity,
      .done order.orderId .canceled old.remainingQuantity] ++
        bookChangedPayloads (ladder.without old).top
          (decide (ladder.top ≠ (ladder.without old).top)) = ladder.withdrawalReport old := by
    rw [Ladder.withdrawalReport, Ladder.changeEvents, bookChangedPayloads, named]
    by_cases same : ladder.top = (ladder.without old).top
    · simp [same]
    · simp [same]
  have short : (ladder.withdrawalReport old).length ≤ 2 ^ 32 := by
    rw [length]
    split_ifs <;> omega
  obtain ⟨filled, batch, created, appended, finished, events⟩ :=
    build_ok issued (show order.instrumentId ≠ 0 by rw [routed]; exact valid.named)
      (by simp [Ladder.withdrawalReport]) short
  refine ⟨batch, ?_, by rw [events, routed]⟩
  rw [length] at created appended
  rw [CommandExecutor.prepareCancel, found]
  simp only
  rw [represents.projectCancelTopOfBook checks member, represents.snapshotTopOfBook]
  simp only [owned, here, ne_eq, not_true_eq_false, decide_false, Bool.or_self, Bool.false_eq_true,
    ↓reduceIte, Run.ok_bind] at created appended payloads ⊢
  rw [created, Run.ok_bind, payloads, appended]
  simp only
  rw [finished]
  rfl

/-- Taking all of a resting order. -/
theorem wholeReduction_eq (old : OrderNodeSpec) :
    CommandExecutor.wholeReduction old = reductionOf old old.remainingQuantity := by
  rw [CommandExecutor.wholeReduction, reductionOf, UInt64.sub_self]

/-- Applying what an aggressor staged. -/
theorem mutate_staged
    (represents :
      Represents instrument book ladder (Aggresses.pending ladder order replaced sequence))
    (aggresses : Aggresses instrument ladder order replaced sequence)
    (fits : ladder.overflows order replaced = false) (batch : EventBatch) (lease : Bool) :
    ∃ next rest, CommandExecutor.mutate checks address book
        { stagedExecution address ladder order replaced sequence batch with leased := lease } =
          .ok ⟨next, rest, none⟩ ∧
      (rest = none ∨ rest = some .spent) ∧
      Represents instrument next (ladder.after order replaced sequence) none := by
  have opposite : ∀ fill ∈ ladder.fills order, fill.order.side ≠ order.side :=
    fun fill inside => aggresses.not_own inside
  rw [Aggresses.pending, Aggresses.newcomer] at represents
  cases replaced with
  | none =>
    have struck : ladder.struck order none = ladder.revise (settle (ladder.fills order)) := rfl
    by_cases rests : ladder.disposition order = .rest
    · rw [if_pos rests] at represents
      have admits := aggresses.admits rests fits
      rw [struck] at admits
      obtain ⟨next, applied, after⟩ :=
        represents.applyBatch_rest checks address aggresses.executable
        opposite admits
      refine ⟨next, some .spent, ?_, Or.inr rfl, ?_⟩
      · simp only [CommandExecutor.mutate, stagedExecution, Aggresses.pending, Aggresses.newcomer,
          if_pos rests]
        exact applied
      · rw [Ladder.after, if_pos rests]
        exact after
    · rw [if_neg rests] at represents
      obtain ⟨next, applied, after⟩ := represents.applyBatch checks address aggresses.executable
      refine ⟨next, none, ?_, Or.inl rfl, ?_⟩
      · simp only [CommandExecutor.mutate, stagedExecution, Aggresses.pending, Aggresses.newcomer,
          if_neg rests]
        exact applied
      · rw [Ladder.after, if_neg rests]
        exact after
  | some old =>
    obtain ⟨member, client, sided, -⟩ := aggresses.replaces old rfl
    have apart : ∀ fill ∈ ladder.fills order, fill.order.side ≠ old.side := by
      rw [sided]
      exact opposite
    have struck : ladder.struck order (some old) =
        ladder.revise (settle (removalOf old :: ladder.fills order)) := rfl
    by_cases rests : ladder.disposition order = .rest
    · rw [if_pos rests] at represents
      have admits := aggresses.admits rests fits
      rw [struck] at admits
      obtain ⟨next, applied, after⟩ := represents.applyReplaceBatch_rest checks address
        aggresses.executable_removal apart client sided admits
      refine ⟨next, some .spent, ?_, Or.inr rfl, ?_⟩
      · simp only [CommandExecutor.mutate, stagedExecution, Aggresses.pending, Aggresses.newcomer,
          if_pos rests, Option.map_some, Option.isSome_some, ↓reduceIte, wholeReduction_eq]
        exact applied
      · rw [Ladder.after, if_pos rests]
        exact after
    · rw [if_neg rests] at represents
      obtain ⟨next, applied, after⟩ := represents.applyReplaceBatch checks address
        aggresses.executable_removal apart
      refine ⟨next, none, ?_, Or.inl rfl, ?_⟩
      · simp only [CommandExecutor.mutate, stagedExecution, Aggresses.pending, Aggresses.newcomer,
          if_neg rests, Option.map_some, Option.isSome_some, ↓reduceIte, wholeReduction_eq]
        exact applied
      · rw [Ladder.after, if_neg rests]
        exact after

/-- All of one resting order can be taken. -/
theorem executable_removalOf (valid : ladder.Valid instrument) (member : old ∈ ladder.orders) :
    Executable ladder [removalOf old] := by
  obtain ⟨price, queue, level, inside⟩ := Levels.mem_orders.mp (valid.mem_side member)
  have unfilled := ((valid.side (valid.sided member)).queue price queue level).unfilled old inside
  exact
    { members := fun fill here => by
        rw [List.mem_singleton.mp here]
        exact member
      sound := fun fill here => by
        rw [List.mem_singleton.mp here]
        exact ⟨unfilled, le_refl _, Or.inl rfl⟩
      distinct := by simp [ids] }

/-- Applying what a withdrawal staged. -/
theorem mutate_withdrawn (represents : Represents instrument book ladder none)
    (member : old ∈ ladder.orders) (batch : EventBatch) (lease : Bool) :
    ∃ next, CommandExecutor.mutate checks address book
        { withdrawnExecution ladder old batch with leased := lease } = .ok ⟨next, none, none⟩ ∧
      Represents instrument next (ladder.without old) none := by
  have executable := executable_removalOf represents.valid member
  obtain ⟨next, applied, after⟩ := represents.applyBatch checks address executable
  refine ⟨next, ?_, after⟩
  simp only [CommandExecutor.mutate, withdrawnExecution, wholeReduction_eq]
  exact applied

/-- A spent guard drops nothing. -/
theorem dropRest_settled (book : InstrumentBook) {rest : Option PreparedRest}
    (settled : rest = none ∨ rest = some .spent) :
    CommandExecutor.dropRest checks address book rest = .ok book := by
  rcases settled with rfl | rfl <;> rfl

/-- Committing a leased preparation whose mutation applies and has the projected top. -/
theorem commit_ok {prepared : PreparedCommandExecution} {batch : EventBatch}
    {next : InstrumentBook} {rest : Option PreparedRest} {after : Ladder}
    (fresh : prepared.consumed = false) (changes : prepared.mutation ≠ .none)
    (leased : prepared.leased = true) (active : executor.preparationActive = true)
    (result : prepared.result = .ok batch)
    (mutated : CommandExecutor.mutate checks executor.address executor.book prepared =
      .ok ⟨next, rest, none⟩)
    (settled : rest = none ∨ rest = some .spent)
    (represents : Represents instrument next after none) (top : prepared.projectedTop = after.top) :
    executor.commit checks prepared =
      .ok ({ executor with book := next, preparationActive := false }, prepared.consume,
        .ok batch) := by
  rw [CommandExecutor.commit, fresh, if_neg Bool.false_ne_true, if_neg changes, mutated,
    Run.ok_bind]
  simp only
  rw [represents.snapshotTopOfBook, top, if_neg (not_not.mpr rfl)]
  simp only [Run.pure_eq]
  rw [dropRest_settled checks executor.address next settled, Run.ok_bind,
    CommandExecutor.releaseLease, leased, active, result]
  rfl

/-- Committing a refusal or a failure changes nothing but the lease. -/
theorem commit_immediate {result : CommandExecutionResult}
    (active : executor.preparationActive = true) :
    executor.commit checks { PreparedCommandExecution.immediate result with leased := true } =
      .ok ({ executor with preparationActive := false },
        PreparedCommandExecution.consume
          { PreparedCommandExecution.immediate result with leased := true }, result) := by
  simp [CommandExecutor.commit, PreparedCommandExecution.immediate, CommandExecutor.releaseLease,
    active]

/-- Abandoning a leased preparation leads back. -/
theorem abandon_ok {prepared : PreparedCommandExecution} {pending : Option Pending}
    (represents : Represents instrument executor.book ladder pending)
    (guards : prepared.preparedRest = pending.map (guardOf executor.address))
    (leased : prepared.leased = true)
    (active : executor.preparationActive = true) :
    ∃ book, executor.abandon checks prepared =
        .ok ({ executor with book := book, preparationActive := false }, prepared.consume) ∧
      Represents instrument book ladder none := by
  obtain ⟨book, dropped, restored⟩ := represents.dropRest checks executor.address
  refine ⟨book, ?_, restored⟩
  rw [CommandExecutor.abandon, guards, dropped, Run.ok_bind, CommandExecutor.releaseLease, leased]
  simp [active]

end Represents

end AtlasLob
