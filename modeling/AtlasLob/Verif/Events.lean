import AtlasLob.Core.Executor

/-!
# Building batches

A builder with as many slots as payloads numbers them in order and closes into a batch. So a
refusal always has its one event, and a report has a batch exactly when its events can be
indexed.
-/

namespace AtlasLob

namespace EventBatchBuilder

/-- Start a batch of at least one event that can be indexed. -/
theorem create_ok {sequence : Sequence} {instrument : InstrumentId} {expected : Nat}
    (issued : sequence ≠ 0) (some : expected ≠ 0) (routed : instrument ≠ 0 ∨ expected = 1)
    (indexed : expected ≤ 2 ^ 32) :
    create sequence instrument expected =
      .ok ⟨sequence, instrument, expected, [], none, false⟩ := by
  have zero : ¬ (instrument = 0 ∧ expected ≠ 1) := by
    rintro ⟨missing, many⟩
    rcases routed with named | single
    · exact named missing
    · exact many single
  rw [create, if_neg issued, if_neg some, if_neg zero, if_neg (by omega)]

/-- Append one event while there is room. -/
theorem append_ok {builder : EventBatchBuilder} {payload : EventPayload}
    (unfinished : builder.finished = false) (sound : builder.error = none)
    (room : builder.events.length < builder.slots)
    (routed : builder.instrumentId ≠ 0 ∨ (builder.slots = 1 ∧ payload.isRejected = true)) :
    builder.append payload = ({ builder with events := builder.events ++
      [⟨⟨builder.commandSequence, UInt32.ofNat builder.events.length, builder.instrumentId⟩,
        payload⟩] }, none) := by
  have zero : ¬ (builder.instrumentId = 0 ∧
      (builder.slots ≠ 1 ∨ payload.isRejected = false)) := by
    rintro ⟨missing, many | accepting⟩
    · rcases routed with named | ⟨single, -⟩
      · exact named missing
      · exact many single
    · rcases routed with named | ⟨-, refused⟩
      · exact named missing
      · rw [refused] at accepting
        cases accepting
  simp only [append, unfinished, sound, Option.isSome_none, Bool.false_eq_true, ↓reduceIte,
    Nat.ne_of_lt room, if_neg zero]

/-- A builder with more events. -/
def extend (builder : EventBatchBuilder) (payloads : List EventPayload) : EventBatchBuilder :=
  let later := numberEvents builder.commandSequence builder.instrumentId builder.events.length
    payloads
  { builder with events := builder.events ++ later }

/-- Append events while there is room: they are numbered from where the builder stands. -/
theorem appendAll_ok {builder : EventBatchBuilder} (payloads : List EventPayload)
    (unfinished : builder.finished = false) (sound : builder.error = none)
    (room : builder.events.length + payloads.length ≤ builder.slots)
    (routed : builder.instrumentId ≠ 0) :
    builder.appendAll payloads = (builder.extend payloads, none) := by
  induction payloads generalizing builder with
  | nil => simp [appendAll, extend, numberEvents]
  | cons payload rest ih =>
    rw [List.length_cons] at room
    rw [appendAll, append_ok unfinished sound (by omega) (Or.inl routed)]
    simp only
    rw [ih]
    · simp [extend, numberEvents]
    · exact unfinished
    · exact sound
    · simp only [List.length_append, List.length_singleton]
      omega
    · exact routed

/-- Close a batch whose slots are filled with valid events. -/
theorem finish_ok {builder : EventBatchBuilder} (unfinished : builder.finished = false)
    (sound : builder.error = none) (full : builder.events.length = builder.slots)
    (valid : EventBatch.validate builder.events = .ok ()) :
    builder.finish = .ok (.ok ⟨builder.events, valid⟩) := by
  rw [finish, unfinished, sound, EventBatch.construct_of_valid valid]
  simp [full]

end EventBatchBuilder

/-- The batch of a refusal. -/
theorem makeRejection_ok {sequence : Sequence} (issued : sequence ≠ 0) (instrument : InstrumentId)
    (commandType : CommandType) (decision : ValidationDecision) :
    ∃ batch, makeRejection sequence instrument commandType decision = .ok (.ok batch) ∧
      batch.events = numberEvents sequence instrument 0
        [.rejected commandType decision.reason decision.relevantOrderId] := by
  have valid : EventBatch.validate (numberEvents sequence instrument 0
      [.rejected commandType decision.reason decision.relevantOrderId]) = .ok () :=
    numberEvents_valid issued (Or.inr ⟨rfl, rfl⟩) (by simp)
  refine ⟨⟨_, valid⟩, ?_, rfl⟩
  rw [makeRejection, EventBatchBuilder.create_ok issued one_ne_zero (Or.inr rfl) (by omega)]
  simp only [Run.ok_bind]
  rw [EventBatchBuilder.append_ok rfl rfl (by simp) (Or.inr ⟨rfl, rfl⟩)]
  simp only
  rw [EventBatchBuilder.finish_ok rfl rfl rfl valid]
  rfl

/-- The number of events of a report, if it can be indexed. -/
theorem checkedEventCount_eq {fixedCount : Nat} (tradeCount : Nat) (changed : Bool)
    (opened : fixedCount ≠ 0) (small : fixedCount < 2 ^ 32) :
    checkedEventCount fixedCount tradeCount changed =
      if 2 ^ 32 < tradeCount + (fixedCount + if changed then 1 else 0) then none
      else some (tradeCount + (fixedCount + if changed then 1 else 0)) := by
  have bound : fixedCount + (if changed then 1 else 0) ≤ 2 ^ 32 := by
    split_ifs <;> omega
  have some : fixedCount + (if changed then 1 else 0) ≠ 0 := by omega
  rw [checkedEventCount]
  generalize fixedCount + (if changed then 1 else 0) = fixed at bound some
  split_ifs <;> first | rfl | omega

/-- A nonempty report that can be indexed has a batch. -/
theorem numberEvents_batch {sequence : Sequence} {instrument : InstrumentId}
    {payloads : List EventPayload} (issued : sequence ≠ 0) (routed : instrument ≠ 0)
    (nonempty : payloads ≠ []) (indexed : payloads.length ≤ 2 ^ 32) :
    EventBatch.validate (numberEvents sequence instrument 0 payloads) = .ok () := by
  cases payloads with
  | nil => exact absurd rfl nonempty
  | cons first rest => exact numberEvents_valid issued (Or.inl routed) indexed

/-- Building a nonempty report that can be indexed. -/
theorem build_ok {sequence : Sequence} {instrument : InstrumentId} {payloads : List EventPayload}
    (issued : sequence ≠ 0) (routed : instrument ≠ 0) (nonempty : payloads ≠ [])
    (indexed : payloads.length ≤ 2 ^ 32) :
    ∃ filled batch, EventBatchBuilder.create sequence instrument payloads.length =
        .ok ⟨sequence, instrument, payloads.length, [], none, false⟩ ∧
      EventBatchBuilder.appendAll ⟨sequence, instrument, payloads.length, [], none, false⟩
        payloads = (filled, none) ∧
      filled.finish = .ok (.ok batch) ∧
      batch.events = numberEvents sequence instrument 0 payloads := by
  have valid := numberEvents_batch issued routed nonempty indexed
  refine ⟨EventBatchBuilder.extend ⟨sequence, instrument, payloads.length, [], none, false⟩
    payloads, ⟨_, valid⟩, ?_, ?_, ?_, rfl⟩
  · exact EventBatchBuilder.create_ok issued (by simpa using nonempty) (Or.inl routed) indexed
  · exact EventBatchBuilder.appendAll_ok payloads rfl rfl (by simp) routed
  · exact EventBatchBuilder.finish_ok rfl rfl (by simp [EventBatchBuilder.extend]) valid

end AtlasLob
