import AtlasLob.Core.LoggedEngine
import AtlasLob.Spec.CommandLog
import AtlasLob.Spec.Scheduling

/-!
# Logged markets

What a log says about a market: every record holds a command the market replied to with events,
and the evidence of those events. A market leads along a list of records to the market after
their commands. The records it leads along can be logged and are numbered from the market's next
sequence on, so that from an opening market they are the records of a command log.
-/

namespace AtlasLob

open Binary

namespace EventBatch

/-- Headers that count up to an index stay below the number of indices. -/
theorem length_of_headersMatch {sequence : Sequence} {instrument : InstrumentId}
    {events : List Event} {index : Nat} (bounded : index ≤ 2 ^ 32)
    (counted : headersMatch sequence instrument index events = .ok ()) :
    index + events.length ≤ 2 ^ 32 := by
  induction events generalizing index with
  | nil => exact bounded
  | cons event rest ih =>
    have small := event.header.eventIndex.toNat_lt
    unfold headersMatch at counted
    split_ifs at counted with differs foreign skipped
    rw [not_not] at skipped
    have later := ih (by omega) counted
    rw [List.length_cons]
    omega

/-- A batch has a first event and no more events than indices. -/
theorem events_shape (batch : EventBatch) :
    (∃ first rest, batch.events = first :: rest ∧ first.header.commandSequence ≠ 0) ∧
      batch.events.length ≤ 2 ^ 32 := by
  have valid := batch.valid
  cases shape : batch.events with
  | nil =>
    rw [shape] at valid
    cases valid
  | cons first rest =>
    rw [shape, validate] at valid
    split_ifs at valid with unsequenced foreign
    exact ⟨⟨first, rest, rfl, unsequenced⟩, by
      have counted := length_of_headersMatch (by omega) valid
      omega⟩

/-- The number of events of a batch is a positive word. -/
theorem eventCount_ne_zero (batch : EventBatch) : UInt64.ofNat batch.events.length ≠ 0 := by
  obtain ⟨⟨first, rest, shape, _⟩, bounded⟩ := batch.events_shape
  intro none
  have value := congrArg UInt64.toNat none
  rw [UInt64.toNat_ofNat_of_lt' (by unfold UInt64.size; omega), shape] at value
  cases value

end EventBatch

/-- A rejection with an order ID refuses if it has a reason. -/
theorem ValidationDecision.reject_refuses {reason : RejectReason} {orderId : OrderId}
    (concrete : reason ≠ .none) : (ValidationDecision.reject reason orderId).accepted = false := by
  simp [ValidationDecision.reject, ValidationDecision.accepted, concrete]

namespace Market

/-- An aggressor is refused for its capacity. -/
theorem judgeAggressor_refuses {market : Market} {desk : Desk} {order : NewOrder}
    {replaced : Option OrderNodeSpec} {opening : List EventPayload}
    {decision : ValidationDecision}
    (judged : market.judgeAggressor desk order replaced opening = .refuse decision) :
    decision.accepted = false := by
  simp only [judgeAggressor] at judged
  split_ifs at judged
  cases judged
  exact ValidationDecision.reject_refuses (by decide)

/-- A refusal has a reason. -/
theorem judge_refuses {market : Market} {command : Command} {decision : ValidationDecision}
    (judged : market.judge command = .refuse decision) : decision.accepted = false := by
  unfold judge at judged
  split_ifs at judged with shaped
  · cases judged
    exact Bool.not_eq_true' _ ▸ shaped
  cases found : market.desk command.instrumentId with
  | none =>
    simp only [found] at judged
    cases judged
    exact ValidationDecision.reject_refuses (by decide)
  | some desk =>
    simp only [found, judgeAt] at judged
    split_ifs at judged with admitted
    · cases judged
      exact Bool.not_eq_true' _ ▸ admitted
    cases command with
    | newOrder order =>
      simp only [judgeAdmitted] at judged
      exact judgeAggressor_refuses judged
    | cancel order =>
      simp only [judgeAdmitted] at judged
      cases resting : desk.ladder.find order.orderId with
      | none =>
        rw [resting] at judged
        cases judged
        exact ValidationDecision.reject_refuses (by decide)
      | some old =>
        rw [resting] at judged
        cases judged
    | replace order =>
      simp only [judgeAdmitted] at judged
      cases resting : desk.ladder.find order.oldOrderId with
      | none =>
        rw [resting] at judged
        cases judged
        exact ValidationDecision.reject_refuses (by decide)
      | some old =>
        rw [resting] at judged
        exact judgeAggressor_refuses judged

/-- An accepted aggressor reports what it opens with first. -/
theorem judgeAggressor_opens {market : Market} {desk : Desk} {order : NewOrder}
    {replaced : Option OrderNodeSpec} {first : EventPayload} {opening later : List EventPayload}
    {ladder : Ladder} {report : List EventPayload} (opens : opening = first :: later)
    (judged : market.judgeAggressor desk order replaced opening = .accept ladder report) :
    ∃ rest, report = first :: rest := by
  simp only [judgeAggressor] at judged
  split_ifs at judged
  obtain ⟨_, rfl⟩ := Verdict.accept.inj judged
  rw [opens]
  exact ⟨_, rfl⟩

/-- An acceptance says so first. -/
theorem judge_accepts {market : Market} {command : Command} {ladder : Ladder}
    {report : List EventPayload} (judged : market.judge command = .accept ladder report) :
    ∃ type rest, report = .accepted type :: rest := by
  unfold judge at judged
  split_ifs at judged with shaped
  cases found : market.desk command.instrumentId with
  | none =>
    simp only [found] at judged
    cases judged
  | some desk =>
    simp only [found, judgeAt] at judged
    split_ifs at judged with admitted
    cases command with
    | newOrder order =>
      simp only [judgeAdmitted] at judged
      exact ⟨.newOrder, judgeAggressor_opens rfl judged⟩
    | cancel order =>
      simp only [judgeAdmitted] at judged
      cases resting : desk.ladder.find order.orderId with
      | none =>
        rw [resting] at judged
        cases judged
      | some old =>
        rw [resting] at judged
        obtain ⟨_, rfl⟩ := Verdict.accept.inj judged
        exact ⟨_, _, rfl⟩
    | replace order =>
      simp only [judgeAdmitted] at judged
      cases resting : desk.ladder.find order.oldOrderId with
      | none =>
        rw [resting] at judged
        cases judged
      | some old =>
        rw [resting] at judged
        exact ⟨.replace, judgeAggressor_opens rfl judged⟩

/-- The events of a reply: an acceptance with what follows from it, or a refusal alone, which has
a reason. -/
theorem step_shape {market : Market} {command : Command} {events : List Event}
    (replied : (market.step command).2 = .ok events) :
    ∃ payload rest, events = numberEvents market.sequencer.nextSequence command.instrumentId 0
        (payload :: rest) ∧
      ((∃ type, payload = .accepted type) ∨
        ∃ type reason orderId, payload = .rejected type reason orderId ∧ reason ≠ .none) := by
  unfold step at replied
  split_ifs at replied
  cases judged : market.judge command with
  | refuse decision =>
    simp only [judged, Except.ok.injEq] at replied
    have refuses := judge_refuses judged
    exact ⟨_, [], replied.symm, .inr ⟨_, _, _, rfl, of_decide_eq_false refuses⟩⟩
  | accept ladder report =>
    obtain ⟨type, rest, rfl⟩ := judge_accepts judged
    simp only [judged] at replied
    split_ifs at replied
    simp only [Except.ok.injEq] at replied
    exact ⟨_, rest, replied.symm, .inl ⟨type, rfl⟩⟩

end Market

/-- A reason other than none can be logged. -/
theorem RecordReason.ofReason_isValid {reason : RejectReason} (concrete : reason ≠ .none) :
    (RecordReason.ofReason reason).isValid = true := by
  cases reason
  all_goals first
    | exact absurd rfl concrete
    | decide

/-- The market replied to a command with a batch, whose record is this one. -/
structure Records (market : Market) (command : Command) (batch : EventBatch)
    (record : CommandRecord) : Prop where
  replied : (market.step command).2 = .ok batch.events
  recorded : submissionRecord command batch = some record

/-- Every reply has a record; it can be logged, holds the command and carries the sequence the
market issued. -/
theorem Market.records_of_reply {market : Market} {command : Command} {batch : EventBatch}
    (replied : (market.step command).2 = .ok batch.events) :
    ∃ record, Records market command batch record ∧ record.Valid ∧ record.command = command ∧
      record.sequence = market.sequencer.nextSequence := by
  obtain ⟨payload, rest, shape, kind⟩ := step_shape replied
  obtain ⟨⟨first, later, begins, issued⟩, _⟩ := batch.events_shape
  rw [shape, numberEvents] at begins
  obtain ⟨rfl, rfl⟩ := List.cons.inj begins
  have sequence : batch.commandSequence = market.sequencer.nextSequence := by
    rw [EventBatch.commandSequence, shape, numberEvents]
    rfl
  have recordValid {outcome : RecordOutcome} {reason : RejectReason}
      (named : outcome.isValid = true)
      (fits : outcomeMatches outcome (.ofReason reason) = true) :
      (recordOf command batch outcome reason).Valid := by
    refine ⟨rfl, ?_, batch.eventCount_ne_zero, named, fits⟩
    show batch.commandSequence ≠ 0
    rw [sequence]
    exact issued
  rcases kind with ⟨type, rfl⟩ | ⟨type, reason, orderId, rfl, concrete⟩
  · have kept : batch.rejected = false := by
      rw [EventBatch.rejected, shape, numberEvents]
      rfl
    refine ⟨recordOf command batch .committed .none, ⟨replied, ?_⟩, recordValid rfl rfl, rfl,
      sequence⟩
    rw [submissionRecord, kept]
    rfl
  · have refused : batch.rejected = true := by
      rw [EventBatch.rejected, shape, numberEvents]
      rfl
    have because : batch.rejectionReason = some reason := by
      rw [EventBatch.rejectionReason, shape, numberEvents]
    refine ⟨recordOf command batch .rejected reason, ⟨replied, ?_⟩, recordValid rfl ?_, rfl,
      sequence⟩
    · rw [submissionRecord, refused, because]
      rfl
    · rw [outcomeMatches, RecordReason.ofReason_isValid concrete]
      rfl

/-- A market leads along records: each is the record of a command it replied to. -/
inductive Market.Logs : Market → List CommandRecord → Market → Prop
  /-- Nothing was logged. -/
  | still (market : Market) : Logs market [] market
  /-- One command and what was logged after it. -/
  | step {market last : Market} {command : Command} {batch : EventBatch} {record : CommandRecord}
      {records : List CommandRecord} (first : Records market command batch record)
      (rest : Logs (market.step command).1 records last) : Logs market (record :: records) last

/-- The record of a reply is the only one. -/
theorem Records.facts {market : Market} {command : Command} {batch : EventBatch}
    {record : CommandRecord} (kept : Records market command batch record) :
    record.Valid ∧ record.command = command ∧
      record.sequence = market.sequencer.nextSequence := by
  obtain ⟨other, same, facts⟩ := Market.records_of_reply kept.replied
  rw [Option.some.inj (kept.recorded.symm.trans same.recorded)]
  exact facts

namespace Market.Logs

variable {market middle last : Market} {records later : List CommandRecord}

/-- What was logged before and after. -/
theorem append (before : Logs market records middle) (after : Logs middle later last) :
    Logs market (records ++ later) last := by
  induction before with
  | still => exact after
  | step first _ ih => exact .step first (ih after)

/-- A log falls apart at every record. -/
theorem split (logs : Logs market (records ++ later) last) :
    ∃ middle, Logs market records middle ∧ Logs middle later last := by
  induction records generalizing market with
  | nil => exact ⟨market, .still market, logs⟩
  | cons record rest ih =>
    cases logs with
    | step first tail =>
      obtain ⟨middle, before, after⟩ := ih tail
      exact ⟨middle, .step first before, after⟩

/-- A market leads along the records of its commands to the market after them. -/
theorem run (logs : Logs market records last) :
    (market.run (records.map CommandRecord.command)).1 = last := by
  induction logs with
  | still => rfl
  | step first _ ih =>
    rw [List.map_cons, first.facts.2.1]
    exact ih

/-- Every record can be logged. -/
theorem logged (logs : Logs market records last) : ∀ record ∈ records, record.Valid := by
  induction logs with
  | still => simp
  | step first _ ih => exact List.forall_mem_cons.mpr ⟨first.facts.1, ih⟩

/-- A market that still logs has a sequence left. -/
theorem unspent {record : CommandRecord} (logs : Logs market (record :: records) last) :
    market.sequencer.exhausted = false := by
  cases logs with
  | step first _ =>
    have replied := first.replied
    unfold Market.step at replied
    cases spent : market.sequencer.exhausted with
    | false => rfl
    | true =>
      rw [if_pos spent] at replied
      cases replied

/-- The records are numbered from the next sequence on. -/
theorem sequenced (logs : Logs market records last) {index : Nat} {record : CommandRecord}
    (found : records[index]? = some record) :
    record.sequence.toNat = market.sequencer.nextSequence.toNat + index := by
  induction logs generalizing index with
  | still => cases found
  | @step market last command batch first records kept rest ih =>
    cases index with
    | zero =>
      rw [List.getElem?_cons_zero, Option.some_inj] at found
      rw [← found, kept.facts.2.2]
      rfl
    | succ index =>
      rw [List.getElem?_cons_succ] at found
      have before := (Logs.step kept rest).unspent
      have after : (market.step command).1.sequencer.exhausted = false := by
        cases records with
        | nil => cases found
        | cons next tail => exact rest.unspent
      have next := step_next before after
      rw [kept.replied] at next
      rw [ih found, next]
      show _ + 1 + index = _ + (index + 1)
      omega

end Market.Logs

/-- The log of a header and the records an opening market leads along. -/
def CommandLog.ofLogs {header : LogHeader} (headed : header.Valid)
    {catalog : List InstrumentConfig} {config : MultiInstrumentEngineConfig}
    {records : List CommandRecord} {last : Market}
    (logs : (Market.opening catalog config).Logs records last) : CommandLog where
  header := header
  records := records
  headed := headed
  logged := logs.logged
  numbered := by
    intro index record found
    rw [logs.sequenced found, Nat.add_comm]
    rfl

/-- The market a header describes, before its first command. -/
def LogHeader.market (header : LogHeader) : Market :=
  .opening (header.catalog.map PersistedInstrumentConfig.config)
    ⟨header.engineConfig.maxTotalActiveOrders⟩

/-- Commands that are all replied to with events are logged. -/
theorem Market.logs_of_run {market : Market} {commands : List Command}
    (replied : ∀ reply ∈ (market.run commands).2, ∃ batch : EventBatch, reply = .ok batch.events) :
    ∃ records, market.Logs records (market.run commands).1 ∧
      records.map CommandRecord.command = commands := by
  induction commands generalizing market with
  | nil => exact ⟨[], .still market, rfl⟩
  | cons command rest ih =>
    obtain ⟨batch, first⟩ := replied _ List.mem_cons_self
    obtain ⟨record, kept, _, named, _⟩ := records_of_reply first
    obtain ⟨records, logs, others⟩ := @ih (market.step command).1
      fun reply inside => replied reply (List.mem_cons_of_mem _ inside)
    exact ⟨record :: records, .step kept logs, by rw [List.map_cons, named, others]⟩

/-- They make up a log of every header of the market. -/
theorem CommandLog.exists_of_run {header : LogHeader} (headed : header.Valid)
    {commands : List Command} (replied : ∀ reply ∈ (header.market.run commands).2,
      ∃ batch : EventBatch, reply = .ok batch.events) :
    ∃ log : CommandLog, log.header = header ∧ log.commands = commands ∧
      header.market.Logs log.records (header.market.run commands).1 := by
  obtain ⟨records, logs, named⟩ := Market.logs_of_run replied
  exact ⟨.ofLogs headed logs, rfl, named, logs⟩

namespace Market

/-- A run of two lists of commands is one run after the other. -/
theorem run_append (market : Market) (first second : List Command) :
    market.run (first ++ second) = (((market.run first).1.run second).1,
      (market.run first).2 ++ ((market.run first).1.run second).2) := by
  induction first generalizing market with
  | nil => rfl
  | cons command rest ih =>
    rw [List.cons_append, run, run, ih]
    rfl

/-- The records carry the sequences the market issues next. -/
def Expects (market : Market) (records : List CommandRecord) : Prop :=
  ∀ index record, records[index]? = some record →
    record.sequence.toNat = market.sequencer.nextSequence.toNat + index

/-- The first expected record carries the next sequence. -/
theorem Expects.head {market : Market} {record : CommandRecord} {rest : List CommandRecord}
    (expects : market.Expects (record :: rest)) :
    record.sequence = market.sequencer.nextSequence := by
  apply UInt64.toNat_inj.mp
  exact expects 0 record rfl

/-- After a reply to the first record the others are expected. -/
theorem Expects.tail {market : Market} {record : CommandRecord} {rest : List CommandRecord}
    {command : Command} {events : List Event} (expects : market.Expects (record :: rest))
    (replied : (market.step command).2 = .ok events) :
    (market.step command).1.Expects rest := by
  intro index next found
  have numbered := expects (index + 1) next found
  have small := next.sequence.toNat_lt
  have unspent : market.sequencer.exhausted = false := by
    unfold Market.step at replied
    cases spent : market.sequencer.exhausted with
    | false => rfl
    | true =>
      rw [if_pos spent] at replied
      cases replied
  have below : market.sequencer.nextSequence ≠ Word.max64 := by
    intro last
    have top : Word.max64.toNat = 2 ^ 64 - 1 := by decide
    rw [last] at numbered
    omega
  have later : (market.step command).1.sequencer.exhausted = false := by
    rw [step_sequencer, replied]
    show market.sequencer.issue.1.exhausted = false
    rw [CommandSequencer.issue, unspent, if_neg (by decide), if_neg below]
  have counted := step_next unspent later
  rw [replied] at counted
  rw [numbered, counted]
  show _ = _ + 1 + index
  omega

/-- What a mode of replay asks of one record: the market answers its command with events, and
where the mode compares, this is the record of that answer. -/
def ConfirmsRecord (mode : ReplayMode) (market : Market) (record : CommandRecord) : Prop :=
  ∃ events, (market.step record.command).2 = .ok events ∧
    (mode = .fast ∨ ∃ batch : EventBatch, batch.events = events ∧
      submissionRecord record.command batch = some record)

/-- What a mode of replay asks of the records of a market. -/
def Confirms (mode : ReplayMode) : Market → List CommandRecord → Prop
  | _, [] => True
  | market, record :: rest => market.ConfirmsRecord mode record ∧
      Confirms mode (market.step record.command).1 rest

/-- Every mode accepts what the market logs. -/
theorem Logs.confirms {market last : Market} {records : List CommandRecord}
    (logs : market.Logs records last) (mode : ReplayMode) : market.Confirms mode records := by
  induction logs with
  | still => trivial
  | @step market last command batch record records first rest ih =>
    obtain rfl := first.facts.2.1
    exact ⟨⟨batch.events, first.replied, .inr ⟨batch, rfl, first.recorded⟩⟩, ih⟩

/-- The modes that compare accept exactly what the market logs. -/
theorem confirms_iff_logs {mode : ReplayMode} (compares : mode ≠ .fast) {market : Market}
    {records : List CommandRecord} :
    market.Confirms mode records ↔
      market.Logs records (market.run (records.map CommandRecord.command)).1 := by
  constructor
  · intro confirms
    induction records generalizing market with
    | nil => exact .still market
    | cons record rest ih =>
      obtain ⟨⟨events, replied, evidence⟩, later⟩ := confirms
      rcases evidence with unchecked | ⟨batch, rfl, recorded⟩
      · exact absurd unchecked compares
      · exact .step ⟨replied, recorded⟩ (ih later)
  · intro logs
    exact logs.confirms mode

end Market

/-- A log is expected by every market of a header. -/
theorem CommandLog.expected (log : CommandLog) (header : LogHeader) :
    header.market.Expects log.records := by
  intro index record found
  rw [log.numbered index record found, Nat.add_comm]
  rfl

end AtlasLob
