import AtlasLob.Core.Replay

/-!
# Logged engines

`logged_engine.cpp`: a session writes every command with its outcome to the log before it
publishes the change. A submission prepares the command, appends its record, makes it as durable
as the session asks for and only then commits. A failure to write or to make durable abandons the
preparation and poisons the session, which accepts nothing more.
-/

namespace AtlasLob

/-- What a sink answers to a write: how many of the bytes reached the file, and the failure it
reports, if it reports one instead of that number. -/
structure SinkAnswer where
  appended : Nat
  failure : Option LogIoFailure

/-- `LogSink`: what the sink answers to each of its calls, which are counted from zero. -/
structure LogSink where
  /-- `write`. -/
  write : Nat → List UInt8 → SinkAnswer
  /-- `flush`. -/
  flush : Nat → Option LogIoFailure
  /-- `sync`. -/
  sync : Nat → Option LogIoFailure

/-- What the calls of a sink change. -/
structure SinkState where
  /-- The calls of the sink so far. -/
  calls : Nat
  /-- `position`. -/
  position : Nat
  /-- The bytes of the file. -/
  file : List UInt8

/-- `state_error`. -/
def stateError (offset : Nat) (condition : SystemError) : LogError :=
  ⟨.ioFailure, offset, some condition⟩

/-- `as_log_error` of a failure. -/
def asLogError (failure : LogIoFailure) : LogError :=
  ⟨.ioFailure, failure.offset, some failure.systemError⟩

/-- `write_all`. -/
def writeAll (sink : LogSink) (state : SinkState) (remaining : List UInt8) :
    SinkState × Option LogError :=
  if remaining = [] then (state, none)
  else
    let answer := sink.write state.calls remaining
    let file := state.file ++ remaining.take answer.appended
    match answer.failure with
    | some failure => ({ state with calls := state.calls + 1, file := file },
        some (asLogError failure))
    | none =>
      let written : SinkState := ⟨state.calls + 1, state.position + answer.appended, file⟩
      if unusable : answer.appended = 0 ∨ answer.appended > remaining.length then
        (written, some (stateError written.position .ioError))
      else writeAll sink written (remaining.drop answer.appended)
termination_by remaining.length
decreasing_by
  have usable := not_or.mp unusable
  rw [List.length_drop]
  exact Nat.sub_lt (Nat.lt_of_lt_of_le (Nat.pos_of_ne_zero usable.1) (Nat.not_lt.mp usable.2))
    (Nat.pos_of_ne_zero usable.1)

/-- `Durability`. -/
inductive Durability
  | buffered
  | flushEachRecord
  | syncEachRecord
  deriving DecidableEq, Repr

/-- Flush a sink. -/
def flushSink (sink : LogSink) (state : SinkState) : SinkState × Option LogError :=
  ({ state with calls := state.calls + 1 }, (sink.flush state.calls).map asLogError)

/-- Synchronize a sink. -/
def syncSink (sink : LogSink) (state : SinkState) : SinkState × Option LogError :=
  ({ state with calls := state.calls + 1 }, (sink.sync state.calls).map asLogError)

/-- Flush a sink, then synchronize it. -/
def flushAndSync (sink : LogSink) (state : SinkState) : SinkState × Option LogError :=
  match flushSink sink state with
  | (flushed, some error) => (flushed, some error)
  | (flushed, none) => syncSink sink flushed

/-- `apply_durability`. -/
def applyDurability (sink : LogSink) (state : SinkState) : Durability → SinkState × Option LogError
  | .buffered => (state, none)
  | .flushEachRecord => flushSink sink state
  | .syncEachRecord => flushAndSync sink state

/-- `LoggedEngine::Impl`, with what its sink has written. -/
structure LoggedEngine where
  engine : MultiInstrumentEngine
  sink : SinkState
  logId : LogId
  durability : Durability
  poisoned : Bool

/-- `LoggedSubmissionResult`. -/
structure LoggedSubmissionResult where
  engineResult : Option EngineResult
  error : Option LogError
  sessionPoisoned : Bool
  deriving DecidableEq

/-- `PreparedMultiInstrumentCommand::rejected`. -/
def PreparedMultiInstrumentCommand.rejected (prepared : PreparedMultiInstrumentCommand) : Bool :=
  match prepared.batch with
  | none => false
  | some batch => batch.rejected

/-- The record of a command with its batch. -/
def recordOf (command : Command) (batch : EventBatch) (outcome : RecordOutcome)
    (reason : RejectReason) : CommandRecord where
  recordVersion := commandLogRecordVersion
  command := command
  sequence := batch.commandSequence
  outcome := outcome
  rejectionReason := .ofReason reason
  eventCount := UInt64.ofNat batch.events.length
  eventDigest := eventDigest batch

/-- The record `submit_logged` writes for a batch: a batch that is refused without a first event
that says why has none. -/
def submissionRecord (command : Command) (batch : EventBatch) : Option CommandRecord :=
  if batch.rejected then
    batch.rejectionReason.map fun reason => recordOf command batch .rejected reason
  else some (recordOf command batch .committed .none)

/-- Whether a committed result is the one that was logged. -/
def matchesRecord (result : EngineResult) (record : CommandRecord) : Bool :=
  match result.batch with
  | none => false
  | some batch =>
    batch.commandSequence = record.sequence &&
      UInt64.ofNat batch.events.length = record.eventCount &&
      eventDigest batch = record.eventDigest &&
      batch.rejected = decide (record.outcome = .rejected)

namespace LoggedEngine

section Submission

variable (checks : Bool) (sink : LogSink)

/-- The part of `submit_logged` after the record was written: make it durable and publish. -/
def publishLogged (session : LoggedEngine) (live : MultiInstrumentEngine)
    (prepared : PreparedMultiInstrumentCommand) (record : CommandRecord) (written : SinkState) :
    Run (LoggedEngine × LoggedSubmissionResult) :=
  match applyDurability sink written session.durability with
  | (settled, some error) => do
    let (engine, _) ← live.abandon checks prepared
    return ({ session with engine := engine, sink := settled, poisoned := true },
      ⟨none, some error, true⟩)
  | (settled, none) => do
    let (engine, _, result) ← live.commit checks prepared
    if matchesRecord result record then
      return ({ session with engine := engine, sink := settled }, ⟨some result, none, false⟩)
    else
      return ({ session with engine := engine, sink := settled, poisoned := true },
        ⟨none, some (stateError settled.position .stateNotRecoverable), true⟩)

/-- The part of `submit_logged` that writes the record of a prepared command. -/
def writeLogged (session : LoggedEngine) (live : MultiInstrumentEngine)
    (prepared : PreparedMultiInstrumentCommand) (record : CommandRecord) :
    Run (LoggedEngine × LoggedSubmissionResult) :=
  match encodeCommandRecord record with
  | .error refused => do
    let (engine, _) ← live.abandon checks prepared
    return ({ session with engine := engine }, ⟨none, some refused, false⟩)
  | .ok encoded =>
    match writeAll sink session.sink encoded with
    | (written, some error) => do
      let (engine, _) ← live.abandon checks prepared
      return ({ session with engine := engine, sink := written, poisoned := true },
        ⟨none, some error, true⟩)
    | (written, none) => session.publishLogged checks sink live prepared record written

/-- `submit_logged`. -/
def submit (session : LoggedEngine) (command : Command) :
    Run (LoggedEngine × LoggedSubmissionResult) := do
  if session.poisoned then
    return (session, ⟨none, some (stateError session.sink.position .stateNotRecoverable), true⟩)
  let (live, prepared) ← session.engine.prepareState checks command
  match prepared.batch with
  | none =>
    let (engine, _, result) ← live.commit checks prepared
    return ({ session with engine := engine }, ⟨some result, none, false⟩)
  | some batch =>
    match submissionRecord command batch with
    | none =>
      let (engine, _) ← live.abandon checks prepared
      return ({ session with engine := engine },
        ⟨none, some (stateError session.sink.position .stateNotRecoverable), false⟩)
    | some record => session.writeLogged checks sink live prepared record

end Submission

/-- `LoggedEngine::synchronize`, without the hook of the tests. -/
def synchronize (sink : LogSink) (session : LoggedEngine) : LoggedEngine × Option LogError :=
  if session.poisoned then
    (session, some (stateError session.sink.position .stateNotRecoverable))
  else
    match flushAndSync sink session.sink with
    | (settled, some error) => ({ session with sink := settled, poisoned := true }, some error)
    | (settled, none) => ({ session with sink := settled }, none)

/-- `LoggedEngine::create_new`, over a file that does not exist yet: a session with its header
written, or why there is none. A session that cannot write its header removes the file. -/
def createNew (sink : LogSink) (catalog : List InstrumentConfig)
    (config : MultiInstrumentEngineConfig) (logId : LogId) (durability : Durability) :
    Run (Except LogError LoggedEngine) := do
  let engine ← MultiInstrumentEngine.create catalog config
  let snapshot ← engine.snapshot
  match makeLogHeader snapshot.catalog snapshot.engineConfig logId with
  | .error refused => return .error refused
  | .ok header =>
    match encodeLogHeader header with
    | .error refused => return .error refused
    | .ok encoded =>
      match writeAll sink ⟨0, 0, []⟩ encoded with
      | (_, some error) => return .error error
      | (written, none) =>
        match applyDurability sink written durability with
        | (_, some error) => return .error error
        | (settled, none) => return .ok ⟨engine, settled, logId, durability, false⟩

/-- `LoggedEngine::recover`, over a source of the file and the file to append to. The append sink
is opened only if the file still has the extent that was replayed. -/
def recover (checks : Bool) (source : LogSource) (file : List UInt8) (options : ReplayOptions)
    (durability : Durability) (calls : Nat) :
    Run (Option LoggedEngine × ReplayReport × Option (List Event)) := do
  if options.collectTrades && !options.valid then
    .error (.invalidArgument
      "trade collection requires strict verified recovery and a positive collection limit")
  let recovered ← replayLogSource checks source options calls
  match recovered.engine, recovered.report.header with
  | some engine, some header =>
    if recovered.report.tail = .clean then
      if file.length = recovered.report.validEndOffset then
        return (some ⟨engine, ⟨0, recovered.report.validEndOffset, file⟩, header.logId, durability,
          false⟩, recovered.report, recovered.recoveredTrades)
      else return (none, { recovered.report with
        error := some ⟨.ioFailure, file.length, some .stateNotRecoverable⟩ }, none)
    else return (none, recovered.report, none)
  | _, _ => return (none, recovered.report, none)

end LoggedEngine

end AtlasLob
