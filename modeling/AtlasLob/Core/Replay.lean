import AtlasLob.Core.LogScanner
import AtlasLob.Core.CanonicalDigest

/-!
# Replay

`replay.cpp`: a log is scanned twice. The first pass validates its bytes; the second pass
executes every record on a fresh engine and compares what comes of it with what was logged. The
engine is handed out only when both passes saw the same bytes, nothing diverged and the engine
passes its own audit.
-/

namespace AtlasLob

/-- `ReplayMode`. -/
inductive ReplayMode
  | fast
  | verify
  | diagnostic
  deriving DecidableEq, Repr

/-- `TailPolicy`. -/
inductive TailPolicy
  | strict
  | validPrefix
  deriving DecidableEq, Repr

/-- `ReplayTail`. -/
inductive ReplayTail
  | clean
  | torn
  | unknown
  deriving DecidableEq, Repr

/-- `ReplayOptions`. -/
structure ReplayOptions where
  mode : ReplayMode
  tailPolicy : TailPolicy
  invariantInterval : Nat
  collectTrades : Bool
  maxRecoveredTrades : Nat
  deriving DecidableEq, Repr

/-- `ReplayOptions::valid`. -/
def ReplayOptions.valid (options : ReplayOptions) : Bool :=
  options.invariantInterval ≠ 0 &&
    (!options.collectTrades || (options.mode = .verify && options.tailPolicy = .strict &&
      options.maxRecoveredTrades ≠ 0))

/-- `ReplayDivergenceCategory`. -/
inductive ReplayDivergenceCategory
  | engineError
  | outcome
  | rejectionReason
  | eventCount
  | eventDigest
  | invariant
  deriving DecidableEq, Repr

/-- `ReplayEvidenceSummary`. -/
structure ReplayEvidenceSummary where
  outcome : Option RecordOutcome
  rejectionReason : Option RecordReason
  eventCount : Option UInt64
  eventDigest : Option Digest256
  deriving DecidableEq

namespace ReplayEvidenceSummary

/-- No evidence. -/
def empty : ReplayEvidenceSummary := ⟨none, none, none, none⟩

/-- `expected_summary`. -/
def expected (record : CommandRecord) : ReplayEvidenceSummary where
  outcome := some record.outcome
  rejectionReason := some record.rejectionReason
  eventCount := some record.eventCount
  eventDigest := some record.eventDigest

end ReplayEvidenceSummary

/-- The reason of a batch that reports a refusal first. -/
def EventBatch.rejectionReason (batch : EventBatch) : Option RejectReason :=
  match batch.events with
  | [] => none
  | first :: _ =>
    match first.payload with
    | .rejected _ reason _ => some reason
    | _ => none

/-- The evidence of a batch. -/
def EventBatch.summary (batch : EventBatch) (outcome : RecordOutcome) (reason : RejectReason) :
    ReplayEvidenceSummary where
  outcome := some outcome
  rejectionReason := some (.ofReason reason)
  eventCount := some (UInt64.ofNat batch.events.length)
  eventDigest := some (AtlasLob.eventDigest batch)

/-- `actual_summary`. -/
def ReplayEvidenceSummary.actual (result : EngineResult) : ReplayEvidenceSummary :=
  match result.batch with
  | none => .empty
  | some batch =>
    if batch.rejected then
      match batch.rejectionReason with
      | none => .empty
      | some reason => batch.summary .rejected reason
    else batch.summary .committed .none

/-- `first_difference`. -/
def firstDifference (expected actual : ReplayEvidenceSummary) : Option ReplayDivergenceCategory :=
  if actual.outcome = none then some .engineError
  else if expected.outcome ≠ actual.outcome then some .outcome
  else if expected.rejectionReason ≠ actual.rejectionReason then some .rejectionReason
  else if expected.eventCount ≠ actual.eventCount then some .eventCount
  else if expected.eventDigest ≠ actual.eventDigest then some .eventDigest
  else none

/-- `ReplayDivergence`. -/
structure ReplayDivergence where
  recordOffset : Nat
  sequence : Sequence
  category : ReplayDivergenceCategory
  command : Option Command
  expected : ReplayEvidenceSummary
  actual : ReplayEvidenceSummary
  actualEngineError : Option EngineError
  actualEvents : List Event
  deriving DecidableEq

/-- `EngineResult::error`. -/
def EngineResult.error : EngineResult → Option EngineError
  | success _ => none
  | failure error => some error

/-- Whether an event reports a trade. -/
def Event.isTrade (event : Event) : Bool :=
  match event.payload with
  | .trade .. => true
  | _ => false

/-- What `ReplayVisitor` changes: the engine, its evidence and the trades collected. -/
structure ReplayEvidence where
  engine : MultiInstrumentEngine
  recordsReplayed : Nat
  committed : Nat
  rejected : Nat
  divergence : Option ReplayDivergence
  error : Option LogError
  trades : Option (List Event)

/-- `std::errc::value_too_large`, by its number on the host. -/
def valueTooLarge : SystemError := .other 75

/-- The loop of `ReplayVisitor::on_record` over the events of a record: every trade is collected
until the limit is passed. -/
def collectTrades (limit frameBegin : Nat) : List Event → List Event → List Event × Option LogError
  | trades, [] => (trades, none)
  | trades, event :: rest =>
    if event.isTrade then
      if trades.length ≥ limit then
        (trades, some ⟨.excessiveLength, frameBegin, some valueTooLarge⟩)
      else collectTrades limit frameBegin (trades ++ [event]) rest
    else collectTrades limit frameBegin trades rest

section Visitor

variable (checks : Bool) (options : ReplayOptions) (startOffset : Nat)

/-- The count of outcomes at the front of `ReplayVisitor::on_record`. -/
def ReplayEvidence.count (evidence : ReplayEvidence) (record : CommandRecord) : ReplayEvidence :=
  if record.outcome = .committed then { evidence with committed := evidence.committed + 1 }
  else { evidence with rejected := evidence.rejected + 1 }

/-- The difference `ReplayVisitor::on_record` finds before it audits the engine. -/
def replayDifference (record : CommandRecord) (result : EngineResult) :
    Option ReplayDivergenceCategory :=
  if result.error ≠ none ∨ (ReplayEvidenceSummary.actual result).outcome = none then
    some .engineError
  else if options.mode ≠ .fast then
    firstDifference (.expected record) (.actual result)
  else none

/-- Whether `ReplayVisitor::on_record` audits the engine after a number of records. -/
def auditsAfter (recordsReplayed : Nat) : Bool :=
  options.mode = .diagnostic ||
    (options.mode = .verify && recordsReplayed % options.invariantInterval = 0)

/-- The end of `ReplayVisitor::on_record`: report a divergence, or collect the trades. -/
def ReplayEvidence.settle (evidence : ReplayEvidence) (record : CommandRecord)
    (result : EngineResult) (frameBegin : Nat) :
    Option ReplayDivergenceCategory → ReplayEvidence
  | some category =>
    { evidence with
      divergence := some
        { recordOffset := frameBegin
          sequence := record.sequence
          category := category
          command := some record.command
          expected := .expected record
          actual := .actual result
          actualEngineError := result.error
          actualEvents := (result.batch.map EventBatch.events).getD [] } }
  | none =>
    match evidence.trades with
    | none => evidence
    | some trades =>
      let collected := collectTrades options.maxRecoveredTrades frameBegin trades
        ((result.batch.map EventBatch.events).getD [])
      { evidence with trades := some collected.1, error := collected.2 }

/-- `ReplayVisitor::on_record`. -/
def onRecord (evidence : ReplayEvidence) (record : CommandRecord) (frameBegin : Nat) :
    Run ReplayEvidence := do
  let counted := evidence.count record
  if frameBegin < startOffset then return counted
  if counted.divergence.isSome || counted.error.isSome then return counted
  let (engine, result) ← counted.engine.execute checks record.command
  let replayed := { counted with engine := engine, recordsReplayed := counted.recordsReplayed + 1 }
  match replayDifference options record result with
  | some category =>
    return replayed.settle options record result frameBegin (some category)
  | none =>
    if auditsAfter options replayed.recordsReplayed then
      if ← replayed.engine.validateInvariants then
        return replayed.settle options record result frameBegin none
      else return replayed.settle options record result frameBegin (some .invariant)
    else return replayed.settle options record result frameBegin none

/-- The visits of a scan, delivered to the visitor one after another. -/
def replayVisits : ReplayEvidence → List LogVisit → Run ReplayEvidence
  | evidence, [] => .ok evidence
  | evidence, .header _ _ :: rest => replayVisits evidence rest
  | evidence, .record record _ frameBegin _ :: rest => do
    let next ← onRecord checks options startOffset evidence record frameBegin
    replayVisits next rest

end Visitor

/-- `replay_tail`. -/
def replayTail : LogScanTermination → ReplayTail
  | .cleanEof => .clean
  | .truncatedTail => .torn
  | .corruption => .unknown
  | .ioFailure => .unknown

/-- `same_source`. -/
def sameSource (first second : LogScanResult) : Bool :=
  first.validPrefixDigest.isSome && second.validPrefixDigest.isSome &&
    second.sourceExtent = first.sourceExtent && second.headerEndOffset = first.headerEndOffset &&
    second.validEndOffset = first.validEndOffset && second.recordCount = first.recordCount &&
    second.lastSequence = first.lastSequence && second.nextSequence = first.nextSequence &&
    second.termination = first.termination &&
    second.validPrefixDigest = first.validPrefixDigest

/-- `ReplayPassResult`. -/
structure ReplayPassResult where
  scan : LogScanResult
  evidence : ReplayEvidence

/-- The options of the scans of a replay, with `default_log_io_chunk_bytes`. -/
def replayScanOptions : LogScanOptions := ⟨64 * 1024⟩

/-- `execute_replay_pass`, from a number of calls on. The scan does not depend on its visitor, so
that the visits are delivered after it. -/
def executeReplayPass (checks : Bool) (source : LogSource) (engine : MultiInstrumentEngine)
    (options : ReplayOptions) (startOffset calls : Nat) : Run ReplayPassResult := do
  let (scan, state) := scanCommandLog source replayScanOptions calls
  let evidence ← replayVisits checks options startOffset
    ⟨engine, 0, 0, 0, none, none, if options.collectTrades then some [] else none⟩ state.visits
  return ⟨scan, evidence⟩

/-- `ReplayReport`. -/
structure ReplayReport where
  mode : ReplayMode
  tailPolicy : TailPolicy
  tail : ReplayTail
  header : Option LogHeader
  lastSequence : Option Sequence
  validEndOffset : Nat
  recordsScanned : Nat
  recordsReplayed : Nat
  committed : Nat
  rejected : Nat
  usedValidPrefix : Bool
  warning : Option LogError
  error : Option LogError
  divergence : Option ReplayDivergence
  finalStateDigest : Option Digest256
  deriving DecidableEq

/-- The report before anything is replayed. -/
def ReplayReport.initial (options : ReplayOptions) : ReplayReport :=
  ⟨options.mode, options.tailPolicy, .unknown, none, none, 0, 0, 0, 0, 0, false, none, none, none,
    none⟩

/-- `ReplayResult`. -/
structure ReplayResult where
  engine : Option MultiInstrumentEngine
  report : ReplayReport
  recoveredTrades : Option (List Event)

/-- No engine, with a report. -/
def ReplayResult.refused (report : ReplayReport) : ReplayResult := ⟨none, report, none⟩

/-- The report of a scan, before it is replayed. -/
def ReplayReport.ofScan (options : ReplayOptions) (scan : LogScanResult) : ReplayReport :=
  { ReplayReport.initial options with
    tail := replayTail scan.termination
    header := scan.header
    lastSequence := scan.lastSequence
    validEndOffset := scan.validEndOffset
    recordsScanned := scan.recordCount }

/-- The report of the replay of a scan. -/
def ReplayReport.withEvidence (report : ReplayReport) (evidence : ReplayEvidence) : ReplayReport :=
  { report with
    recordsReplayed := evidence.recordsReplayed
    committed := evidence.committed
    rejected := evidence.rejected
    divergence := evidence.divergence
    error := evidence.error }

/-- The report of an engine that fails its audit at the end. -/
def ReplayReport.unsound (report : ReplayReport) : ReplayReport :=
  { report with
    divergence := some
      { recordOffset := report.validEndOffset
        sequence := report.lastSequence.getD 0
        category := .invariant
        command := none
        expected := .empty
        actual := .empty
        actualEngineError := none
        actualEvents := [] } }

/-- The end of `replay_validated_log_source`: hand out the engine of a pass over the same source
without divergence. -/
def publishReplay (report : ReplayReport) (firstScan : LogScanResult) (pass : ReplayPassResult) :
    Run ReplayResult := do
  if sameSource firstScan pass.scan = false then
    return .refused { report with
      error := some ⟨.ioFailure, pass.scan.validEndOffset, some .stateNotRecoverable⟩ }
  if pass.scan.termination = .ioFailure ∨ pass.scan.termination = .corruption then
    return .refused { report with error := pass.scan.error }
  let replayed := report.withEvidence pass.evidence
  if replayed.error.isSome then return .refused replayed
  if replayed.divergence.isSome then return .refused replayed
  if !(← pass.evidence.engine.validateInvariants) then return .refused replayed.unsound
  let snapshot ← pass.evidence.engine.snapshot
  return ⟨some pass.evidence.engine,
    { replayed with finalStateDigest := some (stateDigest snapshot) }, pass.evidence.trades⟩

/-- `replay_validated_log_source`, from a number of calls on. -/
def replayValidatedLogSource (checks : Bool) (source : LogSource) (firstScan : LogScanResult)
    (options : ReplayOptions) (calls : Nat) : Run ReplayResult := do
  if options.valid = false then
    return .refused { ReplayReport.initial options with
      error := some ⟨.invalidLength, 0, some .invalidArgument⟩ }
  let report := ReplayReport.ofScan options firstScan
  if firstScan.termination = .ioFailure ∨ firstScan.termination = .corruption then
    return .refused { report with error := firstScan.error }
  if firstScan.termination = .truncatedTail ∧ options.tailPolicy = .strict then
    return .refused { report with error := firstScan.error }
  let usedValidPrefix : Bool :=
    firstScan.termination = .truncatedTail && options.tailPolicy = .validPrefix
  let report := { report with
    usedValidPrefix := usedValidPrefix
    warning := if usedValidPrefix then firstScan.error else none }
  match firstScan.header with
  | none => return .refused { report with error := some ⟨.invalidLength, 0, none⟩ }
  | some header =>
    match hostConfiguration header with
    | .error refused => return .refused { report with error := some refused }
    | .ok host =>
      let engine ← MultiInstrumentEngine.create host.catalog host.engineConfig
      let pass ← executeReplayPass checks source engine options firstScan.headerEndOffset calls
      publishReplay report firstScan pass

/-- `replay_log_source`. -/
def replayLogSource (checks : Bool) (source : LogSource) (options : ReplayOptions) (calls : Nat) :
    Run ReplayResult :=
  if options.valid = false then
    .ok (.refused { ReplayReport.initial options with
      error := some ⟨.invalidLength, 0, some .invalidArgument⟩ })
  else
    let (firstScan, state) := scanCommandLog source replayScanOptions calls
    replayValidatedLogSource checks source firstScan options state.calls

end AtlasLob
