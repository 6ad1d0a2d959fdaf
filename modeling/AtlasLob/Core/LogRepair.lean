import AtlasLob.Core.LoggedEngine

/-!
# Log repair

`repair_command_log_source_to_new_file`: a log that ends in a torn record is copied up to that
record into a new file. The source is scanned twice and identified before, during and after the
copy; the file appears under its name only when all of these agree.
-/

namespace AtlasLob

/-- `NativeFilePublicationResult`. -/
structure NativeFilePublicationResult where
  destinationVisible : Bool
  sourceVisible : Bool
  failure : Option LogIoFailure

/-- What the file system answers to the calls of a repair on its temporary file. -/
structure RepairFiles where
  /-- `open_native_new_log_sink`, for every attempt. -/
  openNew : Nat → Option LogIoFailure
  /-- The writes. -/
  sink : LogSink
  /-- `NativeNewFileSink::abandon`. -/
  abandon : Option LogIoFailure
  /-- `NativeNewFileSink::commit`. -/
  commit : Option LogIoFailure
  /-- `publish_native_new_file_no_replace`. -/
  publication : NativeFilePublicationResult
  /-- `remove_native_file`. -/
  remove : Option LogIoFailure

/-- What a repair changes: the calls of its source so far and its temporary file. -/
structure RepairState where
  calls : Nat
  sink : SinkState

/-- A part of a repair, which may end with a failure. -/
abbrev RepairM := Interruptible RepairState LogIoFailure

/-- `write_exact`. -/
def writeExact (sink : LogSink) (chunkBytes : Nat) (state : SinkState) (remaining : List UInt8) :
    SinkState × Option LogIoFailure :=
  if remaining = [] then (state, none)
  else
    let requested := min chunkBytes remaining.length
    let answer := sink.write state.calls (remaining.take requested)
    let file := state.file ++ (remaining.take requested).take answer.appended
    match answer.failure with
    | some failure => ({ state with calls := state.calls + 1, file := file }, some failure)
    | none =>
      let written : SinkState := ⟨state.calls + 1, state.position + answer.appended, file⟩
      if unusable : answer.appended = 0 ∨ answer.appended > requested then
        (written, some ⟨.write, written.position, .ioError⟩)
      else writeExact sink chunkBytes written (remaining.drop answer.appended)
termination_by remaining.length
decreasing_by
  have usable := not_or.mp unusable
  have short := Nat.le_trans (Nat.not_lt.mp usable.2) (Nat.min_le_right chunkBytes remaining.length)
  have positive := Nat.pos_of_ne_zero usable.1
  rw [List.length_drop]
  exact Nat.sub_lt (Nat.lt_of_lt_of_le positive short) positive

section Identity

variable (source : LogSource)

/-- Ask a source for its extent. -/
def repairExtent : RepairM Nat := fun state =>
  match source.extent state.calls with
  | .error failure => (.error failure, { state with calls := state.calls + 1 })
  | .ok extent => (.ok extent, { state with calls := state.calls + 1 })

/-- Read a number of bytes of a source. -/
def repairRead (chunkBytes offset count : Nat) : RepairM (List UInt8) := fun state =>
  match readExact source chunkBytes offset count state.calls with
  | (.error failure, calls) => (.error failure, { state with calls := calls })
  | (.ok bytes, calls) => (.ok bytes, { state with calls := calls })

/-- Write bytes to the temporary file. -/
def repairWrite (sink : LogSink) (chunkBytes : Nat) (bytes : List UInt8) : RepairM Unit :=
  fun state =>
    match writeExact sink chunkBytes state.sink bytes with
    | (written, some failure) => (.error failure, { state with sink := written })
    | (written, none) => (.ok (), { state with sink := written })

/-- The chunk of a repair: the asked one, within the buffer of `default_log_io_chunk_bytes`. -/
def maximumChunk (chunkBytes : Nat) : Nat := min chunkBytes (64 * 1024)

/-- The loop of `source_identity`, for a number of chunks. Every chunk takes bytes of the source,
so that its extent bounds their number. -/
def identifyFrom (chunk extent : Nat) : Nat → Nat → Sha256 → RepairM Sha256
  | 0, _, hash => pure hash
  | chunks + 1, offset, hash =>
    if offset < extent then do
      let requested := min (extent - offset) chunk
      let bytes ← repairRead source chunk offset requested
      identifyFrom chunk extent chunks (offset + requested) (hash.update bytes)
    else pure hash

/-- `source_identity`. -/
def sourceIdentity (chunkBytes : Nat) : RepairM (Digest256 × Nat) := do
  let initialExtent ← repairExtent source
  let hash ← identifyFrom source (maximumChunk chunkBytes) initialExtent initialExtent 0
    Sha256.initial
  let finalExtent ← repairExtent source
  if finalExtent ≠ initialExtent then
    Interruptible.stop ⟨.inspectExtent, finalExtent, .stateNotRecoverable⟩
  else pure (hash.finish, initialExtent)

/-- The loop of `copy_valid_prefix_and_identify`, for a number of chunks. -/
def copyFrom (sink : LogSink) (chunk extent prefixBytes : Nat) :
    Nat → Nat → Sha256 → RepairM Sha256
  | 0, _, hash => pure hash
  | chunks + 1, offset, hash =>
    if offset < extent then do
      let requested := min (extent - offset) chunk
      let bytes ← repairRead source chunk offset requested
      if offset < prefixBytes then
        repairWrite sink chunk (bytes.take (min (prefixBytes - offset) requested))
      copyFrom sink chunk extent prefixBytes chunks (offset + requested) (hash.update bytes)
    else pure hash

/-- `copy_valid_prefix_and_identify`. -/
def copyValidPrefixAndIdentify (sink : LogSink) (expectedExtent prefixBytes chunkBytes : Nat) :
    RepairM (Digest256 × Nat) := do
  if prefixBytes > expectedExtent then
    Interruptible.stop ⟨.read, prefixBytes, .invalidArgument⟩
  else
    let initialExtent ← repairExtent source
    if initialExtent ≠ expectedExtent then
      Interruptible.stop ⟨.inspectExtent, initialExtent, .stateNotRecoverable⟩
    else
      let hash ← copyFrom source sink (maximumChunk chunkBytes) expectedExtent prefixBytes
        expectedExtent 0 Sha256.initial
      let finalExtent ← repairExtent source
      let state ← Interruptible.read
      if finalExtent ≠ expectedExtent ∨ state.sink.position ≠ prefixBytes then
        Interruptible.stop ⟨.inspectExtent, finalExtent, .stateNotRecoverable⟩
      else pure (hash.finish, finalExtent)

end Identity

/-- `same_repairable_source`. -/
def sameRepairableSource (first second : LogScanResult) : Bool :=
  first.repairable && second.repairable && first.validPrefixDigest.isSome &&
    second.validPrefixDigest.isSome && first.sourceExtent = second.sourceExtent &&
    first.headerEndOffset = second.headerEndOffset &&
    first.validEndOffset = second.validEndOffset && first.recordCount = second.recordCount &&
    first.lastSequence = second.lastSequence && first.nextSequence = second.nextSequence &&
    first.validPrefixDigest = second.validPrefixDigest

/-- `set_unstable_source_error`. -/
def LogScanResult.setUnstable (result : LogScanResult) : LogScanResult :=
  result.setError .ioFailure .ioFailure result.validEndOffset (some .stateNotRecoverable)

/-- `LogRepairResult`; an artifact that could not be removed is named by its attempt. -/
structure LogRepairResult where
  scan : LogScanResult
  outputCreated : Bool
  unpublishedArtifact : Option Nat
  deriving DecidableEq

/-- No output, with the result of the scan. -/
def LogRepairResult.refused (scan : LogScanResult) : LogRepairResult := ⟨scan, false, none⟩

/-- A part of a repair, which may end it with a result. -/
abbrev RepairBody := Interruptible RepairState LogRepairResult

section Repair

variable (source : LogSource) (files : RepairFiles) (options : LogScanOptions)

/-- `abandon_temporary`. -/
def abandonTemporary (scan : LogScanResult) (attempt : Nat) : LogRepairResult :=
  match files.abandon with
  | none => .refused scan
  | some failure =>
    ⟨scan.setIoError failure, false,
      if failure.operation = .removeFile then some attempt else none⟩

/-- Scan the source within a repair. -/
def repairScan : RepairBody LogScanResult := fun state =>
  let (result, scanned) := scanCommandLog source options state.calls
  (.ok result, { state with calls := scanned.calls })

/-- Run a part of a repair; its failure ends the repair in the given way. -/
def orElse {Value : Type} (part : RepairM Value) (ends : LogIoFailure → LogRepairResult) :
    RepairBody Value := fun state =>
  match part state with
  | (.error failure, next) => (.error (ends failure), next)
  | (.ok value, next) => (.ok value, next)

/-- The loop of `repair_command_log_source_to_new_file` that opens the temporary file, for a
number of attempts: the attempt that succeeded, or the failure. -/
def openTemporary : Nat → Nat → Except LogIoFailure Nat
  | 0, _ => .error ⟨.openDestination, 0, .fileExists⟩
  | attempts + 1, attempt =>
    match files.openNew attempt with
    | none => .ok attempt
    | some failure =>
      if failure.systemError = .fileExists then openTemporary attempts (attempt + 1)
      else .error failure

/-- The end of `repair_command_log_source_to_new_file`: keep the file and give it its name. -/
def publishRepair (scan : LogScanResult) (attempt : Nat) : LogRepairResult :=
  match files.commit with
  | some failure =>
    ⟨scan.setIoError failure, false,
      if failure.operation = .removeFile then some attempt else none⟩
  | none =>
    match files.publication.failure with
    | none => ⟨scan, files.publication.destinationVisible, none⟩
    | some failure =>
      if files.publication.sourceVisible then
        match files.remove with
        | none => ⟨scan.setIoError failure, files.publication.destinationVisible, none⟩
        | some other => ⟨(scan.setIoError failure).setIoError other,
            files.publication.destinationVisible, some attempt⟩
      else ⟨scan.setIoError failure, files.publication.destinationVisible, none⟩

/-- The part of `repair_command_log_source_to_new_file` that copies. -/
def copyRepair (validated : LogScanResult) (identity : Digest256 × Nat) (attempt : Nat) :
    RepairBody LogRepairResult := do
  let copied ← orElse (copyValidPrefixAndIdentify source files.sink identity.2
    validated.validEndOffset options.readChunkBytes)
    fun failure => abandonTemporary files (validated.setIoError failure) attempt
  if copied.2 ≠ identity.2 ∨ copied.1 ≠ identity.1 then
    Interruptible.stop (abandonTemporary files validated.setUnstable attempt)
  else
    let final ← orElse (sourceIdentity source options.readChunkBytes)
      fun failure => abandonTemporary files (validated.setIoError failure) attempt
    if final.2 ≠ identity.2 ∨ final.1 ≠ identity.1 then
      Interruptible.stop (abandonTemporary files validated.setUnstable attempt)
    else pure (publishRepair files validated attempt)

/-- `repair_command_log_source_to_new_file`, as far as it may end early. -/
def repairBody : RepairBody LogRepairResult := do
  let validated ← repairScan source options
  if validated.repairable = false then Interruptible.stop (.refused validated)
  else
    let first ← orElse (sourceIdentity source options.readChunkBytes)
      fun failure => .refused (validated.setIoError failure)
    let confirmed ← repairScan source options
    if sameRepairableSource validated confirmed = false then
      Interruptible.stop (.refused validated.setUnstable)
    else
      let second ← orElse (sourceIdentity source options.readChunkBytes)
        fun failure => .refused (validated.setIoError failure)
      if first.2 ≠ second.2 ∨ first.1 ≠ second.1 then
        Interruptible.stop (.refused validated.setUnstable)
      else
        match openTemporary files 1024 0 with
        | .error failure => Interruptible.stop (.refused (validated.setIoError failure))
        | .ok attempt => copyRepair source files options validated first attempt

/-- `repair_command_log_source_to_new_file`, from a number of calls on: the result and the bytes
written to the temporary file, which is the output if one is created. -/
def repairCommandLogSourceToNewFile (calls : Nat) : LogRepairResult × List UInt8 :=
  match repairBody source files options ⟨calls, ⟨0, 0, []⟩⟩ with
  | (.error result, state) => (result, state.sink.file)
  | (.ok result, state) => (result, state.sink.file)

end Repair

end AtlasLob
