import AtlasLob.Core.CommandLogCodec
import AtlasLob.Library.Interruptible

/-!
# The log scanner

`scan_impl`: one pass over a source that may answer each read with fewer bytes than asked, or
fail. The scan validates the header, then frame after frame, reports every validated frame to
its visitor, and ends clean, at a torn tail, at the first corruption or at an I/O failure.
-/

namespace AtlasLob

open Binary

/-- `LogIoOperation`. -/
inductive LogIoOperation
  | openSource
  | openDestination
  | inspectExtent
  | read
  | write
  | flush
  | sync
  | close
  | removeFile
  | publishFile
  | syncDirectory
  deriving DecidableEq, Repr

/-- `LogIoFailure`. -/
structure LogIoFailure where
  operation : LogIoOperation
  offset : Nat
  systemError : SystemError
  deriving DecidableEq, Repr

/-- `LogSource`: what the source answers to each of its calls, which are counted from zero. -/
structure LogSource where
  /-- `extent`. -/
  extent : Nat → Except LogIoFailure Nat
  /-- `read_at`, with the offset and the number of bytes asked for. -/
  readAt : Nat → Nat → Nat → Except LogIoFailure (List UInt8)

/-- `read_exact`, from a number of calls on. -/
def readExact (source : LogSource) (chunkBytes offset count calls : Nat) :
    Except LogIoFailure (List UInt8) × Nat :=
  if count = 0 then (.ok [], calls)
  else
    let requested := min chunkBytes count
    match source.readAt calls offset requested with
    | .error failure => (.error failure, calls + 1)
    | .ok bytes =>
      if unusable : bytes.length = 0 ∨ bytes.length > requested then
        (.error ⟨.read, offset, .ioError⟩, calls + 1)
      else
        match readExact source chunkBytes (offset + bytes.length) (count - bytes.length)
            (calls + 1) with
        | (.error failure, calls) => (.error failure, calls)
        | (.ok rest, calls) => (.ok (bytes ++ rest), calls)
termination_by count
decreasing_by omega

/-- `LogScanTermination`. -/
inductive LogScanTermination
  | cleanEof
  | truncatedTail
  | corruption
  | ioFailure
  deriving DecidableEq, Repr

/-- `LogScanOptions`. -/
structure LogScanOptions where
  readChunkBytes : Nat
  deriving DecidableEq, Repr

/-- `LogScanOptions::valid`. -/
def LogScanOptions.valid (options : LogScanOptions) : Bool := options.readChunkBytes ≠ 0

/-- `LogScanResult`. -/
structure LogScanResult where
  termination : LogScanTermination
  error : Option LogError
  sourceExtent : Nat
  headerEndOffset : Nat
  validEndOffset : Nat
  recordCount : Nat
  lastSequence : Option Sequence
  nextSequence : Option Sequence
  header : Option LogHeader
  validPrefixDigest : Option Digest256
  deriving DecidableEq

namespace LogScanResult

/-- The result before anything is scanned. -/
def initial : LogScanResult where
  termination := .corruption
  error := none
  sourceExtent := 0
  headerEndOffset := 0
  validEndOffset := 0
  recordCount := 0
  lastSequence := none
  nextSequence := none
  header := none
  validPrefixDigest := none

/-- `LogScanResult::clean`. -/
def clean (result : LogScanResult) : Bool :=
  result.termination = .cleanEof && result.error = none

/-- `LogScanResult::repairable`. -/
def repairable (result : LogScanResult) : Bool :=
  result.header.isSome && result.termination = .truncatedTail

/-- `set_error`. -/
def setError (result : LogScanResult) (termination : LogScanTermination)
    (category : LogErrorCategory) (offset : Nat) (systemError : Option SystemError) :
    LogScanResult :=
  { result with termination := termination, error := some ⟨category, offset, systemError⟩ }

/-- `set_error` for a corruption. -/
def corrupt (result : LogScanResult) (category : LogErrorCategory) (offset : Nat) :
    LogScanResult :=
  result.setError .corruption category offset none

/-- `set_io_error`. -/
def setIoError (result : LogScanResult) (failure : LogIoFailure) : LogScanResult :=
  result.setError .ioFailure .ioFailure failure.offset (some failure.systemError)

end LogScanResult

/-- `absolute_error`. -/
def absoluteError (error : LogError) (base : Nat) : LogError :=
  if error.byteOffset > maxSize - base then
    { category := .invalidLength, byteOffset := base, systemError := none }
  else { error with byteOffset := error.byteOffset + base }

/-- `set_codec_corruption`. -/
def LogScanResult.setCodecCorruption (result : LogScanResult) (error : LogError)
    (frameOffset : Nat) : LogScanResult :=
  let error := if error.category = .truncatedFinalRecord then
    { error with category := .invalidLength } else error
  { result with termination := .corruption, error := some (absoluteError error frameOffset) }

/-- What a scan reports to its visitor. -/
inductive LogVisit
  /-- `on_header`. -/
  | header (header : LogHeader) (encoded : List UInt8)
  /-- `on_record`. -/
  | record (record : CommandRecord) (encoded : List UInt8) (frameBegin frameEnd : Nat)
  deriving DecidableEq

/-- What a scan changes outside its result. -/
structure ScanState where
  /-- The calls of the source so far. -/
  calls : Nat
  /-- The reports to the visitor so far. -/
  visits : List LogVisit

/-- A part of a scan, which may end it with a result. -/
abbrev ScanM := Interruptible ScanState LogScanResult

section Scan

variable (source : LogSource) (options : LogScanOptions)

/-- Read a number of bytes, or end the scan with the failure. -/
def readOrStop (result : LogScanResult) (offset count : Nat) : ScanM (List UInt8) := fun state =>
  match readExact source options.readChunkBytes offset count state.calls with
  | (.error failure, calls) => (.error (result.setIoError failure), { state with calls := calls })
  | (.ok bytes, calls) => (.ok bytes, { state with calls := calls })

/-- `read_available_prefix`, into a destination of a given size. -/
def readAvailablePrefix (result : LogScanResult) (offset available size : Nat) :
    ScanM (List UInt8) :=
  if available > size then Interruptible.stop (result.corrupt .invalidLength offset)
  else readOrStop source options result offset available

/-- Report to the visitor. -/
def visit (report : LogVisit) : ScanM Unit :=
  Interruptible.change fun state => { state with visits := state.visits ++ [report] }

/-- Ask for the extent, or end the scan with the failure. -/
def extentOrStop (result : LogScanResult) : ScanM Nat := fun state =>
  match source.extent state.calls with
  | .error failure => (.error (result.setIoError failure), { state with calls := state.calls + 1 })
  | .ok extent => (.ok extent, { state with calls := state.calls + 1 })

/-- `decode_u32`. -/
def decodeU32 (bytes : List UInt8) : Nat := ofBytes bytes

/-- The part of `scan_impl` that reads and decodes the header. -/
def scanHeader (result : LogScanResult) : ScanM (LogHeader × List UInt8) := do
  let extent := result.sourceExtent
  if extent < 20 then
    let _ ← readAvailablePrefix source options result 0 extent 60
    Interruptible.stop (result.corrupt .invalidLength extent)
  else
    let first ← readOrStop source options result 0 20
    let declared := decodeU32 (first.drop 16)
    if declared < commandLogHeaderFixedBytes then
      Interruptible.stop (result.corrupt .invalidLength 16)
    else if declared > maxHeaderBytes then Interruptible.stop (result.corrupt .excessiveLength 16)
    else if extent < commandLogHeaderFixedPrefixBytes then
      let _ ← readAvailablePrefix source options result 20 (extent - 20) 40
      Interruptible.stop (result.corrupt .invalidLength extent)
    else
      let second ← readOrStop source options result 20 40
      match inspectLogHeaderLength (first ++ second) with
      | .error refused => Interruptible.stop (result.setCodecCorruption refused 0)
      | .ok inspected =>
        if inspected ≠ declared then Interruptible.stop (result.corrupt .invalidLength 16)
        else if extent < declared then
          let _ ← readAvailablePrefix source options result 60 (extent - 60) (declared - 60)
          Interruptible.stop (result.corrupt .invalidLength extent)
        else
          let third ← readOrStop source options result 60 (declared - 60)
          let headerBytes := first ++ second ++ third
          match decodeLogHeader headerBytes with
          | .error refused => Interruptible.stop (result.setCodecCorruption refused 0)
          | .ok header => pure (header, headerBytes)

/-- The check of the sequence of a record against the next one. -/
def checkSequence (result : LogScanResult) (frameOffset : Nat) (record : CommandRecord) :
    ScanM Unit :=
  match result.nextSequence with
  | none => Interruptible.stop (result.corrupt .duplicateSequence (frameOffset + 12))
  | some next =>
    if record.sequence < next then
      Interruptible.stop (result.corrupt .duplicateSequence (frameOffset + 12))
    else if record.sequence > next then
      Interruptible.stop (result.corrupt .missingSequence (frameOffset + 12))
    else pure ()

/-- The part of `scan_impl` that reads and decodes one frame; `none` is a torn tail. -/
def scanFrame (result : LogScanResult) (frameOffset : Nat) :
    ScanM (Option (CommandRecord × List UInt8)) := do
  let remaining := result.sourceExtent - frameOffset
  if remaining < 4 then
    let _ ← readAvailablePrefix source options result frameOffset remaining 8
    pure none
  else
    let first ← readOrStop source options result frameOffset 4
    let declared := decodeU32 first
    if declared < commandLogRecordFixedBytes then
      Interruptible.stop (result.corrupt .invalidLength frameOffset)
    else if declared > maxRecordBytes then
      Interruptible.stop (result.corrupt .excessiveLength frameOffset)
    else if remaining < commandLogRecordLengthPrefixBytes then
      let _ ← readAvailablePrefix source options result (frameOffset + 4) (remaining - 4) 4
      pure none
    else
      let second ← readOrStop source options result (frameOffset + 4) 4
      match inspectLogRecordLength (first ++ second) with
      | .error refused => Interruptible.stop (result.setCodecCorruption refused frameOffset)
      | .ok inspected =>
        if inspected ≠ declared then Interruptible.stop (result.corrupt .invalidLength frameOffset)
        else
          let availableBody := min remaining declared - commandLogRecordLengthPrefixBytes
          let body ← readAvailablePrefix source options result (frameOffset + 8) availableBody
            (declared - commandLogRecordLengthPrefixBytes)
          if declared > remaining then pure none
          else
            let recordBytes := first ++ second ++ body
            match decodeCommandRecord recordBytes with
            | .error refused => Interruptible.stop (result.setCodecCorruption refused frameOffset)
            | .ok record =>
              checkSequence result frameOffset record
              pure (some (record, recordBytes))

/-- The result after a record. -/
def LogScanResult.accept (result : LogScanResult) (record : CommandRecord) (frameEnd : Nat) :
    LogScanResult :=
  { result with
    validEndOffset := frameEnd
    recordCount := result.recordCount + 1
    lastSequence := some record.sequence
    nextSequence := if record.sequence = Word.max64 then none else some (record.sequence + 1) }

/-- The loop of `scan_impl` over the frames, for a number of frames. Every frame takes bytes of
the source, so that its extent bounds their number. -/
def scanFrames : Nat → LogScanResult → Sha256 → Nat → ScanM (LogScanResult × Sha256 × Nat)
  | 0, result, hash, frameOffset => pure (result, hash, frameOffset)
  | frames + 1, result, hash, frameOffset =>
    if frameOffset < result.sourceExtent then do
      match ← scanFrame source options result frameOffset with
      | none =>
        pure (result.setError .truncatedTail .truncatedFinalRecord result.sourceExtent none,
          hash, frameOffset)
      | some (record, recordBytes) =>
        let frameEnd := frameOffset + recordBytes.length
        visit (.record record recordBytes frameOffset frameEnd)
        scanFrames frames (result.accept record frameEnd) (hash.update recordBytes) frameEnd
    else pure (result, hash, frameOffset)

/-- The end of `scan_impl`: the extent reached is a clean end, and a clean or torn end is
identified by its digest. -/
def LogScanResult.finish (result : LogScanResult) (hash : Sha256) (frameOffset : Nat) :
    LogScanResult :=
  let ended := if frameOffset = result.sourceExtent then
    { result with termination := .cleanEof, error := none } else result
  if ended.clean || ended.repairable then { ended with validPrefixDigest := some hash.finish }
  else ended

/-- `scan_impl` without a sink, as far as it may end early. -/
def scanBody : ScanM LogScanResult := do
  let result := LogScanResult.initial
  if options.valid = false then Interruptible.stop (result.corrupt .invalidLength 0)
  else
    let extent ← extentOrStop source result
    let result := { result with sourceExtent := extent }
    let (header, headerBytes) ← scanHeader source options result
    let result := { result with
      header := some header
      headerEndOffset := headerBytes.length
      validEndOffset := headerBytes.length
      nextSequence := some header.firstSequence }
    visit (.header header headerBytes)
    let (result, hash, frameOffset) ←
      scanFrames source options extent result (Sha256.initial.update headerBytes)
        headerBytes.length
    pure (result.finish hash frameOffset)

/-- `scan_command_log`, from a number of calls on: the result, and what was reported to the
visitor. -/
def scanCommandLog (calls : Nat) : LogScanResult × ScanState :=
  match scanBody source options ⟨calls, []⟩ with
  | (.error result, state) => (result, state)
  | (.ok result, state) => (result, state)

end Scan

end AtlasLob
