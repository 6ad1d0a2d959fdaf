import AtlasLob.Core.CommandLogCodec
import AtlasLob.Library.Decimal

/-!
# Snapshot files

How a snapshot is named after its log and its sequence, how the names of a directory are read
back, and how the newest candidate that can be used is selected.
-/

namespace AtlasLob

/-- `SnapshotErrorCategory`, without `none`. -/
inductive SnapshotErrorCategory
  | invalidLength
  | excessiveLength
  | unsupportedFormatVersion
  | semanticVersionMismatch
  | badChecksum
  | configurationDigestMismatch
  | invalidCatalog
  | invalidSnapshotSchema
  | stateDigestMismatch
  | logIdMismatch
  | logBoundaryMismatch
  | sequenceMismatch
  | ioFailure
  deriving DecidableEq, Repr

/-- `SnapshotError`: what was refused and where. -/
structure SnapshotError where
  category : SnapshotErrorCategory
  byteOffset : Nat
  systemError : Option SystemError
  deriving DecidableEq, Repr

/-- A path in a directory. -/
structure SnapshotPath where
  directory : List Char
  filename : List Char
  deriving DecidableEq, Repr

/-- The digits of `LogId::hex`. -/
def hexDigits : List Char :=
  ['0', '1', '2', '3', '4', '5', '6', '7', '8', '9', 'a', 'b', 'c', 'd', 'e', 'f']

/-- The digit of half a byte. -/
def hexDigit (nibble : UInt8) : Char := hexDigits.getD nibble.toNat '0'

/-- The two digits of a byte. -/
def byteHex (byte : UInt8) : List Char :=
  [hexDigit ((byte >>> 4) &&& 0x0f), hexDigit (byte &&& 0x0f)]

/-- `LogId::hex`. -/
def logIdHex (logId : LogId) : List Char := logId.bytes.flatMap byteHex

/-- The beginning of the name of a log's snapshots. -/
def snapshotStart (logId : LogId) : List Char :=
  ['a', 't', 'l', 'a', 's', 'l', 'o', 'b', '-'] ++ logIdHex logId ++ ['-']

/-- The end of the name of a snapshot. -/
def snapshotSuffix : List Char := ['.', 's', 'n', 'a', 'p', 's', 'h', 'o', 't']

/-- `padded_sequence`, which throws when the digits do not fit. -/
def paddedSequence (sequence : Sequence) : Except String (List Char) :=
  let converted := Decimal.text sequence.toNat
  if converted.length > 20 then
    .error "snapshot sequence exceeds its canonical filename width"
  else .ok (List.replicate (20 - converted.length) '0' ++ converted)

/-- `final_snapshot_path`. -/
def finalSnapshotPath (directory : List Char) (logId : LogId) (sequence : Sequence) :
    Except String SnapshotPath := do
  let digits ← paddedSequence sequence
  pure ⟨directory, snapshotStart logId ++ digits ++ snapshotSuffix⟩

/-- The difference of two sizes, which wraps. -/
def sizeDifference (left right : Nat) : Nat :=
  if right ≤ left then left - right else 2 ^ 64 + left - right

/-- `std::string_view::substr` from a position inside the text. -/
def substr (text : List Char) (position count : Nat) : List Char :=
  (text.drop position).take count

/-- `std::from_chars` of an unsigned word: where it stopped, and the value or the error. -/
def fromChars (text : List Char) : Nat × Except SystemError UInt64 :=
  let digits := text.takeWhile Char.isDigit
  if digits = [] then (0, .error .invalidArgument)
  else if Decimal.value digits < 2 ^ 64 then
    (digits.length, .ok (UInt64.ofNat (Decimal.value digits)))
  else (digits.length, .error (.other 34))

/-- `parse_snapshot_filename`. -/
def parseSnapshotFilename (filename : List Char) (logId : LogId) : Option Sequence :=
  let start := snapshotStart logId
  if !start.isPrefixOf filename || !snapshotSuffix.isSuffixOf filename then none
  else
    let digits := substr filename start.length
      (sizeDifference (sizeDifference filename.length start.length) snapshotSuffix.length)
    if digits.length ≠ 20 then none
    else
      match fromChars digits with
      | (_, .error _) => none
      | (stopped, .ok value) => if stopped ≠ digits.length then none else some value

/-- `ascii_filename`. -/
def asciiFilename (path : SnapshotPath) : Option (List Char) :=
  if path.filename.all fun unit => unit.toNat ≤ 0x7f then some path.filename else none

/-- `SnapshotCandidate`. -/
structure SnapshotCandidate where
  path : SnapshotPath
  filenameSequence : Sequence
  discoveryError : Option SnapshotError
  deriving DecidableEq, Repr

/-- An entry of a directory, with the answer to `symlink_status`: whether it is a regular file. -/
structure DirectoryEntry where
  path : SnapshotPath
  regular : Except SystemError Bool

/-- What iterating a directory gives: the entries, and the error that ended it early. -/
structure DirectoryListing where
  entries : List DirectoryEntry
  failure : Option SystemError

/-- The candidate of an entry. -/
def candidateOf (logId : LogId) (entry : DirectoryEntry) : Option SnapshotCandidate := do
  let filename ← asciiFilename entry.path
  let sequence ← parseSnapshotFilename filename logId
  pure {
    path := entry.path
    filenameSequence := sequence
    discoveryError := match entry.regular with
      | .error systemError => some ⟨.ioFailure, 0, some systemError⟩
      | .ok true => none
      | .ok false => some ⟨.ioFailure, 0, some .invalidArgument⟩ }

/-- The order of the candidates. -/
def candidateBefore (left right : SnapshotCandidate) : Bool :=
  if left.filenameSequence ≠ right.filenameSequence then
    left.filenameSequence > right.filenameSequence
  else left.path.filename < right.path.filename

/-- `list_candidates`, of a directory that may not open. -/
def listCandidates (directory : Except SystemError DirectoryListing) (logId : LogId) :
    Except SnapshotError (List SnapshotCandidate) :=
  match directory with
  | .error systemError => .error ⟨.ioFailure, 0, some systemError⟩
  | .ok listing =>
    match listing.failure with
    | some systemError => .error ⟨.ioFailure, 0, some systemError⟩
    | none =>
      .ok ((listing.entries.filterMap (candidateOf logId)).insertionSort
        fun left right => ¬candidateBefore right left)

section Selection

variable {File Engine : Type}

/-- What is asked of a snapshot file: `inspect_snapshot`, its covered sequence,
`compatible_snapshot` and `restore_candidate`. -/
structure SnapshotExamination (File Engine : Type) where
  inspect : SnapshotPath → Except SnapshotError File
  coveredSequence : File → Sequence
  compatible : File → Option SnapshotError
  restore : File → Except SnapshotError Engine

/-- `SelectedSnapshot`, from a directory. -/
structure SelectedSnapshot (File Engine : Type) where
  path : SnapshotPath
  file : File
  engine : Engine

/-- `SkippedSnapshot`. -/
structure SkippedSnapshot where
  path : SnapshotPath
  filenameSequence : Sequence
  error : SnapshotError
  deriving DecidableEq, Repr

/-- The checks of one candidate, in order. -/
def examineCandidate (examination : SnapshotExamination File Engine)
    (candidate : SnapshotCandidate) : Except SnapshotError (SelectedSnapshot File Engine) :=
  match candidate.discoveryError with
  | some error => .error error
  | none => do
    let file ← examination.inspect candidate.path
    if examination.coveredSequence file ≠ candidate.filenameSequence then
      .error ⟨.sequenceMismatch, 0, none⟩
    else
      match examination.compatible file with
      | some error => .error error
      | none => do
        let engine ← examination.restore file
        pure ⟨candidate.path, file, engine⟩

/-- `select_directory_snapshot`, with the candidates it skips. -/
def selectDirectorySnapshot (examination : SnapshotExamination File Engine) :
    List SnapshotCandidate → Option (SelectedSnapshot File Engine) × List SkippedSnapshot
  | [] => (none, [])
  | candidate :: rest =>
    match examineCandidate examination candidate with
    | .ok selected => (some selected, [])
    | .error error =>
      let (selected, skipped) := selectDirectorySnapshot examination rest
      (selected, ⟨candidate.path, candidate.filenameSequence, error⟩ :: skipped)

end Selection

end AtlasLob
