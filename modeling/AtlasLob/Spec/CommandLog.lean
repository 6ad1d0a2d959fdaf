import AtlasLob.Core.LogScanner
import AtlasLob.Verif.CommandLogCodec

/-!
# Command logs

What the bytes of a log mean: a header that can be stored and the records of the commands
`1, 2, 3, …` in order, each one a record that can be logged. The encoding of a log is a prefix
of the encoding of every log that continues it. Beside the grammar stands what a scan of such
a log has to report: the running result after its records, and the visits in their order.
-/

namespace AtlasLob

open Binary

/-- The records carry the sequences from one on. -/
def NumberedFromOne (records : List CommandRecord) : Prop :=
  ∀ index record, records[index]? = some record → record.sequence.toNat = index + 1

/-- A header with the records of contiguous commands. -/
structure CommandLog where
  header : LogHeader
  records : List CommandRecord
  /-- The header can be stored. -/
  headed : header.Valid
  /-- Every record can be logged. -/
  logged : ∀ record ∈ records, record.Valid
  /-- The records are numbered from one. -/
  numbered : NumberedFromOne records

namespace CommandLog

/-- The log without records. -/
def start (header : LogHeader) (headed : header.Valid) : CommandLog :=
  ⟨header, [], headed, by simp, by simp [NumberedFromOne]⟩

/-- The bytes of a log. -/
def encoding (log : CommandLog) : List UInt8 :=
  log.header.encoding ++ log.records.flatMap CommandRecord.encoding

/-- The commands of a log. -/
def commands (log : CommandLog) : List Command := log.records.map CommandRecord.command

/-- Two logs of one header with the same records are one log. -/
theorem eq_of_parts {first second : CommandLog} (header : first.header = second.header)
    (records : first.records = second.records) : first = second := by
  obtain ⟨firstHeader, firstRecords, _, _, _⟩ := first
  obtain ⟨secondHeader, secondRecords, _, _, _⟩ := second
  cases header
  cases records
  rfl

/-- The sequence of the next record, if there is one left. -/
def nextSequence (log : CommandLog) : Option Sequence :=
  if log.records.length + 1 < 2 ^ 64 then some (UInt64.ofNat (log.records.length + 1)) else none

/-- The log with one more record. -/
def extend (log : CommandLog) (record : CommandRecord) (valid : record.Valid)
    (next : record.sequence.toNat = log.records.length + 1) : CommandLog where
  header := log.header
  records := log.records ++ [record]
  headed := log.headed
  logged := by
    intro other inside
    rcases List.mem_append.mp inside with old | new
    · exact log.logged other old
    · rw [List.mem_singleton.mp new]
      exact valid
  numbered := by
    intro index other found
    by_cases old : index < log.records.length
    · rw [List.getElem?_append_left old] at found
      exact log.numbered index other found
    · rw [List.getElem?_append_right (by omega), List.getElem?_singleton] at found
      by_cases last : index - log.records.length = 0
      · rw [if_pos last, Option.some_inj] at found
        rw [← found, next]
        omega
      · rw [if_neg last] at found
        cases found

/-- Appending a record appends its bytes. -/
theorem extend_encoding (log : CommandLog) (record : CommandRecord) (valid : record.Valid)
    (next : record.sequence.toNat = log.records.length + 1) :
    (log.extend record valid next).encoding = log.encoding ++ record.encoding := by
  unfold encoding extend
  rw [List.flatMap_append, List.flatMap_singleton, List.append_assoc]

/-- No log has more records than there are sequences. -/
theorem length_lt (log : CommandLog) : log.records.length < 2 ^ 64 := by
  cases last : log.records.getLast? with
  | none =>
    rw [List.getLast?_eq_none_iff.mp last]
    decide
  | some record =>
    have small := record.sequence.toNat_lt
    rw [List.getLast?_eq_getElem?] at last
    have numbered := log.numbered _ record last
    omega

/-- The record that comes next carries the next sequence. -/
theorem nextSequence_eq_some (log : CommandLog) {sequence : Sequence} :
    log.nextSequence = some sequence ↔ sequence.toNat = log.records.length + 1 := by
  have bounded := log.length_lt
  have small := sequence.toNat_lt
  unfold nextSequence
  by_cases room : log.records.length + 1 < 2 ^ 64
  · rw [if_pos room, Option.some_inj]
    constructor
    · intro same
      rw [← same, UInt64.toNat_ofNat_of_lt' room]
    · intro same
      rw [← same, UInt64.ofNat_toNat]
  · rw [if_neg room]
    constructor
    · intro same
      cases same
    · intro same
      omega

/-- The first records of a log are a log. -/
def upTo (log : CommandLog) (count : Nat) : CommandLog where
  header := log.header
  records := log.records.take count
  headed := log.headed
  logged := fun record inside => log.logged record (List.mem_of_mem_take inside)
  numbered := by
    intro index record found
    rw [List.getElem?_take] at found
    by_cases inside : index < count
    · rw [if_pos inside] at found
      exact log.numbered index record found
    · rw [if_neg inside] at found
      cases found

/-- The visits of the records from an offset on. -/
def recordVisits : Nat → List CommandRecord → List LogVisit
  | _, [] => []
  | frameBegin, record :: rest =>
    .record record record.encoding frameBegin (frameBegin + record.encoding.length) ::
      recordVisits (frameBegin + record.encoding.length) rest

/-- The visits of the records of two parts. -/
theorem recordVisits_append (frameBegin : Nat) (front back : List CommandRecord) :
    recordVisits frameBegin (front ++ back) = recordVisits frameBegin front ++
      recordVisits (frameBegin + (front.flatMap CommandRecord.encoding).length) back := by
  induction front generalizing frameBegin with
  | nil => rfl
  | cons record rest ih =>
    rw [List.cons_append, recordVisits, recordVisits, ih, List.flatMap_cons, List.length_append,
      Nat.add_assoc, List.cons_append]

/-- The visits of a log. -/
def visits (log : CommandLog) : List LogVisit :=
  .header log.header log.header.encoding ::
    recordVisits log.header.encoding.length log.records

/-- One more record is one more visit. -/
theorem extend_visits (log : CommandLog) (record : CommandRecord) (valid : record.Valid)
    (next : record.sequence.toNat = log.records.length + 1) :
    (log.extend record valid next).visits = log.visits ++
      [.record record record.encoding log.encoding.length
        (log.encoding.length + record.encoding.length)] := by
  unfold visits extend encoding
  rw [recordVisits_append, List.length_append]
  rfl

/-- The streamed hash of a log. -/
def hash (log : CommandLog) : Sha256 :=
  log.records.foldl (fun hash record => hash.update record.encoding)
    (Sha256.initial.update log.header.encoding)

/-- One more record is one more update. -/
theorem extend_hash (log : CommandLog) (record : CommandRecord) (valid : record.Valid)
    (next : record.sequence.toNat = log.records.length + 1) :
    (log.extend record valid next).hash = log.hash.update record.encoding := by
  unfold hash extend
  rw [List.foldl_append, List.foldl_cons, List.foldl_nil]

/-- The running result of a scan that has accepted a log in a source of a given extent. -/
def scanned (log : CommandLog) (extent : Nat) : LogScanResult where
  termination := .corruption
  error := none
  sourceExtent := extent
  headerEndOffset := log.header.encoding.length
  validEndOffset := log.encoding.length
  recordCount := log.records.length
  lastSequence := log.records.getLast?.map CommandRecord.sequence
  nextSequence := log.nextSequence
  header := some log.header
  validPrefixDigest := none

/-- One more record advances the running result. -/
theorem extend_scanned (log : CommandLog) (extent : Nat) (record : CommandRecord)
    (valid : record.Valid) (next : record.sequence.toNat = log.records.length + 1) :
    (log.extend record valid next).scanned extent =
      (log.scanned extent).accept record (log.encoding.length + record.encoding.length) := by
  have following : (log.extend record valid next).nextSequence =
      if record.sequence = Word.max64 then none else some (record.sequence + 1) := by
    have small := record.sequence.toNat_lt
    unfold nextSequence extend
    rw [List.length_append, List.length_singleton, ← next]
    by_cases last : record.sequence = Word.max64
    · rw [if_pos last, if_neg (by rw [last]; decide)]
    · have below : record.sequence.toNat + 1 < 2 ^ 64 := by
        have differ : record.sequence.toNat ≠ Word.max64.toNat := fun same =>
          last (UInt64.toNat_inj.mp same)
        have top : Word.max64.toNat = 2 ^ 64 - 1 := by decide
        omega
      rw [if_neg last, if_pos below]
      apply congrArg some
      apply UInt64.toNat_inj.mp
      rw [UInt64.toNat_ofNat_of_lt' below, Word.toNat_add_of_fits below]
      rfl
  unfold scanned LogScanResult.accept
  rw [extend_encoding, following, List.length_append]
  simp only [extend, List.length_append, List.length_singleton, List.getLast?_append,
    List.getLast?_singleton, Option.map_some, Option.some_or]

/-- The result of a scan that ends at the end of a log. -/
def cleanScan (log : CommandLog) : LogScanResult :=
  { log.scanned log.encoding.length with
    termination := .cleanEof
    validPrefixDigest := some log.hash.finish }

/-- The result of a scan that finds a torn record behind a log. -/
def tornScan (log : CommandLog) (extent : Nat) : LogScanResult :=
  { log.scanned extent with
    termination := .truncatedTail
    error := some ⟨.truncatedFinalRecord, extent, none⟩
    validPrefixDigest := some log.hash.finish }

end CommandLog

end AtlasLob
