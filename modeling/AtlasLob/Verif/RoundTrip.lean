import AtlasLob.Verif.Corruption

/-!
# Encoding and decoding a command log

Decoding an encoding returns the value, whatever a command carries, and re-encoding a decoded
value returns the bytes at the front of the string it was decoded from.
-/

namespace AtlasLob

open Binary

/-- The canonical catalog of an engine is a valid catalog of a header. -/
theorem persistedCatalogFrom_map {catalog : List InstrumentConfig} {previous : InstrumentId}
    (canonical : canonicalCatalogFrom previous catalog = true) :
    persistedCatalogFrom previous (catalog.map .ofConfig) = true := by
  induction catalog generalizing previous with
  | nil => rfl
  | cons instrument rest ih =>
    unfold canonicalCatalogFrom at canonical
    by_cases refused : instrument.instrumentId = 0 ∨ instrument.instrumentId ≤ previous ∨
        instrument.matching.valid = false
    · rw [if_pos refused] at canonical
      cases canonical
    rw [if_neg refused] at canonical
    rw [not_or, not_or, Bool.not_eq_false] at refused
    obtain ⟨nonzero, above, valid⟩ := refused
    unfold MatchingEngineConfig.valid at valid
    rw [Bool.and_eq_true, decide_eq_true_eq, decide_eq_true_eq] at valid
    rw [List.map_cons]
    unfold persistedCatalogFrom
    rw [if_neg]
    · exact ih canonical
    · rintro (zero | below | nothing | flat)
      · exact nonzero zero
      · exact above below
      · exact valid.1 nothing
      · exact absurd valid.2 (Int64.not_lt.mpr flat)

/-- The header of a new log over a catalog that fits can be stored. -/
theorem makeLogHeader_valid {catalog : List InstrumentConfig}
    {engineConfig : MultiInstrumentEngineConfig} {logId : LogId} {header : LogHeader}
    (made : makeLogHeader catalog engineConfig logId = .ok header)
    (fits : catalog.length ≤ 37445) : header.Valid := by
  unfold makeLogHeader codecFailure at made
  by_cases refused : catalog.isEmpty = true ∨ canonicalCatalogFrom 0 catalog = false
  · rw [if_pos refused] at made
    cases made
  rw [if_neg refused] at made
  cases made
  rw [not_or, Bool.not_eq_true, Bool.not_eq_false] at refused
  refine ⟨rfl, rfl, rfl, ?_, ?_⟩
  · unfold persistedCatalogValid
    rw [List.isEmpty_map, refused.1, persistedCatalogFrom_map refused.2]
    rfl
  · show 96 + 28 * (catalog.map PersistedInstrumentConfig.ofConfig).length ≤ 1048576
    rw [List.length_map]
    omega

/-- A header over a catalog that an engine accepts is sorted already. -/
theorem LogHeader.canonical_of_valid (header : LogHeader)
    (valid : persistedCatalogValid header.catalog = true) : header.canonical = header := by
  unfold LogHeader.canonical
  rw [sortCatalog_of_valid valid]

/-- A header whose catalog lists its two instruments in descending order. -/
def unsortedHeader : LogHeader where
  formatVersion := commandLogFormatVersion
  semanticsVersion := atlaslobSemanticsVersion
  logId := ⟨List.replicate 16 5, rfl⟩
  firstSequence := commandLogFirstSequence
  engineConfig := ⟨10⟩
  catalog := [⟨2, 100, 5, 10⟩, ⟨1, 100, 5, 10⟩]

/-- A header over a catalog out of order is encoded, and its bytes decode to another header. A
string with a byte after a record is decoded, and re-encoding gives only the record. -/
theorem commandLog_normalizes :
    (∃ bytes, encodeLogHeader unsortedHeader = .ok bytes ∧
      decodeLogHeader bytes ≠ .ok unsortedHeader) ∧
    decodeCommandRecord (sampleRecord.encoding ++ [0]) = .ok sampleRecord ∧
      encodeCommandRecord sampleRecord ≠ .ok (sampleRecord.encoding ++ [0]) := by
  refine ⟨?_, ?_, ?_⟩
  · have valid : unsortedHeader.canonical.Valid := ⟨rfl, rfl, rfl, by decide, by decide⟩
    refine ⟨_, encodeLogHeader_iff.mpr ⟨valid, rfl⟩, ?_⟩
    intro decoded
    have ordered := (decodeLogHeader_eq_ok.mp decoded).1.catalog
    exact absurd ordered (by decide)
  · exact decodeCommandRecord_eq_ok.mpr ⟨sampleRecord_valid, [0], rfl⟩
  · intro encoded
    have same := (encodeCommandRecord_eq_ok.mp encoded).2
    have lengths := congrArg List.length same
    rw [List.length_append, List.length_singleton] at lengths
    omega

/-- A header is encoded exactly when it can be stored once its catalog is sorted. Whatever follows
the bytes of an encoded header or record, they decode to that header with its catalog sorted, or
to that record, and the first bytes of a record report its length. A catalog that an engine
accepts is sorted already, and the header of every new log of at most 37445 instruments is
encoded, as is exactly every record that can be logged. Re-encoding a decoded header or record gives
exactly the bytes at the front of the string it was decoded from. -/
theorem commandLog_roundTrip :
    (∀ header : LogHeader, (∃ bytes, encodeLogHeader header = .ok bytes) ↔
      header.canonical.Valid) ∧
    (∀ header bytes suffix, encodeLogHeader header = .ok bytes →
      decodeLogHeader (bytes ++ suffix) = .ok header.canonical) ∧
    (∀ header : LogHeader, persistedCatalogValid header.catalog = true →
      header.canonical = header) ∧
    (∀ catalog engineConfig logId header, makeLogHeader catalog engineConfig logId = .ok header →
      catalog.length ≤ 37445 →
      ∃ bytes, encodeLogHeader header = .ok bytes ∧
        ∀ suffix, decodeLogHeader (bytes ++ suffix) = .ok header) ∧
    (∀ record bytes suffix, encodeCommandRecord record = .ok bytes →
      decodeCommandRecord (bytes ++ suffix) = .ok record ∧
        inspectLogRecordLength (bytes ++ suffix) = .ok bytes.length) ∧
    (∀ record : CommandRecord, (∃ bytes, encodeCommandRecord record = .ok bytes) ↔
      record.Valid) ∧
    (∀ bytes header, decodeLogHeader bytes = .ok header →
      ∃ encoded suffix, bytes = encoded ++ suffix ∧ encodeLogHeader header = .ok encoded) ∧
    (∀ bytes record, decodeCommandRecord bytes = .ok record →
      ∃ encoded suffix, bytes = encoded ++ suffix ∧ encodeCommandRecord record = .ok encoded) := by
  refine ⟨?_, ?_, ?_, ?_, ?_, ?_, ?_, ?_⟩
  · intro header
    constructor
    · rintro ⟨bytes, encoded⟩
      exact (encodeLogHeader_iff.mp encoded).1
    · intro valid
      exact ⟨_, encodeLogHeader_iff.mpr ⟨valid, rfl⟩⟩
  · intro header bytes suffix encoded
    obtain ⟨valid, rfl⟩ := encodeLogHeader_iff.mp encoded
    exact decodeLogHeader_eq_ok.mpr ⟨valid, suffix, rfl⟩
  · exact fun header => header.canonical_of_valid
  · intro catalog engineConfig logId header made fits
    have valid := makeLogHeader_valid made fits
    refine ⟨header.encoding, (encodeLogHeader_eq_ok (sortCatalog_of_valid valid.catalog)).mpr
      ⟨valid, rfl⟩, ?_⟩
    intro suffix
    exact decodeLogHeader_eq_ok.mpr ⟨valid, suffix, rfl⟩
  · intro record bytes suffix encoded
    obtain ⟨valid, rfl⟩ := encodeCommandRecord_eq_ok.mp encoded
    exact ⟨decodeCommandRecord_eq_ok.mpr ⟨valid, suffix, rfl⟩,
      inspectLogRecordLength_eq_ok.mpr (record.encoding_framed suffix)⟩
  · intro record
    constructor
    · rintro ⟨bytes, encoded⟩
      exact (encodeCommandRecord_eq_ok.mp encoded).1
    · intro valid
      exact ⟨record.encoding, encodeCommandRecord_eq_ok.mpr ⟨valid, rfl⟩⟩
  · intro bytes header decoded
    obtain ⟨valid, suffix, rfl⟩ := decodeLogHeader_eq_ok.mp decoded
    exact ⟨header.encoding, suffix, rfl,
      (encodeLogHeader_eq_ok (sortCatalog_of_valid valid.catalog)).mpr ⟨valid, rfl⟩⟩
  · intro bytes record decoded
    obtain ⟨valid, suffix, rfl⟩ := decodeCommandRecord_eq_ok.mp decoded
    exact ⟨record.encoding, suffix, rfl, encodeCommandRecord_eq_ok.mpr ⟨valid, rfl⟩⟩

end AtlasLob
