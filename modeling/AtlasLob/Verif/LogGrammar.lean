import AtlasLob.Verif.Corruption
import AtlasLob.Verif.LogScanner

/-!
# The scanner reads the grammar

On a source that serves one byte string, in pieces of whatever size, a scan ends clean exactly
when the string is a log, ends at a torn tail wherever the last record of a log is cut, and
depends on nothing but the string.
-/

namespace AtlasLob

open Binary

/-- The length of a stored header stands in its seventeenth byte and the three after it. -/
theorem LogHeader.Valid.declared {header : LogHeader} (valid : header.Valid)
    (suffix : List UInt8) :
    ofBytes (((header.encoding ++ suffix).drop 16).take 4) = header.encoding.length := by
  obtain ⟨rest, layout⟩ := header.encoding_fields
  have bounded := valid.bounded
  have limit : maxHeaderBytes = 1048576 := rfl
  have total : (UInt32.ofNat (96 + 28 * header.catalog.length)).toNat =
      96 + 28 * header.catalog.length :=
    UInt32.toNat_ofNat_of_lt' (by unfold UInt32.size; omega)
  have word (lead tail : List UInt8) (long : lead.length = 16) (value : UInt32) :
      ((lead ++ (encodeU32 value ++ tail)).drop 16).take 4 = encodeU32 value := by
    have size : (encodeU32 value).length = 4 := toBytes_length _ _
    rw [← long, List.drop_left, ← size, List.take_left]
  rw [header.encoding_length, layout]
  unfold encodeHeaderFields
  simp only [List.append_assoc]
  rw [← List.append_assoc, ← List.append_assoc, ← List.append_assoc, word, ofBytes_encodeU32]
  · exact total
  · simp only [List.length_append, encodeU16, encodeU32, toBytes_length, Block.size]

/-- Some of the bytes of a record that can be logged, from the front. -/
def TornRecord (part : List UInt8) : Prop :=
  ∃ (record : CommandRecord) (missing : List UInt8),
    record.encoding = part ++ missing ∧ missing ≠ []

/-- A record that is cut between its first and its last byte. -/
theorem CommandRecord.torn (record : CommandRecord) {count : Nat} (some : 0 < count)
    (part : count < record.encoding.length) :
    record.encoding.take count ≠ [] ∧ TornRecord (record.encoding.take count) := by
  refine ⟨List.ne_nil_of_length_pos ?_, record, record.encoding.drop count,
    (List.take_append_drop _ _).symm, List.ne_nil_of_length_pos ?_⟩
  · rw [List.length_take]
    omega
  · rw [List.length_drop]
    omega

section Completeness

variable {source : LogSource} {options : LogScanOptions} {content : List UInt8}
  {seen : List LogVisit}

open Interruptible

/-- A read of a served string returns its bytes. -/
theorem readOrStop_served (serves : source.Serves content) (valid : options.valid = true)
    (result : LogScanResult) {offset count : Nat} (inside : offset + count ≤ content.length) :
    Holds (fun state => state.visits = seen) (readOrStop source options result offset count)
      (fun bytes state => bytes = (content.drop offset).take count ∧ state.visits = seen)
      (fun _ _ => False) := by
  have chunk : 0 < options.readChunkBytes := Nat.pos_of_ne_zero (of_decide_eq_true valid)
  intro state same
  obtain ⟨later, read⟩ := serves.readExact chunk inside state.calls
  unfold readOrStop
  rw [read]
  exact ⟨rfl, same⟩

/-- A read of what is left of a served string returns its bytes. -/
theorem readAvailablePrefix_served (serves : source.Serves content)
    (valid : options.valid = true) (result : LogScanResult) {offset available size : Nat}
    (inside : offset + available ≤ content.length) (fits : available ≤ size) :
    Holds (fun state => state.visits = seen)
      (readAvailablePrefix source options result offset available size)
      (fun bytes state => bytes = (content.drop offset).take available ∧ state.visits = seen)
      (fun _ _ => False) := by
  unfold readAvailablePrefix
  rw [if_neg (by omega)]
  exact readOrStop_served serves valid result inside

/-- A stored header in front of a served string is accepted. -/
theorem scanHeader_served (serves : source.Serves content) (valid : options.valid = true)
    (result : LogScanResult) (same : result.sourceExtent = content.length) {header : LogHeader}
    (headed : header.Valid) {suffix : List UInt8} (layout : content = header.encoding ++ suffix) :
    Holds (fun state => state.visits = seen) (scanHeader source options result)
      (fun found state => found = (header, header.encoding) ∧ state.visits = seen)
      (fun _ _ => False) := by
  have declared := headed.declared suffix
  have inspected := headed.inspected suffix
  have size := header.encoding_length
  have bounded := headed.bounded
  rw [← layout] at declared inspected
  have total : header.encoding.length ≤ content.length := by
    rw [layout, List.length_append]
    omega
  unfold scanHeader commandLogHeaderFixedBytes commandLogHeaderFixedPrefixBytes
  rw [same, if_neg (by omega)]
  apply (readOrStop_served serves valid result (by omega)).bind
  intro first
  apply Holds.withFact
  rintro rfl
  have word : decodeU32 (((content.drop 0).take 20).drop 16) = header.encoding.length := by
    unfold decodeU32
    rw [List.drop_zero, List.drop_take]
    exact declared
  rw [word, if_neg (by omega), if_neg (by omega), if_neg (by omega)]
  apply (readOrStop_served serves valid result (by omega)).bind
  intro second
  apply Holds.withFact
  rintro rfl
  have fixed : (content.drop 0).take 20 ++ (content.drop 20).take 40 = content.take 60 := by
    rw [List.drop_zero, ← List.take_add]
  have cut : inspectLogHeaderLength (content.take 60) = .ok header.encoding.length := by
    rw [← inspectLogHeaderLength_append (by rw [List.length_take]; omega) (content.drop 60),
      List.take_append_drop, inspected]
  rw [fixed, cut]
  simp only
  rw [if_neg (not_not.mpr rfl), if_neg (by omega)]
  apply (readOrStop_served serves valid result (by omega)).bind
  intro third
  apply Holds.withFact
  rintro rfl
  have whole : content.take 60 ++ (content.drop 60).take (header.encoding.length - 60) =
      header.encoding := by
    rw [← List.take_add, Nat.add_sub_cancel' (by omega), layout, List.take_left]
  have decoded : decodeLogHeader header.encoding = .ok header := by
    have read := decodeLogHeader_layout headed []
    rwa [List.append_nil] at read
  rw [whole]
  simp only [decoded]
  exact Holds.pure fun _ visits => ⟨rfl, visits⟩

/-- A stored record that comes next is accepted. -/
theorem scanFrame_served (serves : source.Serves content) (valid : options.valid = true)
    (result : LogScanResult) (same : result.sourceExtent = content.length) {frameOffset : Nat}
    {record : CommandRecord} (stored : record.Valid)
    (next : result.nextSequence = some record.sequence) {suffix : List UInt8}
    (layout : content.drop frameOffset = record.encoding ++ suffix) :
    Holds (fun state => state.visits = seen) (scanFrame source options result frameOffset)
      (fun found state => found = some (record, record.encoding) ∧ state.visits = seen)
      (fun _ _ => False) := by
  have framed := record.encoding_framed suffix
  rw [← layout] at framed
  have size := record.encoding_length
  have lower := framed.lower
  have upper := framed.upper
  have total : frameOffset + record.encoding.length ≤ content.length := by
    have lengths := congrArg List.length layout
    rw [List.length_drop, List.length_append] at lengths
    omega
  unfold scanFrame commandLogRecordFixedBytes commandLogRecordLengthPrefixBytes maxRecordBytes
  rw [same, if_neg (by omega)]
  apply (readOrStop_served serves valid result (by omega)).bind
  intro first
  apply Holds.withFact
  rintro rfl
  have word : decodeU32 ((content.drop frameOffset).take 4) = record.encoding.length :=
    framed.totalLength
  rw [word, if_neg (by omega), if_neg (by omega), if_neg (by omega)]
  apply (readOrStop_served serves valid result (by omega)).bind
  intro second
  apply Holds.withFact
  rintro rfl
  have fixed : (content.drop frameOffset).take 4 ++ (content.drop (frameOffset + 4)).take 4 =
      (content.drop frameOffset).take 8 := by
    rw [← List.drop_drop, ← List.take_add]
  have cut : inspectLogRecordLength ((content.drop frameOffset).take 8) =
      .ok record.encoding.length :=
    inspectLogRecordLength_eq_ok.mpr framed.cut
  rw [fixed, cut]
  simp only
  rw [if_neg (not_not.mpr rfl)]
  apply (readAvailablePrefix_served serves valid result (by omega) (by omega)).bind
  intro body
  apply Holds.withFact
  rintro rfl
  rw [if_neg (by omega)]
  have whole : (content.drop frameOffset).take 8 ++ (content.drop (frameOffset + 8)).take
      (min (content.length - frameOffset) record.encoding.length - 8) = record.encoding := by
    rw [← List.drop_drop, ← List.take_add, Nat.min_eq_right (by omega),
      Nat.add_sub_cancel' (by omega), layout, List.take_left]
  have decoded : decodeCommandRecord record.encoding = .ok record :=
    decodeCommandRecord_eq_ok.mpr ⟨stored, [], (List.append_nil _).symm⟩
  rw [whole]
  simp only [decoded]
  unfold checkSequence
  rw [next]
  simp only
  rw [if_neg (UInt64.lt_irrefl _), if_neg (UInt64.lt_irrefl _)]
  exact Holds.pure fun _ visits => ⟨rfl, visits⟩

/-- A record cut off before its end is a torn tail. -/
theorem scanFrame_torn (serves : source.Serves content) (valid : options.valid = true)
    (result : LogScanResult) (same : result.sourceExtent = content.length) {frameOffset : Nat}
    (inside : frameOffset < content.length)
    (torn : TornRecord (content.drop frameOffset)) :
    Holds (fun state => state.visits = seen) (scanFrame source options result frameOffset)
      (fun found state => found = none ∧ state.visits = seen) (fun _ _ => False) := by
  obtain ⟨record, missing, layout, cut⟩ := torn
  have framed := record.encoding_framed []
  rw [List.append_nil] at framed
  have lower := framed.lower
  have upper := framed.upper
  have short : content.length - frameOffset < record.encoding.length := by
    have lengths := congrArg List.length layout
    have positive := List.length_pos_iff.mpr cut
    rw [List.length_append, List.length_drop] at lengths
    omega
  have rest : (content.drop frameOffset).length = content.length - frameOffset :=
    List.length_drop
  unfold scanFrame commandLogRecordFixedBytes commandLogRecordLengthPrefixBytes maxRecordBytes
  rw [same]
  apply Holds.ite
  · intro _
    apply (readAvailablePrefix_served serves valid result (by omega) (by omega)).bind
    intro _
    apply Holds.withFact
    intro _
    exact Holds.pure fun _ visits => ⟨rfl, visits⟩
  intro long
  apply (readOrStop_served serves valid result (by omega)).bind
  intro first
  apply Holds.withFact
  rintro rfl
  have word : decodeU32 ((content.drop frameOffset).take 4) = record.encoding.length := by
    have total := framed.totalLength
    rw [layout, List.take_append_of_le_length (by omega), ← layout] at total
    exact total
  rw [word, if_neg (by omega), if_neg (by omega)]
  apply Holds.ite
  · intro _
    apply (readAvailablePrefix_served serves valid result (by omega) (by omega)).bind
    intro _
    apply Holds.withFact
    intro _
    exact Holds.pure fun _ visits => ⟨rfl, visits⟩
  intro fixedLong
  apply (readOrStop_served serves valid result (by omega)).bind
  intro second
  apply Holds.withFact
  rintro rfl
  have fixed : (content.drop frameOffset).take 4 ++ (content.drop (frameOffset + 4)).take 4 =
      (content.drop frameOffset).take 8 := by
    rw [← List.drop_drop, ← List.take_add]
  have inspected : inspectLogRecordLength ((content.drop frameOffset).take 8) =
      .ok record.encoding.length := by
    have front := inspectLogRecordLength_eq_ok.mpr framed.cut
    rw [layout, List.take_append_of_le_length (by omega), ← layout] at front
    exact front
  rw [fixed, inspected]
  simp only
  rw [if_neg (not_not.mpr rfl)]
  apply (readAvailablePrefix_served serves valid result (by omega) (by omega)).bind
  intro body
  apply Holds.withFact
  intro _
  rw [if_pos (by omega)]
  exact Holds.pure fun _ visits => ⟨rfl, visits⟩

/-- The running result at the end of the frames of a served log. -/
def CommandLog.reached (log : CommandLog) (extent : Nat) : LogScanResult :=
  if log.encoding.length = extent then log.scanned extent
  else (log.scanned extent).setError .truncatedTail .truncatedFinalRecord extent none

/-- The frames of a served log end with it: either nothing follows or a torn record does. -/
theorem scanFrames_end (serves : source.Serves content) (valid : options.valid = true)
    (log : CommandLog) {tail : List UInt8} (cut : tail = [] ∨ TornRecord tail)
    (layout : content.drop log.encoding.length = tail)
    (inside : log.encoding.length ≤ content.length) (frames : Nat)
    (enough : content.length ≤ log.encoding.length + frames) :
    Holds (fun state => state.visits = log.visits)
      (scanFrames source options frames (log.scanned content.length) log.hash
        log.encoding.length)
      (fun found state => found = (log.reached content.length, log.hash, log.encoding.length) ∧
        state.visits = log.visits)
      (fun _ _ => False) := by
  have extent : (log.scanned content.length).sourceExtent = content.length := rfl
  have ended (whole : log.encoding.length = content.length) :
      log.reached content.length = log.scanned content.length := if_pos whole
  cases frames with
  | zero =>
    unfold scanFrames
    exact Holds.pure fun _ visits => ⟨by rw [ended (by omega)], visits⟩
  | succ frames =>
    unfold scanFrames
    apply Holds.ite
    · intro more
      have remains : tail ≠ [] := by
        rintro rfl
        have lengths := congrArg List.length layout
        rw [List.length_drop, List.length_nil] at lengths
        omega
      have torn : TornRecord (content.drop log.encoding.length) := by
        rw [layout]
        exact cut.resolve_left remains
      apply (scanFrame_torn serves valid _ extent more torn).bind
      intro found
      apply Holds.withFact
      rintro rfl
      apply Holds.pure
      intro state visits
      refine ⟨?_, visits⟩
      unfold CommandLog.reached
      rw [if_neg (by omega), extent]
    · intro stopped
      exact Holds.pure fun _ visits => ⟨by rw [ended (by omega)], visits⟩

/-- The frames of a served log are its records, up to its end or a torn record. The induction
is on the records still to come. -/
theorem scanFrames_served (serves : source.Serves content) (valid : options.valid = true)
    (whole : CommandLog) {tail : List UInt8} (cut : tail = [] ∨ TornRecord tail)
    (coming : List CommandRecord) (log : CommandLog) (header : whole.header = log.header)
    (records : whole.records = log.records ++ coming)
    (layout : content.drop log.encoding.length = coming.flatMap CommandRecord.encoding ++ tail)
    (inside : log.encoding.length ≤ content.length) (frames : Nat)
    (enough : content.length ≤ log.encoding.length + frames) :
    Holds (fun state => state.visits = log.visits)
      (scanFrames source options frames (log.scanned content.length) log.hash
        log.encoding.length)
      (fun found state => found = (whole.reached content.length, whole.hash,
        whole.encoding.length) ∧ state.visits = whole.visits)
      (fun _ _ => False) := by
  induction coming generalizing log frames with
  | nil =>
    rw [List.append_nil] at records
    obtain rfl := CommandLog.eq_of_parts header records
    exact scanFrames_end serves valid whole cut layout inside frames enough
  | cons record rest ih =>
    rw [List.flatMap_cons, List.append_assoc] at layout
    have stored : record.Valid := whole.logged record (by
      rw [records]
      exact List.mem_append_right _ List.mem_cons_self)
    have turn : record.sequence.toNat = log.records.length + 1 :=
      whole.numbered _ record (by
        rw [records, List.getElem?_append_right (Nat.le_refl _), Nat.sub_self]
        rfl)
    have size := record.encoding_length
    have room : log.encoding.length + record.encoding.length ≤ content.length := by
      have lengths := congrArg List.length layout
      rw [List.length_drop, List.length_append] at lengths
      omega
    cases frames with
    | zero => omega
    | succ frames =>
      have later := ih (log.extend record stored turn) header
        (by rw [records]; exact (List.append_assoc _ _ _).symm ▸ rfl)
        (by
          rw [log.extend_encoding, List.length_append, ← List.drop_drop, layout,
            List.drop_left])
        (by rw [log.extend_encoding, List.length_append]; exact room) frames
        (by rw [log.extend_encoding, List.length_append]; omega)
      rw [log.extend_scanned, log.extend_hash, log.extend_encoding, List.length_append,
        log.extend_visits] at later
      unfold scanFrames
      rw [if_pos (show log.encoding.length < (log.scanned content.length).sourceExtent from by
        have extent : (log.scanned content.length).sourceExtent = content.length := rfl
        omega)]
      apply (scanFrame_served serves valid _ rfl stored
        (log.nextSequence_eq_some.mpr turn) layout).bind
      intro found
      apply Holds.withFact
      rintro rfl
      apply Holds.through fun _ state => state.visits = log.visits ++
        [.record record record.encoding log.encoding.length
          (log.encoding.length + record.encoding.length)]
      · apply Holds.change
        intro state visits
        rw [visits]
      · intro _
        exact later

/-- A scan of a served log with at most a torn record behind it reports exactly the log. -/
theorem scanBody_served (log : CommandLog) {tail : List UInt8}
    (serves : source.Serves (log.encoding ++ tail)) (valid : options.valid = true)
    (cut : tail = [] ∨ TornRecord tail) :
    Holds (fun state => state.visits = []) (scanBody source options)
      (fun result state => result = (log.reached (log.encoding ++ tail).length).finish log.hash
        log.encoding.length ∧ state.visits = log.visits)
      (fun _ _ => False) := by
  have split : log.encoding ++ tail = log.header.encoding ++
      (log.records.flatMap CommandRecord.encoding ++ tail) := by
    unfold CommandLog.encoding
    rw [List.append_assoc]
  have fresh : (CommandLog.start log.header log.headed).hash =
      Sha256.initial.update log.header.encoding := by
    unfold CommandLog.hash CommandLog.start
    rw [List.foldl_nil]
  have empty : (CommandLog.start log.header log.headed).encoding = log.header.encoding := by
    unfold CommandLog.encoding CommandLog.start
    rw [List.flatMap_nil, List.append_nil]
  have frames := scanFrames_served serves valid log cut log.records
    (CommandLog.start log.header log.headed) rfl rfl
    (by rw [empty, split, List.drop_left])
    (by rw [empty, split, List.length_append]; omega) (log.encoding ++ tail).length (by omega)
  rw [CommandLog.start_scanned, empty, fresh] at frames
  generalize log.encoding ++ tail = content at serves split frames
  unfold scanBody
  rw [if_neg (by rw [valid]; decide)]
  apply Holds.through fun extent state => extent = content.length ∧ state.visits = []
  · intro state visits
    unfold extentOrStop
    rw [serves.extent]
    exact ⟨rfl, visits⟩
  intro extent
  apply Holds.withFact
  rintro rfl
  apply (scanHeader_served serves valid _ rfl log.headed split).bind
  intro found
  apply Holds.withFact
  rintro rfl
  apply Holds.through fun _ state =>
    state.visits = (CommandLog.start log.header log.headed).visits
  · apply Holds.change
    intro state visits
    rw [visits]
    rfl
  intro _
  apply frames.bind
  intro ended
  apply Holds.withFact
  rintro rfl
  exact Holds.pure fun _ visits => ⟨rfl, visits⟩

/-- A scan of a served log ends clean and reports the log. -/
theorem scanCommandLog_clean (log : CommandLog) (serves : source.Serves log.encoding)
    (valid : options.valid = true) (calls : Nat) :
    (scanCommandLog source options calls).1 = log.cleanScan ∧
      (scanCommandLog source options calls).2.visits = log.visits := by
  rw [← List.append_nil log.encoding] at serves
  obtain ⟨result, state, run, rfl, visits⟩ :=
    (scanBody_served log serves valid (.inl rfl)).returns ⟨calls, []⟩ rfl
  unfold scanCommandLog
  rw [run, List.append_nil]
  refine ⟨?_, visits⟩
  simp only [CommandLog.reached, if_true]
  exact log.finish_whole

/-- A scan of a served log with a torn record behind it ends before that record. -/
theorem scanCommandLog_torn (log : CommandLog) {tail : List UInt8}
    (serves : source.Serves (log.encoding ++ tail)) (valid : options.valid = true)
    (remains : tail ≠ []) (torn : TornRecord tail) (calls : Nat) :
    (scanCommandLog source options calls).1 = log.tornScan (log.encoding ++ tail).length ∧
      (scanCommandLog source options calls).2.visits = log.visits := by
  obtain ⟨result, state, run, rfl, visits⟩ :=
    (scanBody_served log serves valid (.inr torn)).returns ⟨calls, []⟩ rfl
  have positive := List.length_pos_iff.mpr remains
  have short : log.encoding.length < (log.encoding ++ tail).length := by
    rw [List.length_append]
    omega
  unfold scanCommandLog
  rw [run]
  refine ⟨?_, visits⟩
  simp only [CommandLog.reached, if_neg (Nat.ne_of_lt short)]
  exact log.finish_torn short

end Completeness

section Agreement

variable {left right : LogSource} {leftOptions rightOptions : LogScanOptions}
  {content : List UInt8}

open Interruptible

/-- The same reports to the visitor. -/
def SameVisits (first second : ScanState) : Prop := first.visits = second.visits

/-- Reads of one string return the same bytes. -/
theorem readOrStop_alike (leftServes : left.Serves content) (rightServes : right.Serves content)
    (leftValid : leftOptions.valid = true) (rightValid : rightOptions.valid = true)
    (result : LogScanResult) {offset count : Nat} (inside : offset + count ≤ content.length) :
    Alike SameVisits (readOrStop left leftOptions result offset count)
      (readOrStop right rightOptions result offset count) := by
  intro first second same
  have leftChunk : 0 < leftOptions.readChunkBytes :=
    Nat.pos_of_ne_zero (of_decide_eq_true leftValid)
  have rightChunk : 0 < rightOptions.readChunkBytes :=
    Nat.pos_of_ne_zero (of_decide_eq_true rightValid)
  obtain ⟨leftLater, leftRead⟩ := leftServes.readExact leftChunk inside first.calls
  obtain ⟨rightLater, rightRead⟩ := rightServes.readExact rightChunk inside second.calls
  unfold readOrStop
  rw [leftRead, rightRead]
  exact ⟨rfl, same⟩

/-- Reads of what is left of one string return the same bytes. -/
theorem readAvailablePrefix_alike (leftServes : left.Serves content)
    (rightServes : right.Serves content) (leftValid : leftOptions.valid = true)
    (rightValid : rightOptions.valid = true) (result : LogScanResult) {offset available : Nat}
    (size : Nat) (inside : offset + available ≤ content.length) :
    Alike SameVisits (readAvailablePrefix left leftOptions result offset available size)
      (readAvailablePrefix right rightOptions result offset available size) := by
  unfold readAvailablePrefix
  apply Alike.ite fun _ => Alike.stop _
  intro _
  exact readOrStop_alike leftServes rightServes leftValid rightValid result inside

/-- Scans of one string read the same header. -/
theorem scanHeader_alike (leftServes : left.Serves content) (rightServes : right.Serves content)
    (leftValid : leftOptions.valid = true) (rightValid : rightOptions.valid = true)
    (result : LogScanResult) (same : result.sourceExtent = content.length) :
    Alike SameVisits (scanHeader left leftOptions result)
      (scanHeader right rightOptions result) := by
  unfold scanHeader commandLogHeaderFixedPrefixBytes
  rw [same]
  apply Alike.ite
  · intro _
    exact (readAvailablePrefix_alike leftServes rightServes leftValid rightValid result 60
      (by omega)).bind fun _ => Alike.stop _
  intro _
  apply (readOrStop_alike leftServes rightServes leftValid rightValid result (by omega)).bind
  intro first
  apply Alike.ite fun _ => Alike.stop _
  intro _
  apply Alike.ite fun _ => Alike.stop _
  intro _
  apply Alike.ite
  · intro _
    exact (readAvailablePrefix_alike leftServes rightServes leftValid rightValid result 40
      (by omega)).bind fun _ => Alike.stop _
  intro _
  apply (readOrStop_alike leftServes rightServes leftValid rightValid result (by omega)).bind
  intro second
  cases inspectLogHeaderLength (first ++ second) with
  | error refused => exact Alike.stop _
  | ok length =>
    apply Alike.ite fun _ => Alike.stop _
    intro _
    apply Alike.ite
    · intro _
      exact (readAvailablePrefix_alike leftServes rightServes leftValid rightValid result _
        (by omega)).bind fun _ => Alike.stop _
    intro _
    apply (readOrStop_alike leftServes rightServes leftValid rightValid result (by omega)).bind
    intro third
    cases decoded : decodeLogHeader (first ++ second ++ third) with
    | error refused =>
      simp only [decoded]
      exact Alike.stop _
    | ok header =>
      simp only [decoded]
      exact Alike.pure _

/-- Scans of one string take the same frame. -/
theorem scanFrame_alike (leftServes : left.Serves content) (rightServes : right.Serves content)
    (leftValid : leftOptions.valid = true) (rightValid : rightOptions.valid = true)
    (result : LogScanResult) (same : result.sourceExtent = content.length) {frameOffset : Nat}
    (inside : frameOffset < content.length) :
    Alike SameVisits (scanFrame left leftOptions result frameOffset)
      (scanFrame right rightOptions result frameOffset) := by
  unfold scanFrame commandLogRecordFixedBytes commandLogRecordLengthPrefixBytes
  rw [same]
  apply Alike.ite
  · intro _
    exact (readAvailablePrefix_alike leftServes rightServes leftValid rightValid result 8
      (by omega)).bind fun _ => Alike.pure _
  intro _
  apply (readOrStop_alike leftServes rightServes leftValid rightValid result (by omega)).bind
  intro first
  apply Alike.ite fun _ => Alike.stop _
  intro lower
  apply Alike.ite fun _ => Alike.stop _
  intro _
  apply Alike.ite
  · intro _
    exact (readAvailablePrefix_alike leftServes rightServes leftValid rightValid result 4
      (by omega)).bind fun _ => Alike.pure _
  intro _
  apply (readOrStop_alike leftServes rightServes leftValid rightValid result (by omega)).bind
  intro second
  cases inspectLogRecordLength (first ++ second) with
  | error refused => exact Alike.stop _
  | ok length =>
    apply Alike.ite fun _ => Alike.stop _
    intro _
    apply (readAvailablePrefix_alike leftServes rightServes leftValid rightValid result _
      (by omega)).bind
    intro body
    apply Alike.ite fun _ => Alike.pure _
    intro _
    cases decoded : decodeCommandRecord (first ++ second ++ body) with
    | error refused =>
      simp only [decoded]
      exact Alike.stop _
    | ok record =>
      simp only [decoded]
      apply Alike.bind
      · unfold checkSequence
        cases result.nextSequence with
        | none => exact Alike.stop _
        | some next =>
          apply Alike.ite fun _ => Alike.stop _
          intro _
          exact Alike.ite (fun _ => Alike.stop _) fun _ => Alike.pure _
      · intro _
        exact Alike.pure _

/-- Both visitors get the same report. -/
theorem visit_alike (report : LogVisit) : Alike SameVisits (visit report) (visit report) :=
  Alike.change fun first second same => by
    unfold SameVisits at same ⊢
    simp only [same]

/-- Scans of one string take the same frames. -/
theorem scanFrames_alike (leftServes : left.Serves content) (rightServes : right.Serves content)
    (leftValid : leftOptions.valid = true) (rightValid : rightOptions.valid = true)
    (frames : Nat) (result : LogScanResult) (same : result.sourceExtent = content.length)
    (hash : Sha256) (frameOffset : Nat) :
    Alike SameVisits (scanFrames left leftOptions frames result hash frameOffset)
      (scanFrames right rightOptions frames result hash frameOffset) := by
  induction frames generalizing result hash frameOffset with
  | zero => exact Alike.pure _
  | succ frames ih =>
    unfold scanFrames
    apply Alike.ite
    · intro more
      rw [same] at more
      apply (scanFrame_alike leftServes rightServes leftValid rightValid result same more).bind
      intro found
      cases found with
      | none => exact Alike.pure _
      | some frame =>
        exact (visit_alike _).bind fun _ => ih (result.accept frame.1 _) same _ _
    · intro _
      exact Alike.pure _

/-- Scans of one string are alike, however it is served. -/
theorem scanBody_alike (leftServes : left.Serves content) (rightServes : right.Serves content)
    (leftValid : leftOptions.valid = true) (rightValid : rightOptions.valid = true) :
    Alike SameVisits (scanBody left leftOptions) (scanBody right rightOptions) := by
  unfold scanBody
  rw [if_neg (by rw [leftValid]; decide), if_neg (by rw [rightValid]; decide)]
  have extents : Alike SameVisits (extentOrStop left LogScanResult.initial)
      (extentOrStop right LogScanResult.initial) := by
    intro first second same
    unfold extentOrStop
    rw [leftServes.extent, rightServes.extent]
    exact ⟨rfl, same⟩
  have known (state : ScanState) (extent : Nat)
      (returned : (extentOrStop left LogScanResult.initial state).1 = .ok extent) :
      extent = content.length := by
    unfold extentOrStop at returned
    rw [leftServes.extent] at returned
    exact (Except.ok.inj returned).symm
  apply extents.bind_knowing known
  rintro extent rfl
  apply (scanHeader_alike leftServes rightServes leftValid rightValid _ rfl).bind
  intro found
  apply (visit_alike _).bind
  intro _
  apply (scanFrames_alike leftServes rightServes leftValid rightValid _ _ rfl _ _).bind
  intro ended
  exact Alike.pure _

/-- The result of a scan and its visits depend on the string alone. -/
theorem scanCommandLog_alike (leftServes : left.Serves content)
    (rightServes : right.Serves content) (leftValid : leftOptions.valid = true)
    (rightValid : rightOptions.valid = true) (leftCalls rightCalls : Nat) :
    (scanCommandLog left leftOptions leftCalls).1 =
        (scanCommandLog right rightOptions rightCalls).1 ∧
      (scanCommandLog left leftOptions leftCalls).2.visits =
        (scanCommandLog right rightOptions rightCalls).2.visits := by
  have alike := scanBody_alike leftServes rightServes leftValid rightValid ⟨leftCalls, []⟩
    ⟨rightCalls, []⟩ rfl
  unfold scanCommandLog
  cases leftRun : scanBody left leftOptions ⟨leftCalls, []⟩ with
  | mk leftOutcome leftState =>
    cases rightRun : scanBody right rightOptions ⟨rightCalls, []⟩ with
    | mk rightOutcome rightState =>
      rw [leftRun, rightRun] at alike
      obtain ⟨outcome, visits⟩ := alike
      cases outcome
      cases leftOutcome with
      | error result => exact ⟨rfl, visits⟩
      | ok result => exact ⟨rfl, visits⟩

end Agreement

/-- The bytes that the encoders write for a header and records numbered from one. -/
def Encoded (content : List UInt8) : Prop :=
  ∃ (header : LogHeader) (headerBytes : List UInt8) (records : List CommandRecord)
    (frames : List (List UInt8)), encodeLogHeader header = .ok headerBytes ∧
      List.Forall₂ (fun record frame => encodeCommandRecord record = .ok frame) records frames ∧
      NumberedFromOne records ∧ content = headerBytes ++ frames.flatten

/-- Records are encoded exactly when they can be logged, and then as their bytes. -/
theorem forall_encodeCommandRecord_iff {records : List CommandRecord}
    {frames : List (List UInt8)} :
    List.Forall₂ (fun record frame => encodeCommandRecord record = .ok frame) records frames ↔
      (∀ record ∈ records, record.Valid) ∧ frames = records.map CommandRecord.encoding := by
  constructor
  · intro encoded
    induction encoded with
    | nil => exact ⟨by simp, rfl⟩
    | cons first _ ih =>
      obtain ⟨valid, rfl⟩ := encodeCommandRecord_eq_ok.mp first
      exact ⟨List.forall_mem_cons.mpr ⟨valid, ih.1⟩, by rw [ih.2, List.map_cons]⟩
  · rintro ⟨valid, rfl⟩
    rw [List.forall₂_map_right_iff, List.forall₂_same]
    intro record inside
    exact encodeCommandRecord_eq_ok.mpr ⟨valid record inside, rfl⟩

/-- The encoders write exactly the logs. -/
theorem encoded_iff {content : List UInt8} :
    Encoded content ↔ ∃ log : CommandLog, content = log.encoding := by
  constructor
  · rintro ⟨header, headerBytes, records, frames, encoded, framed, numbered, rfl⟩
    obtain ⟨headed, rfl⟩ := encodeLogHeader_iff.mp encoded
    obtain ⟨logged, rfl⟩ := forall_encodeCommandRecord_iff.mp framed
    exact ⟨⟨_, records, headed, logged, numbered⟩, rfl⟩
  · rintro ⟨log, rfl⟩
    refine ⟨log.header, log.header.encoding, log.records, _, ?_,
      forall_encodeCommandRecord_iff.mpr ⟨log.logged, rfl⟩, log.numbered, rfl⟩
    exact (encodeLogHeader_eq_ok (sortCatalog_of_valid log.headed.catalog)).mpr
      ⟨log.headed, rfl⟩

/-- The bytes of a log around one of its records. -/
theorem CommandLog.encoding_around (log : CommandLog) {index : Nat} {record : CommandRecord}
    (found : log.records[index]? = some record) :
    ∃ rest, log.encoding = (log.upTo index).encoding ++ (record.encoding ++ rest) ∧
      (log.upTo (index + 1)).encoding = (log.upTo index).encoding ++ record.encoding := by
  have next : log.records.take (index + 1) = log.records.take index ++ [record] := by
    rw [List.take_add_one, found]
    rfl
  have longer : (log.upTo (index + 1)).encoding =
      (log.upTo index).encoding ++ record.encoding := by
    unfold encoding upTo
    simp only [next, List.flatMap_append, List.flatMap_singleton, List.append_assoc]
  refine ⟨(log.records.drop (index + 1)).flatMap CommandRecord.encoding, ?_, longer⟩
  rw [← List.append_assoc, ← longer]
  unfold encoding upTo
  rw [List.append_assoc, ← List.flatMap_append, List.take_append_drop]

/-- The scanner accepts exactly the grammar. A scan of a served string ends clean if and only if
the encoders write that string; then it reports the log. Cut inside a record, a log is reported up
to the record before with a torn tail. And only the string matters: any two ways of serving it, in
pieces of any size, lead to the same result and the same visits. -/
theorem scanCommandLog_recognizes {source : LogSource} {content : List UInt8}
    (serves : source.Serves content) {options : LogScanOptions} (valid : options.valid = true)
    (calls : Nat) :
    ((scanCommandLog source options calls).1.termination = .cleanEof ↔ Encoded content) ∧
    (∀ log : CommandLog, content = log.encoding →
      (scanCommandLog source options calls).1 = log.cleanScan ∧
        (scanCommandLog source options calls).2.visits = log.visits) ∧
    (∀ (log : CommandLog) (index : Nat) (record : CommandRecord) (cut : Nat),
      log.records[index]? = some record → (log.upTo index).encoding.length < cut →
      cut < (log.upTo (index + 1)).encoding.length → content = log.encoding.take cut →
      (scanCommandLog source options calls).1 = (log.upTo index).tornScan cut ∧
        (scanCommandLog source options calls).2.visits = (log.upTo index).visits) ∧
    (∀ (other : LogSource) (otherOptions : LogScanOptions) (otherCalls : Nat),
      other.Serves content → otherOptions.valid = true →
      (scanCommandLog source options calls).1 =
          (scanCommandLog other otherOptions otherCalls).1 ∧
        (scanCommandLog source options calls).2.visits =
          (scanCommandLog other otherOptions otherCalls).2.visits) := by
  have clean (log : CommandLog) (layout : content = log.encoding) :
      (scanCommandLog source options calls).1 = log.cleanScan ∧
        (scanCommandLog source options calls).2.visits = log.visits := by
    rw [layout] at serves
    exact scanCommandLog_clean log serves valid calls
  refine ⟨?_, clean, ?_, ?_⟩
  · rw [encoded_iff]
    constructor
    · intro ended
      have ends := scanCommandLog_ends serves.shows valid calls
      generalize (scanCommandLog source options calls).2.visits = visits at ends
      generalize (scanCommandLog source options calls).1 = result at ends ended
      cases ends with
      | clean log known shown =>
        rw [List.drop_zero] at shown
        exact ⟨log, (shown.eq_of_length known).symm⟩
      | torn log extent known shown short => cases ended
      | broken _ _ failed _ =>
        rcases failed with failed | failed <;>
        · rw [ended] at failed
          cases failed
    · rintro ⟨log, layout⟩
      rw [(clean log layout).1]
      rfl
  · intro log index record cut found after before layout
    obtain ⟨rest, around, longer⟩ := log.encoding_around found
    rw [longer, List.length_append] at before
    obtain ⟨kept, rfl⟩ := Nat.exists_eq_add_of_lt after
    have torn : content = (log.upTo index).encoding ++ record.encoding.take (kept + 1) := by
      rw [layout, around, Nat.add_assoc, List.take_length_add_append,
        List.take_append_of_le_length (by omega)]
    have length : content.length = (log.upTo index).encoding.length + kept + 1 := by
      rw [torn, List.length_append, List.length_take, Nat.min_eq_left (by omega)]
      omega
    rw [torn] at serves
    have scan := scanCommandLog_torn (log.upTo index) serves valid
      (by
        apply List.ne_nil_of_length_pos
        rw [List.length_take]
        omega)
      ⟨record, record.encoding.drop (kept + 1), (List.take_append_drop _ _).symm, by
        apply List.ne_nil_of_length_pos
        rw [List.length_drop]
        omega⟩ calls
    rw [← torn, length] at scan
    exact scan
  · intro other otherOptions otherCalls otherServes otherValid
    exact scanCommandLog_alike serves otherServes valid otherValid calls otherCalls

/-- The source that answers every read in full. -/
def steadySource (content : List UInt8) : LogSource where
  extent := fun _ => .ok content.length
  readAt := fun _ offset requested => .ok ((content.drop offset).take requested)

/-- Answering in full serves the string. -/
theorem steadySource_serves (content : List UInt8) : (steadySource content).Serves content where
  extent := fun _ => rfl
  reads := fun _ _ requested positive _ => ⟨requested, positive, Nat.le_refl _, rfl⟩

/-- The header of a log of one instrument. -/
def sampleHeader : LogHeader where
  formatVersion := commandLogFormatVersion
  semanticsVersion := atlaslobSemanticsVersion
  logId := ⟨List.replicate 16 7, rfl⟩
  firstSequence := commandLogFirstSequence
  engineConfig := ⟨10⟩
  catalog := [⟨1, 100, 5, 10⟩]

/-- The header can be stored. -/
theorem sampleHeader_valid : sampleHeader.Valid :=
  ⟨rfl, rfl, rfl, by decide, by decide⟩

/-- A log of one withdrawal. -/
def sampleLog : CommandLog :=
  (CommandLog.start sampleHeader sampleHeader_valid).extend sampleRecord sampleRecord_valid rfl

/-- The log of one withdrawal is accepted in pieces of four bytes. Cut within its record, it is
torn behind its header. -/
theorem scanCommandLog_recognizes_sample :
    Encoded sampleLog.encoding ∧
      (scanCommandLog (steadySource sampleLog.encoding) ⟨4⟩ 0).1 = sampleLog.cleanScan ∧
      (scanCommandLog (steadySource sampleLog.encoding) ⟨4⟩ 0).2.visits = sampleLog.visits ∧
      (scanCommandLog (steadySource (sampleLog.encoding.take 130)) ⟨4⟩ 0).1 =
        (sampleLog.upTo 0).tornScan 130 ∧
      (scanCommandLog (steadySource (sampleLog.encoding.take 130)) ⟨4⟩ 0).2.visits =
        (sampleLog.upTo 0).visits := by
  have whole := scanCommandLog_recognizes (steadySource_serves sampleLog.encoding)
    (show (⟨4⟩ : LogScanOptions).valid = true from rfl) 0
  have cut := scanCommandLog_recognizes (steadySource_serves (sampleLog.encoding.take 130))
    (show (⟨4⟩ : LogScanOptions).valid = true from rfl) 0
  have clean := whole.2.1 sampleLog rfl
  have torn := cut.2.2.1 sampleLog 0 sampleRecord 130 rfl (by decide +kernel) (by decide +kernel)
    rfl
  refine ⟨whole.1.mp ?_, clean.1, clean.2, torn.1, torn.2⟩
  rw [clean.1]
  rfl

end AtlasLob
