import AtlasLob.Spec.CommandLog

/-!
# What a scan reports

A scan of any source, steady or not, reports only validated frames: its visits are those of a
command log, its running result is the one of that log, and a clean or torn end carries the
digest of exactly those bytes. What more the calls of the source show of it, such as that every
piece comes from one byte string, holds of the bytes of the log.
-/

namespace AtlasLob

open Binary

/-- Reading an exact number of bytes returns that number. -/
theorem readExact_length {source : LogSource} {chunkBytes offset count calls later : Nat}
    {bytes : List UInt8}
    (read : readExact source chunkBytes offset count calls = (.ok bytes, later)) :
    bytes.length = count := by
  induction count using Nat.strong_induction_on generalizing offset calls bytes with
  | _ count ih =>
    unfold readExact at read
    by_cases none : count = 0
    · rw [if_pos none] at read
      cases read
      exact none.symm
    rw [if_neg none] at read
    simp only at read
    cases answer : source.readAt calls offset (min chunkBytes count) with
    | error failure =>
      rw [answer] at read
      cases read
    | ok piece =>
      simp only [answer] at read
      by_cases unusable : piece.length = 0 ∨ piece.length > min chunkBytes count
      · rw [dif_pos unusable] at read
        cases read
      rw [dif_neg unusable] at read
      cases rest : readExact source chunkBytes (offset + piece.length) (count - piece.length)
          (calls + 1) with
      | mk outcome after =>
        rw [rest] at read
        cases outcome with
        | error failure => cases read
        | ok following =>
          cases read
          have length := ih (count - piece.length) (by omega) rest
          rw [List.length_append, length]
          omega

/-- The source answers every call from one byte string, with as many bytes at a time as it
likes. -/
structure LogSource.Serves (source : LogSource) (content : List UInt8) : Prop where
  /-- The extent is the length of the string. -/
  extent : ∀ calls, source.extent calls = .ok content.length
  /-- A read inside the string returns some of the bytes asked for. -/
  reads : ∀ calls offset requested, 0 < requested → offset + requested ≤ content.length →
    ∃ count, 0 < count ∧ count ≤ requested ∧
      source.readAt calls offset requested = .ok ((content.drop offset).take count)

/-- Reading an exact number of bytes of a served string returns them. -/
theorem LogSource.Serves.readExact {source : LogSource} {content : List UInt8}
    (serves : source.Serves content) {chunkBytes : Nat} (chunk : 0 < chunkBytes)
    {offset count : Nat} (inside : offset + count ≤ content.length) (calls : Nat) :
    ∃ later, AtlasLob.readExact source chunkBytes offset count calls =
      (.ok ((content.drop offset).take count), later) := by
  induction count using Nat.strong_induction_on generalizing offset calls with
  | _ count ih =>
    unfold AtlasLob.readExact
    by_cases none : count = 0
    · rw [if_pos none, none, List.take_zero]
      exact ⟨calls, rfl⟩
    rw [if_neg none]
    obtain ⟨size, positive, limit, answer⟩ := serves.reads calls offset (min chunkBytes count)
      (by omega) (by omega)
    have length : ((content.drop offset).take size).length = size := by
      rw [List.length_take, List.length_drop]
      omega
    obtain ⟨later, rest⟩ := @ih (count - size) (by omega) (offset + size) (by omega) (calls + 1)
    refine ⟨later, ?_⟩
    simp only [answer, length]
    rw [dif_neg (by omega), rest]
    simp only
    rw [← List.drop_drop, ← List.take_add, Nat.add_sub_cancel' (by omega)]

/-- What the successful calls of a source show of it: its extent, and the pieces read within. -/
structure LogSource.Shows (source : LogSource) (Known : Nat → Prop)
    (Shown : Nat → List UInt8 → Prop) : Prop where
  /-- An extent is a known one. -/
  extents : ∀ calls extent, source.extent calls = .ok extent → Known extent
  /-- Two pieces side by side show one piece. -/
  joins : ∀ offset left right, Shown offset left → Shown (offset + left.length) right →
    Shown offset (left ++ right)
  /-- A read shows the piece it returns. -/
  reads : ∀ extent chunkBytes offset count calls bytes later, Known extent → 0 < chunkBytes →
    offset + count ≤ extent →
    readExact source chunkBytes offset count calls = (.ok bytes, later) → Shown offset bytes

/-- A source that serves a string shows pieces of it. -/
theorem LogSource.Serves.shows {source : LogSource} {content : List UInt8}
    (serves : source.Serves content) :
    source.Shows (fun extent => extent = content.length)
      fun offset piece => piece <+: content.drop offset where
  extents := by
    intro calls extent answer
    rw [serves.extent] at answer
    exact (Except.ok.inj answer).symm
  joins := by
    rintro offset left right ⟨afterLeft, splitLeft⟩ ⟨afterRight, splitRight⟩
    refine ⟨afterRight, ?_⟩
    have tail : afterLeft = content.drop (offset + left.length) := by
      rw [← List.drop_drop, ← splitLeft, List.drop_left]
    rw [List.append_assoc, splitRight, ← tail, splitLeft]
  reads := by
    intro extent chunkBytes offset count calls bytes later known chunk inside read
    rw [known] at inside
    obtain ⟨other, answer⟩ := serves.readExact chunk inside calls
    rw [answer] at read
    cases read
    exact List.take_prefix count _

/-- Any source shows nothing in particular. -/
theorem LogSource.shows_trivial (source : LogSource) :
    source.Shows (fun _ => True) fun _ _ => True where
  extents := fun _ _ _ => trivial
  joins := fun _ _ _ _ _ => trivial
  reads := fun _ _ _ _ _ _ _ _ _ _ _ => trivial

/-- A header begins with its fixed fields. -/
theorem LogHeader.encoding_fields (header : LogHeader) :
    ∃ rest, header.encoding = encodeHeaderFields (header.fields
      (96 + 28 * header.catalog.length) (28 * header.catalog.length) header.catalog.length) ++
        rest := by
  unfold LogHeader.encoding withChecksum LogHeader.body
  rw [List.append_assoc]
  exact ⟨_, rfl⟩

/-- Inspecting a stored header returns its length. -/
theorem LogHeader.Valid.inspected {header : LogHeader} (valid : header.Valid)
    (suffix : List UInt8) :
    inspectLogHeaderLength (header.encoding ++ suffix) = .ok header.encoding.length := by
  obtain ⟨rest, layout⟩ := header.encoding_fields
  have bounded := valid.bounded
  have limit : maxHeaderBytes = 1048576 := rfl
  rw [inspectLogHeaderLength_eq_ok]
  refine ⟨_, rest ++ suffix, by rw [layout, List.append_assoc], valid.accepted.sized, ?_⟩
  rw [header.encoding_length]
  exact (UInt32.toNat_ofNat_of_lt' (by unfold UInt32.size; omega)).symm

/-- Inspecting a header reads its fixed prefix only. -/
theorem inspectLogHeaderLength_append {fixed : List UInt8} (long : 60 ≤ fixed.length)
    (suffix : List UInt8) :
    inspectLogHeaderLength (fixed ++ suffix) = inspectLogHeaderLength fixed := by
  unfold inspectLogHeaderLength commandLogHeaderFixedPrefixBytes
  rw [List.take_append_of_le_length long, if_neg (by rw [List.length_append]; omega),
    if_neg (by omega)]

/-- A byte string that decodes to a header and is as long as inspected is the stored header. -/
theorem decodeLogHeader_whole {bytes : List UInt8} {header : LogHeader}
    (inspected : inspectLogHeaderLength bytes = .ok bytes.length)
    (decoded : decodeLogHeader bytes = .ok header) :
    header.Valid ∧ bytes = header.encoding := by
  obtain ⟨valid, suffix, rfl⟩ := decodeLogHeader_eq_ok.mp decoded
  rw [valid.inspected, List.length_append] at inspected
  have lengths := Except.ok.inj inspected
  have empty : suffix = [] := List.length_eq_zero_iff.mp (by omega)
  exact ⟨valid, by rw [empty, List.append_nil]⟩

/-- The lengths in front of a string frame it whatever follows. -/
theorem FramedBy.append {bytes : List UInt8} {total : Nat} (framed : FramedBy bytes total)
    (suffix : List UInt8) : FramedBy (bytes ++ suffix) total where
  long := by
    rw [List.length_append]
    exact Nat.le_add_right_of_le framed.long
  totalLength := by
    have long := framed.long
    rw [List.take_append_of_le_length (by omega), framed.totalLength]
  payloadLength := by
    have long := framed.long
    rw [List.drop_append_of_le_length (by omega),
      List.take_append_of_le_length (by rw [List.length_drop]; omega), framed.payloadLength]
  lower := framed.lower
  upper := framed.upper

/-- The first eight bytes of a framed string are framed. -/
theorem FramedBy.cut {bytes : List UInt8} {total : Nat} (framed : FramedBy bytes total) :
    FramedBy (bytes.take 8) total where
  long := by
    have long := framed.long
    rw [List.length_take]
    omega
  totalLength := by
    rw [List.take_take, Nat.min_eq_left (by decide), framed.totalLength]
  payloadLength := by
    rw [List.drop_take, List.take_take, Nat.min_eq_left (by decide), framed.payloadLength]
  lower := framed.lower
  upper := framed.upper

/-- A byte string that decodes to a record and is as long as inspected is the stored record. -/
theorem decodeCommandRecord_whole {bytes : List UInt8} {record : CommandRecord}
    (framed : FramedBy bytes bytes.length)
    (decoded : decodeCommandRecord bytes = .ok record) :
    record.Valid ∧ bytes = record.encoding := by
  obtain ⟨valid, suffix, rfl⟩ := decodeCommandRecord_eq_ok.mp decoded
  have own := record.encoding_framed suffix
  have lengths := framed.totalLength.symm.trans own.totalLength
  rw [List.length_append] at lengths
  have empty : suffix = [] := List.length_eq_zero_iff.mp (by omega)
  exact ⟨valid, by rw [empty, List.append_nil]⟩

/-- A result that ends a scan early: everything scanned so far with a corruption or a failure. -/
structure LogScanResult.Breaks (result reason : LogScanResult) : Prop where
  kept : reason = { result with termination := reason.termination, error := reason.error }
  broken : reason.termination = .corruption ∨ reason.termination = .ioFailure

/-- A corruption ends a scan early. -/
theorem LogScanResult.breaks_corrupt (result : LogScanResult) (category : LogErrorCategory)
    (offset : Nat) : result.Breaks (result.corrupt category offset) :=
  ⟨rfl, .inl rfl⟩

/-- A failure ends a scan early. -/
theorem LogScanResult.breaks_setIoError (result : LogScanResult) (failure : LogIoFailure) :
    result.Breaks (result.setIoError failure) :=
  ⟨rfl, .inr rfl⟩

/-- What the codec refuses ends a scan early. -/
theorem LogScanResult.breaks_setCodecCorruption (result : LogScanResult) (error : LogError)
    (frameOffset : Nat) : result.Breaks (result.setCodecCorruption error frameOffset) :=
  ⟨rfl, .inl rfl⟩

section Soundness

variable {source : LogSource} {options : LogScanOptions} {extent : Nat}
  {Known : Nat → Prop} {Shown : Nat → List UInt8 → Prop} {seen : List LogVisit}

open Interruptible

/-- Ending a scan early. -/
theorem stop_breaks {Value : Type} {after : Value → ScanState → Prop}
    {result reason : LogScanResult} (breaks : result.Breaks reason) :
    Holds (fun state => state.visits = seen) (Interruptible.stop reason) after
      (fun reason state => result.Breaks reason ∧ state.visits = seen) :=
  Holds.stop fun _ visits => ⟨breaks, visits⟩

/-- A read returns what it shows, or ends the scan. -/
theorem readOrStop_sound (shows : source.Shows Known Shown) (known : Known extent)
    (valid : options.valid = true)
    (result : LogScanResult) {offset count : Nat} (inside : offset + count ≤ extent) :
    Holds (fun state => state.visits = seen) (readOrStop source options result offset count)
      (fun bytes state => (bytes.length = count ∧ Shown offset bytes) ∧ state.visits = seen)
      (fun reason state => result.Breaks reason ∧ state.visits = seen) := by
  have chunk : 0 < options.readChunkBytes := Nat.pos_of_ne_zero (of_decide_eq_true valid)
  intro state same
  unfold readOrStop
  cases read : readExact source options.readChunkBytes offset count state.calls with
  | mk outcome later =>
    cases outcome with
    | error failure => exact ⟨result.breaks_setIoError failure, same⟩
    | ok bytes =>
      exact ⟨⟨readExact_length read, shows.reads _ _ _ _ _ _ _ known chunk inside read⟩, same⟩

/-- A read of what is left returns what it shows, or ends the scan. -/
theorem readAvailablePrefix_sound (shows : source.Shows Known Shown) (known : Known extent)
    (valid : options.valid = true) (result : LogScanResult) {offset available : Nat} (size : Nat)
    (inside : offset + available ≤ extent) :
    Holds (fun state => state.visits = seen)
      (readAvailablePrefix source options result offset available size)
      (fun bytes state => (bytes.length = available ∧ Shown offset bytes) ∧ state.visits = seen)
      (fun reason state => result.Breaks reason ∧ state.visits = seen) := by
  unfold readAvailablePrefix
  apply Holds.ite
  · intro _
    exact stop_breaks (result.breaks_corrupt _ _)
  · intro _
    exact readOrStop_sound shows known valid result inside

/-- An accepted header is one that can be stored, and its bytes are the ones shown. -/
theorem scanHeader_sound (shows : source.Shows Known Shown) (known : Known extent)
    (valid : options.valid = true)
    (result : LogScanResult) (same : result.sourceExtent = extent) :
    Holds (fun state => state.visits = seen) (scanHeader source options result)
      (fun found state => (found.1.Valid ∧ found.2 = found.1.encoding ∧
        found.1.encoding.length ≤ extent ∧ Shown 0 found.1.encoding) ∧ state.visits = seen)
      (fun reason state => result.Breaks reason ∧ state.visits = seen) := by
  unfold scanHeader commandLogHeaderFixedBytes commandLogHeaderFixedPrefixBytes
  rw [same]
  apply Holds.ite
  · intro _
    apply (readAvailablePrefix_sound shows known valid result 60 (by omega)).bind
    intro _
    exact Holds.withFact fun _ => stop_breaks (result.breaks_corrupt _ _)
  intro long
  apply (readOrStop_sound shows known valid result (by omega)).bind
  intro first
  apply Holds.withFact
  rintro ⟨firstLength, firstShown⟩
  apply Holds.ite fun _ => stop_breaks (result.breaks_corrupt _ _)
  intro lower
  apply Holds.ite fun _ => stop_breaks (result.breaks_corrupt _ _)
  intro _
  apply Holds.ite
  · intro _
    apply (readAvailablePrefix_sound shows known valid result 40 (by omega)).bind
    intro _
    exact Holds.withFact fun _ => stop_breaks (result.breaks_corrupt _ _)
  intro fixed
  apply (readOrStop_sound shows known valid result (by omega)).bind
  intro second
  apply Holds.withFact
  rintro ⟨secondLength, secondShown⟩
  cases inspected : inspectLogHeaderLength (first ++ second) with
  | error refused => exact stop_breaks (result.breaks_setCodecCorruption _ _)
  | ok length =>
    apply Holds.ite fun _ => stop_breaks (result.breaks_corrupt _ _)
    intro declared
    rw [not_not] at declared
    apply Holds.ite
    · intro _
      apply (readAvailablePrefix_sound shows known valid result _ (by omega)).bind
      intro _
      exact Holds.withFact fun _ => stop_breaks (result.breaks_corrupt _ _)
    intro whole
    apply (readOrStop_sound shows known valid result (by omega)).bind
    intro third
    apply Holds.withFact
    rintro ⟨thirdLength, thirdShown⟩
    have size : (first ++ second ++ third).length = length := by
      simp only [List.length_append]
      omega
    cases decoded : decodeLogHeader (first ++ second ++ third) with
    | error refused =>
      simp only [decoded]
      exact stop_breaks (result.breaks_setCodecCorruption _ _)
    | ok header =>
      simp only [decoded]
      apply Holds.pure
      intro state visits
      have full : inspectLogHeaderLength (first ++ second ++ third) =
          .ok (first ++ second ++ third).length := by
        rw [inspectLogHeaderLength_append (by rw [List.length_append]; omega), inspected, size]
      obtain ⟨stored, bytes⟩ := decodeLogHeader_whole full decoded
      refine ⟨⟨stored, bytes, by rw [← bytes]; omega, ?_⟩, visits⟩
      rw [← bytes]
      apply shows.joins
      · exact shows.joins 0 first second firstShown (by rwa [firstLength])
      · rwa [List.length_append, firstLength, secondLength]

/-- A record that is next in turn passes the check; any other ends the scan. -/
theorem checkSequence_sound (result : LogScanResult) (frameOffset : Nat) (record : CommandRecord) :
    Holds (fun state => state.visits = seen) (checkSequence result frameOffset record)
      (fun _ state => result.nextSequence = some record.sequence ∧ state.visits = seen)
      (fun reason state => result.Breaks reason ∧ state.visits = seen) := by
  unfold checkSequence
  cases next : result.nextSequence with
  | none => exact stop_breaks (result.breaks_corrupt _ _)
  | some sequence =>
    apply Holds.ite fun _ => stop_breaks (result.breaks_corrupt _ _)
    intro notBelow
    apply Holds.ite fun _ => stop_breaks (result.breaks_corrupt _ _)
    intro notAbove
    apply Holds.pure
    intro state visits
    rw [UInt64.lt_iff_toNat_lt] at notBelow
    rw [gt_iff_lt, UInt64.lt_iff_toNat_lt] at notAbove
    exact ⟨congrArg some (UInt64.toNat_inj.mp (by omega)), visits⟩

/-- What a scan takes from a frame: nothing, or a record that can be logged and comes next, with
its bytes shown inside the extent. -/
def LogScanResult.Takes (result : LogScanResult) (extent : Nat)
    (Shown : Nat → List UInt8 → Prop) (frameOffset : Nat) :
    Option (CommandRecord × List UInt8) → Prop
  | none => True
  | some (record, bytes) => record.Valid ∧ bytes = record.encoding ∧
      result.nextSequence = some record.sequence ∧
      frameOffset + record.encoding.length ≤ extent ∧ Shown frameOffset record.encoding

/-- An accepted frame is a record that can be logged and comes next, and its bytes are the ones
shown. -/
theorem scanFrame_sound (shows : source.Shows Known Shown) (known : Known extent)
    (valid : options.valid = true)
    (result : LogScanResult) (same : result.sourceExtent = extent) {frameOffset : Nat}
    (inside : frameOffset < extent) :
    Holds (fun state => state.visits = seen) (scanFrame source options result frameOffset)
      (fun found state => result.Takes extent Shown frameOffset found ∧ state.visits = seen)
      (fun reason state => result.Breaks reason ∧ state.visits = seen) := by
  unfold scanFrame commandLogRecordFixedBytes commandLogRecordLengthPrefixBytes
  rw [same]
  apply Holds.ite
  · intro _
    apply (readAvailablePrefix_sound shows known valid result 8 (by omega)).bind
    intro _
    apply Holds.withFact
    intro _
    exact Holds.pure fun _ visits => ⟨trivial, visits⟩
  intro long
  apply (readOrStop_sound shows known valid result (by omega)).bind
  intro first
  apply Holds.withFact
  rintro ⟨firstLength, firstShown⟩
  apply Holds.ite fun _ => stop_breaks (result.breaks_corrupt _ _)
  intro lower
  apply Holds.ite fun _ => stop_breaks (result.breaks_corrupt _ _)
  intro _
  apply Holds.ite
  · intro _
    apply (readAvailablePrefix_sound shows known valid result 4 (by omega)).bind
    intro _
    apply Holds.withFact
    intro _
    exact Holds.pure fun _ visits => ⟨trivial, visits⟩
  intro fixed
  apply (readOrStop_sound shows known valid result (by omega)).bind
  intro second
  apply Holds.withFact
  rintro ⟨secondLength, secondShown⟩
  cases inspected : inspectLogRecordLength (first ++ second) with
  | error refused => exact stop_breaks (result.breaks_setCodecCorruption _ _)
  | ok length =>
    apply Holds.ite fun _ => stop_breaks (result.breaks_corrupt _ _)
    intro declared
    rw [not_not] at declared
    apply (readAvailablePrefix_sound shows known valid result _ (by omega)).bind
    intro body
    apply Holds.withFact
    rintro ⟨bodyLength, bodyShown⟩
    apply Holds.ite
    · intro _
      exact Holds.pure fun _ visits => ⟨trivial, visits⟩
    intro whole
    have size : (first ++ second ++ body).length = length := by
      simp only [List.length_append]
      omega
    cases decoded : decodeCommandRecord (first ++ second ++ body) with
    | error refused =>
      simp only [decoded]
      exact stop_breaks (result.breaks_setCodecCorruption _ _)
    | ok record =>
      simp only [decoded]
      apply (checkSequence_sound result frameOffset record).bind
      intro _
      apply Holds.withFact
      intro next
      apply Holds.pure
      intro state visits
      have framed := inspectLogRecordLength_eq_ok.mp inspected
      have full := framed.append body
      rw [← size] at full
      obtain ⟨stored, encoded⟩ := decodeCommandRecord_whole full decoded
      refine ⟨⟨stored, encoded, next, by rw [← encoded]; omega, ?_⟩, visits⟩
      rw [← encoded]
      apply shows.joins
      · exact shows.joins frameOffset first second firstShown (by rwa [firstLength])
      · rwa [List.length_append, firstLength, secondLength]

/-- How the frames of a scan end: at the extent, or before a torn record. -/
inductive FramesEnd (Shown : Nat → List UInt8 → Prop) (extent : Nat) :
    LogScanResult × Sha256 × Nat → List LogVisit → Prop
  | whole (log : CommandLog) (shown : Shown 0 log.encoding)
      (reached : log.encoding.length = extent) :
      FramesEnd Shown extent (log.scanned extent, log.hash, log.encoding.length) log.visits
  | torn (log : CommandLog) (shown : Shown 0 log.encoding)
      (short : log.encoding.length < extent) :
      FramesEnd Shown extent
        ((log.scanned extent).setError .truncatedTail .truncatedFinalRecord extent none, log.hash,
          log.encoding.length) log.visits

/-- The frames of a scan are the records of a log. The induction is on the number of frames that
may still come, which the extent bounds because every record takes bytes. -/
theorem scanFrames_sound (shows : source.Shows Known Shown) (known : Known extent)
    (valid : options.valid = true) (frames : Nat) (log : CommandLog)
    (shown : Shown 0 log.encoding) (inside : log.encoding.length ≤ extent)
    (enough : extent ≤ log.encoding.length + frames) :
    Holds (fun state => state.visits = log.visits)
      (scanFrames source options frames (log.scanned extent) log.hash log.encoding.length)
      (fun found state => FramesEnd Shown extent found state.visits)
      (fun reason _ => ∃ later : CommandLog, (later.scanned extent).Breaks reason) := by
  induction frames generalizing log with
  | zero =>
    unfold scanFrames
    apply Holds.pure
    intro state visits
    rw [visits]
    exact .whole log shown (by omega)
  | succ frames ih =>
    unfold scanFrames
    apply Holds.ite
    · intro more
      apply Holds.through fun found state =>
        (log.scanned extent).Takes extent Shown log.encoding.length found ∧
          state.visits = log.visits
      · refine (scanFrame_sound shows known valid (log.scanned extent) rfl more).weaken
          (fun _ pre => pre) (fun _ _ post => post) (fun reason state post => ⟨log, post.1⟩)
      intro found
      apply Holds.withFact
      intro taken
      cases found with
      | none =>
        apply Holds.pure
        intro state visits
        rw [visits]
        exact .torn log shown more
      | some frame =>
        obtain ⟨record, bytes⟩ := frame
        obtain ⟨stored, rfl, next, room, shownRecord⟩ := taken
        have turn := log.nextSequence_eq_some.mp next
        have long := record.encoding_length
        have later := ih (log.extend record stored turn)
          (by
            rw [log.extend_encoding]
            exact shows.joins 0 _ _ shown (by rwa [Nat.zero_add]))
          (by rw [log.extend_encoding, List.length_append]; exact room)
          (by rw [log.extend_encoding, List.length_append]; omega)
        rw [log.extend_scanned, log.extend_hash, log.extend_encoding, List.length_append,
          log.extend_visits] at later
        apply Holds.through fun _ state => state.visits = log.visits ++
          [.record record record.encoding log.encoding.length
            (log.encoding.length + record.encoding.length)]
        · apply Holds.change
          intro state visits
          rw [visits]
        · intro _
          exact later
    · intro ended
      apply Holds.pure
      intro state visits
      rw [visits]
      exact .whole log shown (by
        have same : (log.scanned extent).sourceExtent = extent := rfl
        omega)

/-- How a scan ends: clean at the end of a log, at a torn record behind one, or broken. -/
inductive ScanEnds (Known : Nat → Prop) (Shown : Nat → List UInt8 → Prop) :
    LogScanResult → List LogVisit → Prop
  | clean (log : CommandLog) (known : Known log.encoding.length)
      (shown : Shown 0 log.encoding) : ScanEnds Known Shown log.cleanScan log.visits
  | torn (log : CommandLog) (extent : Nat) (known : Known extent) (shown : Shown 0 log.encoding)
      (short : log.encoding.length < extent) :
      ScanEnds Known Shown (log.tornScan extent) log.visits
  | broken (result : LogScanResult) (visits : List LogVisit)
      (failed : result.termination = .corruption ∨ result.termination = .ioFailure)
      (unidentified : result.validPrefixDigest = none) : ScanEnds Known Shown result visits

/-- A scan that breaks off has no digest. -/
theorem ScanEnds.of_breaks {result reason : LogScanResult} (breaks : result.Breaks reason)
    (unidentified : result.validPrefixDigest = none) (visits : List LogVisit) :
    ScanEnds Known Shown reason visits := by
  apply ScanEnds.broken reason visits breaks.broken
  rw [breaks.kept]
  exact unidentified

/-- The first running result is the one of the log without records. -/
theorem CommandLog.start_scanned {header : LogHeader} (headed : header.Valid) (extent : Nat) :
    (CommandLog.start header headed).scanned extent =
      { LogScanResult.initial with
        sourceExtent := extent
        header := some header
        headerEndOffset := header.encoding.length
        validEndOffset := header.encoding.length
        nextSequence := some header.firstSequence } := by
  have first : header.firstSequence = 1 := headed.first
  unfold scanned encoding nextSequence start LogScanResult.initial
  rw [List.flatMap_nil, List.append_nil, first]
  rfl

/-- A scan that reaches the extent ends clean. -/
theorem CommandLog.finish_whole (log : CommandLog) :
    (log.scanned log.encoding.length).finish log.hash log.encoding.length = log.cleanScan := by
  have reached : log.encoding.length = (log.scanned log.encoding.length).sourceExtent := rfl
  simp only [LogScanResult.finish, if_pos reached]
  rfl

/-- A scan that stops before a torn record ends there. -/
theorem CommandLog.finish_torn (log : CommandLog) {extent : Nat}
    (short : log.encoding.length < extent) :
    ((log.scanned extent).setError .truncatedTail .truncatedFinalRecord extent none).finish
      log.hash log.encoding.length = log.tornScan extent := by
  have before : ¬log.encoding.length = ((log.scanned extent).setError .truncatedTail
      .truncatedFinalRecord extent none).sourceExtent := Nat.ne_of_lt short
  simp only [LogScanResult.finish, if_neg before]
  rfl

/-- A whole scan reports a log and nothing else, whatever the source does. -/
theorem scanBody_sound (shows : source.Shows Known Shown) (valid : options.valid = true) :
    Holds (fun state => state.visits = []) (scanBody source options)
      (fun result state => ScanEnds Known Shown result state.visits)
      (fun reason state => ScanEnds Known Shown reason state.visits) := by
  have unscanned : LogScanResult.initial.validPrefixDigest = none := rfl
  unfold scanBody
  apply Holds.ite
  · intro invalid
    rw [valid] at invalid
    cases invalid
  intro _
  apply Holds.through fun extent state => Known extent ∧ state.visits = []
  · intro state visits
    unfold extentOrStop
    cases answer : source.extent state.calls with
    | error failure =>
      exact ScanEnds.of_breaks (LogScanResult.initial.breaks_setIoError failure) unscanned _
    | ok extent => exact ⟨shows.extents _ _ answer, visits⟩
  intro extent
  apply Holds.withFact
  intro known
  apply Holds.through fun found state => (found.1.Valid ∧ found.2 = found.1.encoding ∧
    found.1.encoding.length ≤ extent ∧ Shown 0 found.1.encoding) ∧ state.visits = []
  · exact (scanHeader_sound shows known valid
      { LogScanResult.initial with sourceExtent := extent } rfl).weaken
      (fun _ pre => pre) (fun _ _ post => post)
      (fun _ _ post => ScanEnds.of_breaks post.1 unscanned _)
  rintro ⟨header, bytes⟩
  apply Holds.withFact
  rintro ⟨headed, encoded, inside, shown⟩
  simp only at headed encoded inside shown
  subst encoded
  have fresh : (CommandLog.start header headed).hash = Sha256.initial.update header.encoding := by
    unfold CommandLog.hash CommandLog.start
    rw [List.foldl_nil]
  have empty : (CommandLog.start header headed).encoding = header.encoding := by
    unfold CommandLog.encoding CommandLog.start
    rw [List.flatMap_nil, List.append_nil]
  have frames := scanFrames_sound shows known valid extent (CommandLog.start header headed)
    (by rwa [empty]) (by rwa [empty]) (by omega)
  rw [CommandLog.start_scanned, empty, fresh] at frames
  apply Holds.through fun _ state => state.visits = (CommandLog.start header headed).visits
  · apply Holds.change
    intro state visits
    rw [visits]
    rfl
  intro _
  apply Holds.through fun found state => FramesEnd Shown extent found state.visits
  · exact frames.weaken (fun _ pre => pre) (fun _ _ post => post) (by
      rintro reason state ⟨later, breaks⟩
      exact ScanEnds.of_breaks breaks rfl _)
  rintro ⟨result, hash, frameOffset⟩
  apply Holds.pure
  intro state ended
  generalize state.visits = visits at ended
  cases ended with
  | whole log shown reached =>
    subst reached
    rw [log.finish_whole]
    exact .clean log known shown
  | torn log shown short =>
    rw [log.finish_torn short]
    exact .torn log extent known shown short

/-- Every scan ends clean at the end of a log, at a torn record behind one, or broken. -/
theorem scanCommandLog_ends (shows : source.Shows Known Shown) (valid : options.valid = true)
    (calls : Nat) :
    ScanEnds Known Shown (scanCommandLog source options calls).1
      (scanCommandLog source options calls).2.visits := by
  have ends := scanBody_sound shows valid ⟨calls, []⟩ rfl
  unfold scanCommandLog
  cases run : scanBody source options ⟨calls, []⟩ with
  | mk outcome state =>
    rw [run] at ends
    cases outcome with
    | error result => exact ends
    | ok result => exact ends

end Soundness

end AtlasLob
