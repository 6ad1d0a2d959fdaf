import AtlasLob.Core.LogRepair
import AtlasLob.Verif.Corruption
import AtlasLob.Verif.Replay

/-!
# Repair of a log

Over a source that serves one string, the scans and the identities of a repair agree, so that a
repair depends only on that string and on its file system. It writes a file only for a log with a
torn record behind it, and that file is the log: it scans clean and cannot be repaired again.
-/

namespace AtlasLob

open Interruptible

/-- Absorbing nothing changes nothing. -/
theorem Sha256.update_nil (hash : Sha256) : hash.update [] = hash := by
  have nothing : hash.totalBytes + UInt64.ofNat ([] : List UInt8).length = hash.totalBytes :=
    UInt64.add_zero hash.totalBytes
  rw [update, nothing]
  rfl

/-- An exact write that succeeds appends its bytes. -/
theorem writeExact_appends (sink : LogSink) (chunkBytes : Nat) (state : SinkState)
    (bytes : List UInt8) (written : (writeExact sink chunkBytes state bytes).2 = none) :
    (writeExact sink chunkBytes state bytes).1.file = state.file ++ bytes ∧
      (writeExact sink chunkBytes state bytes).1.position = state.position + bytes.length := by
  fun_induction writeExact sink chunkBytes state bytes with
  | case1 state => exact ⟨(List.append_nil _).symm, rfl⟩
  | case2 state remaining some requested answer file failure failed => cases written
  | case3 state remaining some requested answer file fine next unusable => cases written
  | case4 state remaining some requested answer file fine next usable ih =>
    obtain ⟨appended, position⟩ := ih written
    rw [not_or] at usable
    have within : answer.appended ≤ requested := Nat.not_lt.mp usable.2
    have short : requested ≤ remaining.length := Nat.min_le_right _ _
    rw [appended, position]
    constructor
    · show state.file ++ _ ++ _ = _
      rw [List.append_assoc, List.take_take, Nat.min_eq_left within, List.take_append_drop]
    · show state.position + _ + _ = _
      rw [List.length_drop]
      omega

section Served

variable {source : LogSource} {content : List UInt8}

/-- The extent of a served string is its length. -/
theorem repairExtent_served (serves : source.Serves content) (kept : SinkState → Prop)
    {stopped : LogIoFailure → RepairState → Prop} :
    Holds (fun state => kept state.sink) (repairExtent source)
      (fun extent state => extent = content.length ∧ kept state.sink) stopped := by
  intro state holds
  unfold repairExtent
  rw [serves.extent]
  exact ⟨rfl, holds⟩

/-- A read of a served string returns its bytes. -/
theorem repairRead_served (serves : source.Serves content) {chunk offset count : Nat}
    (positive : 0 < chunk) (inside : offset + count ≤ content.length)
    (kept : SinkState → Prop) {stopped : LogIoFailure → RepairState → Prop} :
    Holds (fun state => kept state.sink) (repairRead source chunk offset count)
      (fun bytes state => bytes = (content.drop offset).take count ∧ kept state.sink)
      stopped := by
  intro state holds
  obtain ⟨later, read⟩ := serves.readExact positive inside state.calls
  unfold repairRead
  rw [read]
  exact ⟨rfl, holds⟩

/-- A chunk and what follows it. -/
theorem Sha256.update_chunk (hash : Sha256) (content : List UInt8) (offset count : Nat) :
    (hash.update ((content.drop offset).take count)).update (content.drop (offset + count)) =
      hash.update (content.drop offset) := by
  rw [← update_append, ← List.drop_drop, List.take_append_drop]

/-- The loop of an identity absorbs what is left of the string. -/
theorem identifyFrom_served (serves : source.Serves content) {chunk : Nat} (positive : 0 < chunk)
    (kept : SinkState → Prop) {stopped : LogIoFailure → RepairState → Prop}
    (chunks offset : Nat) (hash : Sha256) (enough : content.length ≤ offset + chunks) :
    Holds (fun state => kept state.sink)
      (identifyFrom source chunk content.length chunks offset hash)
      (fun absorbed state => absorbed = hash.update (content.drop offset) ∧ kept state.sink)
      stopped := by
  induction chunks generalizing offset hash with
  | zero =>
    apply Holds.pure
    intro state holds
    rw [List.drop_of_length_le (by omega), Sha256.update_nil]
    exact ⟨rfl, holds⟩
  | succ chunks ih =>
    unfold identifyFrom
    apply Holds.ite
    · intro remains
      apply Holds.bind (repairRead_served serves positive (by omega) kept)
      intro bytes
      apply Holds.withFact
      rintro rfl
      have rest := ih (offset + min (content.length - offset) chunk)
        (hash.update ((content.drop offset).take (min (content.length - offset) chunk))) (by omega)
      rw [Sha256.update_chunk] at rest
      exact rest
    · intro ended
      apply Holds.pure
      intro state holds
      rw [List.drop_of_length_le (by omega), Sha256.update_nil]
      exact ⟨rfl, holds⟩

/-- The identity of a served string is its digest and its length. -/
theorem sourceIdentity_served (serves : source.Serves content) {chunkBytes : Nat}
    (positive : 0 < chunkBytes) (kept : SinkState → Prop)
    {stopped : LogIoFailure → RepairState → Prop} :
    Holds (fun state => kept state.sink) (sourceIdentity source chunkBytes)
      (fun identity state => identity = (sha256 content, content.length) ∧ kept state.sink)
      stopped := by
  have chunk : 0 < maximumChunk chunkBytes := by
    unfold maximumChunk
    omega
  unfold sourceIdentity
  apply Holds.bind (repairExtent_served serves kept)
  intro extent
  apply Holds.withFact
  rintro rfl
  apply Holds.bind (identifyFrom_served serves chunk kept content.length 0 Sha256.initial
    (by omega))
  intro hash
  apply Holds.withFact
  rintro rfl
  apply Holds.bind (repairExtent_served serves kept)
  intro final
  apply Holds.withFact
  rintro rfl
  apply Holds.ite
  · intro differs
    exact absurd rfl differs
  · intro _
    apply Holds.pure
    intro state holds
    exact ⟨rfl, holds⟩

/-- What the copy of a prefix writes at a position: the rest of the chunk, as far as the prefix
reaches. -/
def copyPiece (content : List UInt8) (chunk prefixBytes position : Nat) : List UInt8 :=
  (content.drop position).take (min ((position / chunk + 1) * chunk) prefixBytes - position)

/-- The copy of a prefix has come to a position after a number of writes. -/
inductive CopyReaches (sink : LogSink) (content : List UInt8) (chunk prefixBytes : Nat) :
    Nat → Nat → Prop
  /-- Nothing is written yet. -/
  | start : CopyReaches sink content chunk prefixBytes 0 0
  /-- A write took some of its piece. -/
  | write {calls position : Nat}
      (before : CopyReaches sink content chunk prefixBytes calls position)
      (fine : (sink.write calls (copyPiece content chunk prefixBytes position)).failure = none) :
      CopyReaches sink content chunk prefixBytes (calls + 1)
        (position + (sink.write calls (copyPiece content chunk prefixBytes position)).appended)

/-- A write of the copy of a prefix fails, or takes nothing of its piece or more than that. -/
def CopyFails (sink : LogSink) (content : List UInt8) (chunk prefixBytes : Nat) : Prop :=
  ∃ calls position, CopyReaches sink content chunk prefixBytes calls position ∧
    copyPiece content chunk prefixBytes position ≠ [] ∧
    ((sink.write calls (copyPiece content chunk prefixBytes position)).failure ≠ none ∨
      (sink.write calls (copyPiece content chunk prefixBytes position)).appended = 0 ∨
      (copyPiece content chunk prefixBytes position).length <
        (sink.write calls (copyPiece content chunk prefixBytes position)).appended)

/-- A piece fits into a chunk. -/
theorem copyPiece_short (chunk prefixBytes position : Nat) :
    (copyPiece content chunk prefixBytes position).length ≤ chunk := by
  have reached := Nat.div_mul_le_self position chunk
  unfold copyPiece
  rw [List.length_take, Nat.succ_mul]
  omega

/-- A write of a piece asks for all of it. -/
theorem copyPiece_asked (sink : LogSink) (calls : Nat) {chunk prefixBytes position : Nat}
    {remaining : List UInt8} (piece : remaining = copyPiece content chunk prefixBytes position) :
    min chunk remaining.length = (copyPiece content chunk prefixBytes position).length ∧
      sink.write calls (remaining.take (min chunk remaining.length)) =
        sink.write calls (copyPiece content chunk prefixBytes position) := by
  have short := @copyPiece_short content chunk prefixBytes position
  rw [piece, Nat.min_eq_right short, List.take_length]
  exact ⟨rfl, rfl⟩

/-- What is left of a piece is the piece at the next position. -/
theorem copyPiece_drop {chunk prefixBytes position taken : Nat}
    (remains : (copyPiece content chunk prefixBytes position).drop taken ≠ []) :
    (copyPiece content chunk prefixBytes position).drop taken =
      copyPiece content chunk prefixBytes (position + taken) := by
  have some := List.length_pos_iff.mpr remains
  unfold copyPiece at some ⊢
  rw [List.length_drop, List.length_take] at some
  have same : (position + taken) / chunk = position / chunk := by
    apply Nat.div_eq_of_lt_le
    · exact Nat.le_trans (Nat.div_mul_le_self position chunk) (Nat.le_add_right _ _)
    · omega
  rw [same, List.drop_take, List.drop_drop, Nat.sub_sub]

/-- An exact write of a piece is a part of the copy, unless one of its writes fails. -/
theorem writeExact_copies (sink : LogSink) {chunk prefixBytes : Nat} {state : SinkState}
    {remaining : List UInt8}
    (reached : CopyReaches sink content chunk prefixBytes state.calls state.position)
    (piece : remaining ≠ [] → remaining = copyPiece content chunk prefixBytes state.position) :
    ((writeExact sink chunk state remaining).2 ≠ none →
        CopyFails sink content chunk prefixBytes) ∧
      ((writeExact sink chunk state remaining).2 = none →
        CopyReaches sink content chunk prefixBytes (writeExact sink chunk state remaining).1.calls
          (writeExact sink chunk state remaining).1.position) := by
  fun_induction writeExact sink chunk state remaining with
  | case1 state => exact ⟨fun failed => absurd rfl failed, fun _ => reached⟩
  | case2 state remaining some requested answer file failure failed =>
    refine ⟨fun _ => ?_, fun none => by cases none⟩
    obtain ⟨_, asked⟩ := copyPiece_asked sink state.calls (piece some)
    rw [show answer = _ from asked] at failed
    refine ⟨state.calls, state.position, reached, piece some ▸ some, .inl ?_⟩
    rw [failed]
    exact Option.some_ne_none failure
  | case3 state remaining some requested answer file fine next unusable =>
    refine ⟨fun _ => ?_, fun none => by cases none⟩
    obtain ⟨length, asked⟩ := copyPiece_asked sink state.calls (piece some)
    rw [show answer = _ from asked, show requested = _ from length] at unusable
    exact ⟨state.calls, state.position, reached, piece some ▸ some, .inr unusable⟩
  | case4 state remaining some requested answer file fine next usable ih =>
    obtain ⟨_, asked⟩ := copyPiece_asked sink state.calls (piece some)
    apply ih
    · show CopyReaches sink content chunk prefixBytes (state.calls + 1)
        (state.position + answer.appended)
      rw [show answer = _ from asked] at fine ⊢
      exact reached.write fine
    · intro remains
      rw [piece some] at remains ⊢
      exact copyPiece_drop remains

/-- Where the copy of a prefix is at an offset: it has written the prefix up to there. -/
structure Copied (sink : LogSink) (content : List UInt8) (chunk prefixBytes offset : Nat)
    (state : SinkState) : Prop where
  /-- What was written. -/
  file : state.file = content.take (min offset prefixBytes)
  /-- Where the file ends. -/
  position : state.position = min offset prefixBytes
  /-- The writes so far were those of the copy. -/
  reached : CopyReaches sink content chunk prefixBytes state.calls state.position

/-- At the beginning of a chunk the piece is what is left of the prefix in the chunk. -/
theorem copyPiece_aligned {chunk offset : Nat} (positive : 0 < chunk) (aligned : chunk ∣ offset)
    (prefixBytes : Nat) : copyPiece content chunk prefixBytes offset =
      (content.drop offset).take (min (prefixBytes - offset) chunk) := by
  have next : (offset / chunk + 1) * chunk = offset + chunk := by
    rw [Nat.succ_mul, Nat.div_mul_cancel aligned]
  have size : min (offset + chunk) prefixBytes - offset = min (prefixBytes - offset) chunk := by
    omega
  rw [copyPiece, next, size]

/-- A write of the next chunk of the prefix keeps up with the copy, unless it fails. -/
theorem repairWrite_copies (sink : LogSink) {chunk prefixBytes offset : Nat}
    (positive : 0 < chunk) (within : prefixBytes ≤ content.length) (aligned : chunk ∣ offset)
    (before : offset < prefixBytes) :
    Holds (fun state => Copied sink content chunk prefixBytes offset state.sink)
      (repairWrite sink chunk
        (((content.drop offset).take (min (content.length - offset) chunk)).take
        (min (prefixBytes - offset) (min (content.length - offset) chunk))))
      (fun _ state => Copied sink content chunk prefixBytes
        (offset + min (content.length - offset) chunk) state.sink)
      (fun _ _ => CopyFails sink content chunk prefixBytes) := by
  intro state copied
  have size : min (min (prefixBytes - offset) (min (content.length - offset) chunk))
      (min (content.length - offset) chunk) = min (prefixBytes - offset) chunk := by
    omega
  rw [List.take_take, size]
  have reached : min offset prefixBytes = offset := Nat.min_eq_left (Nat.le_of_lt before)
  have next : min (offset + min (content.length - offset) chunk) prefixBytes =
      offset + min (prefixBytes - offset) chunk := by
    omega
  have length : ((content.drop offset).take (min (prefixBytes - offset) chunk)).length =
      min (prefixBytes - offset) chunk := by
    rw [List.length_take, List.length_drop]
    omega
  obtain ⟨fails, copies⟩ := writeExact_copies sink copied.reached
    (fun _ => (by rw [copied.position, reached, copyPiece_aligned positive aligned] :
      (content.drop offset).take (min (prefixBytes - offset) chunk) = _))
  have appends := writeExact_appends sink chunk state.sink
    ((content.drop offset).take (min (prefixBytes - offset) chunk))
  unfold repairWrite
  cases written : writeExact sink chunk state.sink
      ((content.drop offset).take (min (prefixBytes - offset) chunk)) with
  | mk settled failure =>
    rw [written] at fails copies appends
    cases failure with
    | some failure => exact fails (Option.some_ne_none failure)
    | none =>
      obtain ⟨file, position⟩ := appends rfl
      rw [copied.file, reached] at file
      rw [copied.position, reached, length] at position
      refine ⟨?_, position.trans next.symm, copies rfl⟩
      rw [next, List.take_add]
      exact file

/-- The loop of a copy writes the rest of the prefix, unless a write fails. -/
theorem copyFrom_served (serves : source.Serves content) (sink : LogSink) {chunk : Nat}
    (positive : 0 < chunk) {prefixBytes : Nat} (within : prefixBytes ≤ content.length)
    (chunks offset : Nat) (hash : Sha256) (enough : content.length ≤ offset + chunks)
    (inside : offset ≤ content.length) (aligned : offset < content.length → chunk ∣ offset) :
    Holds (fun state => Copied sink content chunk prefixBytes offset state.sink)
      (copyFrom source sink chunk content.length prefixBytes chunks offset hash)
      (fun absorbed state => absorbed = hash.update (content.drop offset) ∧
        Copied sink content chunk prefixBytes content.length state.sink)
      (fun _ _ => CopyFails sink content chunk prefixBytes) := by
  induction chunks generalizing offset hash with
  | zero =>
    apply Holds.pure
    intro state copied
    have ended : offset = content.length := by omega
    rw [List.drop_of_length_le (by omega), Sha256.update_nil, ← ended]
    exact ⟨rfl, copied⟩
  | succ chunks ih =>
    unfold copyFrom
    apply Holds.ite
    · intro remains
      apply Holds.bind (repairRead_served serves positive (by omega)
        (Copied sink content chunk prefixBytes offset))
      intro bytes
      apply Holds.withFact
      rintro rfl
      have next : offset + min (content.length - offset) chunk < content.length →
          chunk ∣ offset + min (content.length - offset) chunk := by
        intro less
        rw [Nat.min_eq_right (by omega)]
        exact Nat.dvd_add (aligned remains) (Nat.dvd_refl chunk)
      have rest := ih (offset + min (content.length - offset) chunk)
        (hash.update ((content.drop offset).take (min (content.length - offset) chunk))) (by omega)
        (by omega) next
      rw [Sha256.update_chunk] at rest
      apply Holds.ite
      · intro before
        exact Holds.bind (repairWrite_copies sink positive within (aligned remains) before)
          fun _ => rest
      · intro past
        apply rest.from_stronger
        intro state copied
        have before : min offset prefixBytes = prefixBytes := Nat.min_eq_right (by omega)
        have after : min (offset + min (content.length - offset) chunk) prefixBytes =
            prefixBytes := Nat.min_eq_right (by omega)
        refine ⟨?_, ?_, copied.reached⟩
        · rw [after, ← before]
          exact copied.file
        · rw [after, ← before]
          exact copied.position
    · intro ended
      apply Holds.pure
      intro state copied
      have same : offset = content.length := by omega
      rw [List.drop_of_length_le (by omega), Sha256.update_nil, ← same]
      exact ⟨rfl, copied⟩

/-- The copy of a prefix of a served string writes it and returns the identity of the string,
unless a write fails. -/
theorem copyValidPrefixAndIdentify_served (serves : source.Serves content) (sink : LogSink)
    {chunkBytes prefixBytes : Nat} (positive : 0 < chunkBytes)
    (within : prefixBytes ≤ content.length) :
    Holds (fun state => state.sink = ⟨0, 0, []⟩)
      (copyValidPrefixAndIdentify source sink content.length prefixBytes chunkBytes)
      (fun identity state => identity = (sha256 content, content.length) ∧
        state.sink.file = content.take prefixBytes)
      (fun _ _ => CopyFails sink content (maximumChunk chunkBytes) prefixBytes) := by
  have chunk : 0 < maximumChunk chunkBytes := by
    unfold maximumChunk
    omega
  unfold copyValidPrefixAndIdentify
  apply Holds.ite
  · intro beyond
    omega
  intro _
  apply Holds.bind (repairExtent_served serves fun next => next = ⟨0, 0, []⟩)
  intro extent
  apply Holds.withFact
  rintro rfl
  apply Holds.ite
  · intro differs
    exact absurd rfl differs
  intro _
  have copies := copyFrom_served serves sink chunk within content.length 0 Sha256.initial
    (by omega) (Nat.zero_le _) (fun _ => Nat.dvd_zero _)
  have starts : ∀ state : RepairState, state.sink = ⟨0, 0, []⟩ →
      Copied sink content (maximumChunk chunkBytes) prefixBytes 0 state.sink := by
    intro state fresh
    rw [fresh]
    exact ⟨by rw [Nat.zero_min, List.take_zero], (Nat.zero_min _).symm, .start⟩
  apply Holds.bind (copies.from_stronger starts)
  intro hash
  apply Holds.withFact
  rintro rfl
  apply Holds.bind (repairExtent_served serves
    (Copied sink content (maximumChunk chunkBytes) prefixBytes content.length))
  intro final
  apply Holds.withFact
  rintro rfl
  apply Holds.read_bind
  intro current copied
  have all : min content.length prefixBytes = prefixBytes := Nat.min_eq_right within
  apply Holds.ite
  · rintro (differs | behind)
    · exact absurd rfl differs
    · exact absurd (copied.position.trans all) behind
  intro _
  apply Holds.pure
  rintro state rfl
  exact ⟨rfl, copied.file.trans (by rw [all])⟩

end Served

section Repair

variable {source : LogSource} {content : List UInt8} {files : RepairFiles}
  {options : LogScanOptions}

/-- Every scan within a repair has the result of the first one. -/
theorem repairScan_served (serves : source.Serves content) (valid : options.valid = true)
    (sink : SinkState) (calls : Nat) {stopped : LogRepairResult → RepairState → Prop} :
    Holds (fun state => state.sink = sink) (repairScan source options)
      (fun result state => result = (scanCommandLog source options calls).1 ∧ state.sink = sink)
      stopped := by
  intro state kept
  exact ⟨(scanCommandLog_alike serves serves valid valid state.calls calls).1, kept⟩

/-- A part of a repair ends it only where the part fails. -/
theorem orElse_holds {Value : Type} {part : RepairM Value} {before : RepairState → Prop}
    {after : Value → RepairState → Prop} {failed : LogIoFailure → RepairState → Prop}
    {stopped : LogRepairResult → RepairState → Prop} {ends : LogIoFailure → LogRepairResult}
    (holds : Holds before part after failed)
    (ending : ∀ failure state, failed failure state → stopped (ends failure) state) :
    Holds before (orElse part ends) after stopped := by
  intro state pre
  have post := holds state pre
  unfold orElse
  cases run : part state with
  | mk outcome next =>
    rw [run] at post
    cases outcome with
    | error failure => exact ending failure next post
    | ok value => exact post

/-- How a repair of a served string ends. -/
inductive Repaired (files : RepairFiles) (options : LogScanOptions) (content : List UInt8)
    (scan : LogScanResult) : LogRepairResult → RepairState → Prop
  /-- The scan found no torn record, and nothing was written. -/
  | refused {state : RepairState} (whole : scan.repairable = false)
      (untouched : state.sink.file = []) : Repaired files options content scan (.refused scan) state
  /-- The file system refused to open or to write the file. -/
  | failed {result : LogRepairResult} {state : RepairState} (torn : scan.repairable = true)
      (uncreated : result.outputCreated = false)
      (because : (∃ failure, openTemporary files 1024 0 = .error failure) ∨
        CopyFails files.sink content (maximumChunk options.readChunkBytes)
          scan.validEndOffset) :
      Repaired files options content scan result state
  /-- The prefix was written and published. -/
  | published {state : RepairState} {attempt : Nat} (torn : scan.repairable = true)
      (written : state.sink.file = content.take scan.validEndOffset) :
      Repaired files options content scan (publishRepair files scan attempt) state

/-- What is abandoned is not created. -/
theorem abandonTemporary_uncreated (scan : LogScanResult) (attempt : Nat) :
    (abandonTemporary files scan attempt).outputCreated = false := by
  unfold abandonTemporary
  cases files.abandon <;> rfl

/-- A repair of a served string ends in one of three ways. -/
theorem repairBody_served (serves : source.Serves content) (valid : options.valid = true)
    (calls : Nat) (identified : (scanCommandLog source options calls).1.repairable = true →
      (scanCommandLog source options calls).1.validPrefixDigest.isSome = true ∧
        (scanCommandLog source options calls).1.validEndOffset ≤ content.length) :
    Holds (fun state => state.sink = ⟨0, 0, []⟩) (repairBody source files options)
      (Repaired files options content (scanCommandLog source options calls).1)
      (Repaired files options content (scanCommandLog source options calls).1) := by
  have positive : 0 < options.readChunkBytes := by
    have some := of_decide_eq_true valid
    omega
  generalize scanned : (scanCommandLog source options calls).1 = scan at identified ⊢
  have scans {stopped : LogRepairResult → RepairState → Prop} :=
    @repairScan_served source content options serves valid ⟨0, 0, []⟩ calls stopped
  rw [scanned] at scans
  have identity (kept : SinkState → Prop) {ends : LogIoFailure → LogRepairResult}
      {stopped : LogRepairResult → RepairState → Prop} :
      Holds (fun state => kept state.sink)
        (orElse (sourceIdentity source options.readChunkBytes) ends)
        (fun identity state => identity = (sha256 content, content.length) ∧ kept state.sink)
        stopped :=
    orElse_holds (sourceIdentity_served serves positive kept) fun _ _ never => False.elim never
  unfold repairBody
  apply Holds.bind scans
  intro validated
  apply Holds.withFact
  rintro rfl
  apply Holds.ite
  · intro whole
    apply Holds.stop
    intro state fresh
    exact .refused whole (by rw [fresh])
  intro torn
  rw [Bool.not_eq_false] at torn
  obtain ⟨digest, within⟩ := identified torn
  apply Holds.bind (identity fun next => next = ⟨0, 0, []⟩)
  intro first
  apply Holds.withFact
  rintro rfl
  apply Holds.bind scans
  intro confirmed
  apply Holds.withFact
  rintro rfl
  apply Holds.ite
  · intro differs
    simp [sameRepairableSource, torn, digest] at differs
  intro _
  apply Holds.bind (identity fun next => next = ⟨0, 0, []⟩)
  intro second
  apply Holds.withFact
  rintro rfl
  apply Holds.ite
  · rintro (differs | differs)
    · exact absurd rfl differs
    · exact absurd rfl differs
  intro _
  cases opened : openTemporary files 1024 0 with
  | error failure =>
    apply Holds.stop
    intro state _
    exact .failed torn rfl (.inl ⟨failure, opened⟩)
  | ok attempt =>
    unfold copyRepair
    apply Holds.bind (orElse_holds (copyValidPrefixAndIdentify_served serves files.sink positive
      within) fun failure state failing =>
        .failed torn (abandonTemporary_uncreated _ _) (.inr failing))
    intro copied
    apply Holds.withFact
    rintro rfl
    apply Holds.ite
    · rintro (differs | differs)
      · exact absurd rfl differs
      · exact absurd rfl differs
    intro _
    apply Holds.bind (identity fun next => next.file = content.take confirmed.validEndOffset)
    intro final
    apply Holds.withFact
    rintro rfl
    apply Holds.ite
    · rintro (differs | differs)
      · exact absurd rfl differs
      · exact absurd rfl differs
    intro _
    apply Holds.pure
    intro state written
    exact .published torn written

/-- A scan of a served string that finds a torn record has accepted a log before it. -/
theorem torn_scan (serves : source.Serves content) (valid : options.valid = true) (calls : Nat)
    (torn : (scanCommandLog source options calls).1.repairable = true) :
    ∃ (log : CommandLog) (tail : List UInt8), tail ≠ [] ∧ content = log.encoding ++ tail ∧
      (scanCommandLog source options calls).1 = log.tornScan content.length := by
  have ends := scanCommandLog_ends serves.shows valid calls
  generalize (scanCommandLog source options calls).2.visits = visits at ends
  generalize (scanCommandLog source options calls).1 = scan at ends torn ⊢
  cases ends with
  | clean log known shown =>
    simp [LogScanResult.repairable, CommandLog.cleanScan] at torn
  | torn log extent known shown short =>
    rw [List.drop_zero] at shown
    obtain ⟨tail, layout⟩ := shown
    refine ⟨log, tail, ?_, layout.symm, by rw [known]⟩
    rintro rfl
    rw [← layout, List.append_nil] at known
    omega
  | broken _ _ failed _ =>
    rcases failed with failed | failed <;> simp [LogScanResult.repairable, failed] at torn

/-- A repair of a served string ends in one of three ways, with the file it has written. -/
theorem repairCommandLogSource_ends (serves : source.Serves content)
    (valid : options.valid = true) (calls : Nat) :
    ∃ state, Repaired files options content (scanCommandLog source options calls).1
        (repairCommandLogSourceToNewFile source files options calls).1 state ∧
      (repairCommandLogSourceToNewFile source files options calls).2 = state.sink.file := by
  have identified : (scanCommandLog source options calls).1.repairable = true →
      (scanCommandLog source options calls).1.validPrefixDigest.isSome = true ∧
        (scanCommandLog source options calls).1.validEndOffset ≤ content.length := by
    intro torn
    obtain ⟨log, tail, _, layout, scanned⟩ := torn_scan serves valid calls torn
    rw [scanned]
    refine ⟨rfl, ?_⟩
    show log.encoding.length ≤ content.length
    rw [layout, List.length_append]
    omega
  have ends := @repairBody_served source content files options serves valid calls identified
    ⟨calls, ⟨0, 0, []⟩⟩ rfl
  unfold repairCommandLogSourceToNewFile
  cases run : repairBody source files options ⟨calls, ⟨0, 0, []⟩⟩ with
  | mk outcome state =>
    rw [run] at ends
    cases outcome with
    | error result => exact ⟨state, ends, rfl⟩
    | ok result => exact ⟨state, ends, rfl⟩

/-- Without a torn record nothing is written. -/
theorem repairCommandLogSource_whole (serves : source.Serves content)
    (valid : options.valid = true) (calls : Nat)
    (whole : (scanCommandLog source options calls).1.repairable = false) :
    repairCommandLogSourceToNewFile source files options calls =
      (.refused (scanCommandLog source options calls).1, []) := by
  obtain ⟨state, ends, file⟩ :=
    @repairCommandLogSource_ends source content files options serves valid calls
  have both : (repairCommandLogSourceToNewFile source files options calls).1 =
      .refused (scanCommandLog source options calls).1 ∧ state.sink.file = [] := by
    generalize (repairCommandLogSourceToNewFile source files options calls).1 = result at ends ⊢
    cases ends with
    | refused _ untouched => exact ⟨rfl, untouched⟩
    | failed torn _ _ =>
      rw [whole] at torn
      cases torn
    | published torn _ =>
      rw [whole] at torn
      cases torn
  exact Prod.ext both.1 (file.trans both.2)

/-- A repair restores the log. Over a source that serves one string, in pieces of any size, and
whatever the file system answers, an output is created only for a log with a torn record behind
it, and the output is that log: it scans clean with the same records and is not repaired again.
Without a torn record nothing is written. With one, an output is created unless the file system
fails to open, to write, to keep or to publish the file. -/
theorem repairCommandLogSource_restores {source : LogSource} {content : List UInt8}
    (serves : source.Serves content) {options : LogScanOptions} (valid : options.valid = true)
    (files : RepairFiles) (calls : Nat) :
    ((repairCommandLogSourceToNewFile source files options calls).1.outputCreated = true →
      ∃ (log : CommandLog) (tail : List UInt8), tail ≠ [] ∧ content = log.encoding ++ tail ∧
        (scanCommandLog source options calls).1 = log.tornScan content.length ∧
        (repairCommandLogSourceToNewFile source files options calls).2 = log.encoding ∧
        ∀ output : LogSource, output.Serves log.encoding → ∀ again : LogScanOptions,
          again.valid = true → ∀ later,
          (scanCommandLog output again later).1 = log.cleanScan ∧
            (scanCommandLog output again later).2.visits = log.visits ∧
            ∀ others, (repairCommandLogSourceToNewFile output others again later).1.outputCreated =
              false) ∧
    ((scanCommandLog source options calls).1.repairable = false →
      repairCommandLogSourceToNewFile source files options calls =
        (.refused (scanCommandLog source options calls).1, [])) ∧
    ((scanCommandLog source options calls).1.repairable = true →
      (∃ attempt, openTemporary files 1024 0 = .ok attempt) →
      ¬CopyFails files.sink content (maximumChunk options.readChunkBytes)
        (scanCommandLog source options calls).1.validEndOffset → files.commit = none →
      files.publication.failure = none → files.publication.destinationVisible = true →
      (repairCommandLogSourceToNewFile source files options calls).1.outputCreated = true) := by
  obtain ⟨state, ends, file⟩ :=
    @repairCommandLogSource_ends source content files options serves valid calls
  refine ⟨?_, repairCommandLogSource_whole serves valid calls, ?_⟩
  · intro created
    have torn : (scanCommandLog source options calls).1.repairable = true ∧
        (repairCommandLogSourceToNewFile source files options calls).2 =
          content.take (scanCommandLog source options calls).1.validEndOffset := by
      rw [file]
      generalize (repairCommandLogSourceToNewFile source files options calls).1 = result
        at ends created
      cases ends with
      | refused _ _ => cases created
      | failed _ uncreated _ =>
        rw [uncreated] at created
        cases created
      | published torn written => exact ⟨torn, written⟩
    obtain ⟨log, tail, remains, layout, scanned⟩ := torn_scan serves valid calls torn.1
    refine ⟨log, tail, remains, layout, scanned, ?_, ?_⟩
    · have boundary : (scanCommandLog source options calls).1.validEndOffset =
          log.encoding.length := by
        rw [scanned]
        rfl
      rw [torn.2, boundary, layout, List.take_left]
    · intro output serving again usable later
      have clean := scanCommandLog_clean log serving usable later
      refine ⟨clean.1, clean.2, ?_⟩
      intro others
      rw [repairCommandLogSource_whole serving usable later (by rw [clean.1]; rfl)]
      rfl
  · rintro torn ⟨attempt, opened⟩ writes commits publishes visible
    generalize (repairCommandLogSourceToNewFile source files options calls).1 = result at ends
    cases ends with
    | refused whole _ =>
      rw [whole] at torn
      cases torn
    | failed _ _ because =>
      rcases because with ⟨failure, refused⟩ | fails
      · rw [opened] at refused
        cases refused
      · exact absurd fails writes
    | published _ _ =>
      unfold publishRepair
      simp only [commits, publishes]
      exact visible

/-- A file system that does everything. -/
def steadyFiles : RepairFiles where
  openNew := fun _ => none
  sink := ⟨fun _ bytes => ⟨bytes.length, none⟩, fun _ => none, fun _ => none⟩
  abandon := none
  commit := none
  publication := ⟨true, false, none⟩
  remove := none

/-- It takes every write. -/
theorem steadyFiles_takes (content : List UInt8) (chunk prefixBytes : Nat) :
    ¬CopyFails steadyFiles.sink content chunk prefixBytes := by
  rintro ⟨calls, position, _, some, failed | nothing | much⟩
  · exact failed rfl
  · exact some (List.length_eq_zero_iff.mp nothing)
  · exact absurd much (Nat.lt_irrefl _)

/-- A log that ends in the first byte of a record is repaired, to the log before that byte. -/
theorem repairCommandLogSource_restores_torn :
    (repairCommandLogSourceToNewFile
      (steadySource (sampleLog.encoding ++ sampleRecord.encoding.take 1)) steadyFiles ⟨4⟩
        0).1.outputCreated = true ∧
    (repairCommandLogSourceToNewFile
      (steadySource (sampleLog.encoding ++ sampleRecord.encoding.take 1)) steadyFiles ⟨4⟩
        0).2 = sampleLog.encoding := by
  have serves := steadySource_serves (sampleLog.encoding ++ sampleRecord.encoding.take 1)
  have usable : (⟨4⟩ : LogScanOptions).valid = true := rfl
  obtain ⟨remains, torn⟩ := sampleRecord.torn (show 0 < 1 by decide) (by decide +kernel)
  have scanned := (scanCommandLog_torn sampleLog serves usable remains torn 0).1
  obtain ⟨restores, _, creates⟩ := repairCommandLogSource_restores serves usable steadyFiles 0
  have created := creates (by rw [scanned]; rfl) ⟨0, rfl⟩ (steadyFiles_takes _ _ _) rfl rfl rfl
  obtain ⟨log, tail, _, layout, found, output, _⟩ := restores created
  have boundary : sampleLog.encoding.length = log.encoding.length :=
    congrArg LogScanResult.validEndOffset (scanned.symm.trans found)
  exact ⟨created, output.trans (List.append_inj_left layout boundary).symm⟩

end Repair

end AtlasLob
