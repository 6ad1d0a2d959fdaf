import AtlasLob.Verif.Replay
import AtlasLob.Verif.RoundTrip

/-!
# Write-ahead logging

The file of a session always holds the log of its market with at most a part of one more record
behind it. An open session has committed every record of its file; a poisoned one has committed
all of them or all but the last. So whatever prefix of the file survives, its replay is the engine
after the commands whose records are complete.
-/

namespace AtlasLob

open Binary

section Sink

/-- Writing appends bytes from the front, and all of them if it succeeds. -/
theorem writeAll_appends (sink : LogSink) (state : SinkState) (bytes : List UInt8) :
    ∃ count, (writeAll sink state bytes).1.file = state.file ++ bytes.take count ∧
      ((writeAll sink state bytes).2 = none → bytes.length ≤ count ∧
        (writeAll sink state bytes).1.position = state.position + bytes.length) := by
  fun_induction writeAll sink state bytes with
  | case1 state => exact ⟨0, by simp, fun _ => ⟨Nat.le_refl _, rfl⟩⟩
  | case2 state remaining some answer file failure failed =>
    exact ⟨answer.appended, rfl, fun none => by cases none⟩
  | case3 state remaining some answer file fine written unusable =>
    exact ⟨answer.appended, rfl, fun none => by cases none⟩
  | case4 state remaining some answer file fine written usable ih =>
    obtain ⟨count, appended, complete⟩ := ih
    rw [not_or] at usable
    refine ⟨answer.appended + count, ?_, ?_⟩
    · rw [appended]
      show state.file ++ _ ++ _ = _
      rw [List.append_assoc, ← List.take_add]
    · intro none
      obtain ⟨whole, position⟩ := complete none
      rw [List.length_drop] at whole position
      refine ⟨by omega, ?_⟩
      rw [position]
      show state.position + _ + _ = _
      omega

/-- Flushing and synchronizing leave the file and the position. -/
theorem flushAndSync_keeps (sink : LogSink) (state : SinkState) :
    (flushAndSync sink state).1.file = state.file ∧
      (flushAndSync sink state).1.position = state.position := by
  unfold flushAndSync
  cases flushed : flushSink sink state with
  | mk next failure =>
    have kept : next = { state with calls := state.calls + 1 } :=
      (congrArg Prod.fst flushed).symm
    cases failure with
    | some error =>
      rw [kept]
      exact ⟨rfl, rfl⟩
    | none =>
      rw [kept]
      exact ⟨rfl, rfl⟩

/-- Making a record durable leaves the file and the position. -/
theorem applyDurability_keeps (sink : LogSink) (state : SinkState) (durability : Durability) :
    (applyDurability sink state durability).1.file = state.file ∧
      (applyDurability sink state durability).1.position = state.position := by
  cases durability with
  | buffered => exact ⟨rfl, rfl⟩
  | flushEachRecord => exact ⟨rfl, rfl⟩
  | syncEachRecord => exact flushAndSync_keeps sink state

/-- A sink that takes everything: every write takes some of its bytes, and no call fails. -/
structure LogSink.Takes (sink : LogSink) : Prop where
  /-- What a write answers. -/
  write : ∀ calls bytes, bytes ≠ [] → 0 < (sink.write calls bytes).appended ∧
    (sink.write calls bytes).appended ≤ bytes.length ∧ (sink.write calls bytes).failure = none
  /-- What a flush answers. -/
  flush : ∀ calls, sink.flush calls = none
  /-- What a synchronization answers. -/
  sync : ∀ calls, sink.sync calls = none

/-- Such a sink takes all bytes. -/
theorem LogSink.Takes.writeAll {sink : LogSink} (takes : sink.Takes) (state : SinkState)
    (bytes : List UInt8) : (writeAll sink state bytes).2 = none := by
  fun_induction AtlasLob.writeAll sink state bytes with
  | case1 state => rfl
  | case2 state remaining some answer file failure failed =>
    obtain ⟨_, _, fine⟩ := takes.write state.calls remaining some
    rw [fine] at failed
    cases failed
  | case3 state remaining some answer file fine written unusable =>
    obtain ⟨positive, bounded, _⟩ := takes.write state.calls remaining some
    rcases unusable with nothing | much
    · exact absurd nothing (Nat.ne_of_gt positive)
    · exact absurd bounded (Nat.not_le.mpr much)
  | case4 state remaining some answer file fine written usable ih => exact ih

/-- Making a record durable in it does not fail. -/
theorem LogSink.Takes.applyDurability {sink : LogSink} (takes : sink.Takes) (state : SinkState)
    (durability : Durability) : (applyDurability sink state durability).2 = none := by
  cases durability with
  | buffered => rfl
  | flushEachRecord => simp [AtlasLob.applyDurability, flushSink, takes.flush]
  | syncEachRecord =>
    simp [AtlasLob.applyDurability, flushAndSync, flushSink, syncSink, takes.flush, takes.sync]

end Sink

/-- A prepared command without a batch failed, and every other one has the batch of the reply. -/
theorem Prepares.answers {market : Market} {command : Command} {live : MultiInstrumentEngine}
    {prepared : PreparedMultiInstrumentCommand} (prepares : Prepares market command live prepared) :
    (prepared.batch = none ∧ ∃ error, market.step command = (market, .error error)) ∨
      ∃ batch, prepared.batch = some batch ∧ (market.step command).2 = .ok batch.events := by
  cases prepares with
  | @failed error stands replied => exact .inl ⟨rfl, error, replied⟩
  | @refused batch decision stands unspent judged events =>
    refine .inr ⟨batch, rfl, ?_⟩
    simp only [Market.step, unspent, judged, Bool.false_eq_true, ↓reduceIte, events]
  | @overflowed batch desk decision stands unspent found judged events =>
    refine .inr ⟨batch, rfl, ?_⟩
    simp only [Market.step, unspent, judged, Bool.false_eq_true, ↓reduceIte, events]
  | @aggressor batch desk order replaced opening stands unspent found admitted submits aggresses
      fresh judged fits short events =>
    refine .inr ⟨batch, rfl, ?_⟩
    simp only [Market.step, unspent, judged, short, Bool.false_eq_true, ↓reduceIte, events]
  | @withdrawal batch desk old stands unspent found admitted member withdraws judged events =>
    refine .inr ⟨batch, rfl, ?_⟩
    have short : ¬ 2 ^ 32 < (desk.ladder.withdrawalReport old).length := by
      rw [Ladder.withdrawalReport, Ladder.changeEvents]
      split_ifs <;> simp
    simp only [Market.step, unspent, judged, short, Bool.false_eq_true, ↓reduceIte, events]

/-- A committed batch is the one its record was made of. -/
theorem matchesRecord_of_record {command : Command} {batch : EventBatch} {record : CommandRecord}
    (recorded : submissionRecord command batch = some record) :
    matchesRecord (.success batch) record = true := by
  unfold submissionRecord at recorded
  cases refused : batch.rejected with
  | false =>
    rw [refused, if_neg (by decide), Option.some_inj] at recorded
    rw [← recorded]
    simp [matchesRecord, EngineResult.batch, recordOf, refused, RecordOutcome.committed,
      RecordOutcome.rejected]
  | true =>
    rw [refused, if_pos rfl] at recorded
    obtain ⟨reason, _, made⟩ := Option.map_eq_some_iff.mp recorded
    rw [← made]
    simp [matchesRecord, EngineResult.batch, recordOf, refused]

/-- The log with the record of the next reply of its market. -/
theorem CommandLog.next {log : CommandLog}
    (logs : log.header.market.Logs log.records (log.header.market.run log.commands).1)
    {command : Command} {batch : EventBatch} {record : CommandRecord}
    (kept : Records (log.header.market.run log.commands).1 command batch record) :
    ∃ longer : CommandLog, longer.header = log.header ∧
      longer.records = log.records ++ [record] ∧
      longer.encoding = log.encoding ++ record.encoding ∧
      longer.header.market.Logs longer.records (longer.header.market.run longer.commands).1 ∧
      (longer.header.market.run longer.commands).1 =
        ((log.header.market.run log.commands).1.step command).1 := by
  obtain ⟨valid, commanded, _⟩ := kept.facts
  have all : log.header.market.Logs (log.records ++ [record])
      ((log.header.market.run log.commands).1.step command).1 :=
    logs.append (.step kept (.still _))
  have next : record.sequence.toNat = log.records.length + 1 := by
    rw [all.sequenced (show (log.records ++ [record])[log.records.length]? = some record by simp),
      Nat.add_comm]
    rfl
  have ran : (log.header.market.run ((log.records ++ [record]).map CommandRecord.command)).1 =
      ((log.header.market.run log.commands).1.step command).1 := all.run
  refine ⟨log.extend record valid next, rfl, rfl, log.extend_encoding record valid next, ?_, ran⟩
  show log.header.market.Logs (log.records ++ [record])
    (log.header.market.run ((log.records ++ [record]).map CommandRecord.command)).1
  rw [ran]
  exact all

namespace LoggedEngine

/-- A session keeps a log: the file holds it with at most a part of one more record behind it, and
the engine has executed its first commands. -/
structure Keeps (session : LoggedEngine) (log : CommandLog) (tail : List UInt8) (count : Nat) :
    Prop where
  /-- What the file holds. -/
  bytes : session.sink.file = log.encoding ++ tail
  /-- What is behind the log. -/
  torn : tail = [] ∨ TornRecord tail
  /-- The log is one of the market of its header. -/
  logs : log.header.market.Logs log.records (log.header.market.run log.commands).1
  /-- What the engine has executed. -/
  stands : Stands session.engine (log.header.market.run (log.commands.take count)).1 false none
  /-- At most the last record is not committed. -/
  recent : count ≤ log.records.length ∧ log.records.length ≤ count + 1
  /-- An open session has committed everything. -/
  whole : session.poisoned = false →
    count = log.records.length ∧ tail = [] ∧ session.sink.position = log.encoding.length

/-- An open session stands for the market after its log. -/
theorem Keeps.stands_all {session : LoggedEngine} {log : CommandLog} {tail : List UInt8}
    {count : Nat} (keeps : session.Keeps log tail count) (live : session.poisoned = false) :
    Stands session.engine (log.header.market.run log.commands).1 false none := by
  have stands := keeps.stands
  have all : log.commands.length ≤ count := by
    rw [(keeps.whole live).1, CommandLog.commands, List.length_map]
  rwa [List.take_of_length_le all] at stands

/-- What a submission to an open session can do. -/
inductive Submitted (sink : LogSink) (session : LoggedEngine) (log : CommandLog)
    (command : Command) : LoggedEngine → LoggedSubmissionResult → Prop
  /-- The engine failed before anything was logged. -/
  | failed {error : EngineError} {next : LoggedEngine} (unchanged : next = session)
      (replied : (log.header.market.run log.commands).1.step command =
        ((log.header.market.run log.commands).1, .error error)) :
      Submitted sink session log command next ⟨some (.failure error), none, false⟩
  /-- The command was logged and published. -/
  | published {batch : EventBatch} {record : CommandRecord} {next : LoggedEngine}
      {longer : CommandLog}
      (kept : Records (log.header.market.run log.commands).1 command batch record)
      (header : longer.header = log.header) (records : longer.records = log.records ++ [record])
      (keeps : next.Keeps longer [] longer.records.length) (live : next.poisoned = false) :
      Submitted sink session log command next ⟨some (.success batch), none, false⟩
  /-- The sink failed: the record was not written or not made durable. -/
  | lost {batch : EventBatch} {record : CommandRecord} {next : LoggedEngine} {error : LogError}
      {written : CommandLog} {tail : List UInt8} (refuses : ¬sink.Takes)
      (kept : Records (log.header.market.run log.commands).1 command batch record)
      (header : written.header = log.header)
      (records : written.records = log.records ∨ written.records = log.records ++ [record])
      (keeps : next.Keeps written tail log.records.length)
      (unchanged : next.engine = session.engine)
      (poisoned : next.poisoned = true) :
      Submitted sink session log command next ⟨none, some error, true⟩

section Submission

variable {sink : LogSink} {session : LoggedEngine} {log : CommandLog} {tail : List UInt8}
  {count : Nat}

/-- A session that gives up after a part of its record still keeps a log. -/
theorem Keeps.lose (keeps : session.Keeps log tail count) (live : session.poisoned = false)
    (refuses : ¬sink.Takes)
    {command : Command} {batch : EventBatch} {record : CommandRecord}
    (kept : Records (log.header.market.run log.commands).1 command batch record)
    {engine : MultiInstrumentEngine}
    (stands : Stands engine (log.header.market.run log.commands).1 false none)
    {settled : SinkState} {appended : Nat}
    (file : settled.file = session.sink.file ++ record.encoding.take appended) (error : LogError) :
    Submitted sink session log command
      { session with engine := engine, sink := settled, poisoned := true }
      ⟨none, some error, true⟩ := by
  have same : engine = session.engine := stands.unique (keeps.stands_all live)
  obtain ⟨_, nothing, _⟩ := keeps.whole live
  have held : session.sink.file = log.encoding := by
    rw [keeps.bytes, nothing, List.append_nil]
  have all : log.commands.take log.records.length = log.commands := by
    apply List.take_of_length_le
    rw [CommandLog.commands, List.length_map]
  by_cases complete : record.encoding.length ≤ appended
  · obtain ⟨longer, header, records, encoding, logs, _⟩ := CommandLog.next keeps.logs kept
    have before : longer.commands.take log.records.length = log.commands := by
      unfold CommandLog.commands
      rw [records, List.map_append, List.take_left' (List.length_map _)]
    refine .lost refuses kept header (.inr records) ⟨?_, .inl rfl, logs, ?_, ?_, ?_⟩ same rfl
    · rw [List.append_nil, encoding, ← held, ← List.take_of_length_le complete]
      exact file
    · rw [header, before]
      exact stands
    · rw [records, List.length_append, List.length_singleton]
      omega
    · intro opened
      cases opened
  · refine @Submitted.lost _ _ _ _ _ _ _ error log (record.encoding.take appended) refuses kept
      rfl (.inl rfl) ⟨?_, ?_, keeps.logs, ?_, ⟨Nat.le_refl _, by omega⟩, ?_⟩ same rfl
    · rw [← held]
      exact file
    · refine .inr ⟨record, record.encoding.drop appended, (List.take_append_drop _ _).symm, ?_⟩
      apply List.ne_nil_of_length_pos
      rw [List.length_drop]
      omega
    · rw [all]
      exact stands
    · intro opened
      cases opened

/-- A session that commits its record keeps the longer log. -/
theorem Keeps.publish (keeps : session.Keeps log tail count) (live : session.poisoned = false)
    {command : Command} {batch : EventBatch} {record : CommandRecord}
    (kept : Records (log.header.market.run log.commands).1 command batch record)
    {engine : MultiInstrumentEngine}
    (stands : Stands engine ((log.header.market.run log.commands).1.step command).1 false none)
    {settled : SinkState} (file : settled.file = session.sink.file ++ record.encoding)
    (position : settled.position = session.sink.position + record.encoding.length) :
    Submitted sink session log command { session with engine := engine, sink := settled }
      ⟨some (.success batch), none, false⟩ := by
  obtain ⟨_, nothing, before⟩ := keeps.whole live
  obtain ⟨longer, header, records, encoding, logs, ran⟩ := CommandLog.next keeps.logs kept
  have all : longer.commands.take longer.records.length = longer.commands := by
    apply List.take_of_length_le
    rw [CommandLog.commands, List.length_map]
  refine .published kept header records ⟨?_, .inl rfl, logs, ?_, ⟨Nat.le_refl _, by omega⟩, ?_⟩ live
  · rw [List.append_nil, encoding, file, keeps.bytes, nothing, List.append_nil]
  · rw [all, ran]
    exact stands
  · intro _
    refine ⟨rfl, rfl, ?_⟩
    rw [encoding, List.length_append, ← before]
    exact position

/-- A submission to an open session fails without a trace, publishes a logged command, or gives
the session up with its engine as before because the sink failed. -/
theorem Keeps.submit (keeps : session.Keeps log tail count) (live : session.poisoned = false)
    (checks : Bool) (sink : LogSink) (command : Command) :
    ∃ next result, session.submit checks sink command = .ok (next, result) ∧
      Submitted sink session log command next result := by
  obtain ⟨held, prepared, prepares, staged⟩ :=
    (keeps.stands_all live).prepareState checks command
  obtain ⟨back, abandoned, undone⟩ := staged.abandon checks
  obtain ⟨ahead, result, committed, after, replied⟩ := staged.commit checks
  unfold LoggedEngine.submit
  rw [if_neg (Bool.not_eq_true _ ▸ live), prepares, Run.ok_bind]
  simp only
  rcases staged.answers with ⟨none, error, failed⟩ | ⟨batch, some, answered⟩
  · simp only [none, committed, Run.ok_bind]
    rw [failed] at after replied
    have same : ahead = session.engine := after.unique (keeps.stands_all live)
    have because : result = .failure error := by
      cases result with
      | success batch => cases replied
      | failure other =>
        cases replied
        rfl
    rw [because]
    exact ⟨_, _, rfl, .failed (by rw [same]) failed⟩
  obtain ⟨record, kept, valid, _, _⟩ := Market.records_of_reply answered
  have because : result = .success batch := by
    rw [answered] at replied
    cases result with
    | success other => rw [EventBatch.ext_events (Except.ok.inj replied)]
    | failure other => cases replied
  simp only [some, kept.recorded, LoggedEngine.writeLogged,
    encodeCommandRecord_eq_ok.mpr ⟨valid, rfl⟩]
  obtain ⟨appended, file, complete⟩ := writeAll_appends sink session.sink record.encoding
  cases written : writeAll sink session.sink record.encoding with
  | mk settled failure =>
    rw [written] at file complete
    cases failure with
    | some error =>
      simp only [abandoned, Run.ok_bind]
      have refuses : ¬sink.Takes := by
        intro takes
        have fine := takes.writeAll session.sink record.encoding
        rw [written] at fine
        cases fine
      exact ⟨_, _, rfl, keeps.lose live refuses kept undone file error⟩
    | none =>
      obtain ⟨enough, position⟩ := complete rfl
      have untouched := applyDurability_keeps sink settled session.durability
      simp only [LoggedEngine.publishLogged]
      cases durable : applyDurability sink settled session.durability with
      | mk last failure =>
        rw [durable] at untouched
        cases failure with
        | some error =>
          simp only [abandoned, Run.ok_bind]
          have refuses : ¬sink.Takes := by
            intro takes
            have fine := takes.applyDurability settled session.durability
            rw [durable] at fine
            cases fine
          exact ⟨_, _, rfl, keeps.lose live refuses kept undone (untouched.1.trans file) error⟩
        | none =>
          simp only [committed, Run.ok_bind, because, matchesRecord_of_record kept.recorded,
            if_true]
          refine ⟨_, _, rfl, keeps.publish live kept after ?_ (untouched.2.trans position)⟩
          rw [untouched.1, file, List.take_of_length_le enough]

end Submission

end LoggedEngine

section Cutting

/-- A part of a record that can be logged, cut shorter, is one. -/
theorem TornRecord.take {part : List UInt8} (torn : TornRecord part) (count : Nat) :
    TornRecord (part.take count) := by
  obtain ⟨record, missing, split, remains⟩ := torn
  refine ⟨record, part.drop count ++ missing, ?_, ?_⟩
  · rw [← List.append_assoc, List.take_append_drop]
    exact split
  · intro none
    exact remains (List.append_eq_nil_iff.mp none).2

/-- The records of a log, cut anywhere: some are complete, and of the next one a part is left. -/
theorem cut_records (records : List CommandRecord) {tail : List UInt8}
    (torn : tail = [] ∨ TornRecord tail) (cut : Nat) :
    ∃ kept rest, (records.flatMap CommandRecord.encoding ++ tail).take cut =
        (records.take kept).flatMap CommandRecord.encoding ++ rest ∧
      (rest = [] ∨ TornRecord rest) ∧ kept ≤ records.length ∧
      ((records.take kept).flatMap CommandRecord.encoding).length ≤ cut ∧
      (kept < records.length →
        cut < ((records.take (kept + 1)).flatMap CommandRecord.encoding).length) := by
  induction records generalizing cut with
  | nil =>
    refine ⟨0, tail.take cut, rfl, ?_, Nat.le_refl _, Nat.zero_le _, ?_⟩
    · rcases torn with none | part
      · left
        rw [none, List.take_nil]
      · exact .inr (part.take cut)
    · intro less
      cases less
  | cons record records ih =>
    rw [List.flatMap_cons, List.append_assoc]
    by_cases complete : record.encoding.length ≤ cut
    · obtain ⟨more, rfl⟩ := Nat.exists_eq_add_of_le complete
      obtain ⟨kept, rest, layout, part, bound, reached, next⟩ := ih more
      refine ⟨kept + 1, rest, ?_, part, ?_, ?_, ?_⟩
      · rw [List.take_length_add_append, layout, List.take_succ_cons, List.flatMap_cons,
          List.append_assoc]
      · rw [List.length_cons]
        omega
      · rw [List.take_succ_cons, List.flatMap_cons, List.length_append]
        omega
      · intro less
        rw [List.length_cons] at less
        have later := next (by omega)
        rw [List.take_succ_cons, List.flatMap_cons, List.length_append]
        omega
    · refine ⟨0, record.encoding.take cut, ?_, .inr ⟨record, record.encoding.drop cut,
        (List.take_append_drop _ _).symm, ?_⟩, Nat.zero_le _, Nat.zero_le _, ?_⟩
      · rw [List.take_append_of_le_length (by omega)]
        rfl
      · apply List.ne_nil_of_length_pos
        rw [List.length_drop]
        omega
      · intro _
        rw [Nat.zero_add, List.take_succ_cons, List.take_zero, List.flatMap_singleton]
        omega

/-- The file of a session, cut anywhere behind its header: a shorter log and a part of its next
record. -/
theorem CommandLog.cut (log : CommandLog) {tail : List UInt8}
    (torn : tail = [] ∨ TornRecord tail) {cut : Nat} (headed : log.header.encoding.length ≤ cut) :
    ∃ kept rest, (log.encoding ++ tail).take cut = (log.upTo kept).encoding ++ rest ∧
      (rest = [] ∨ TornRecord rest) ∧ kept ≤ log.records.length ∧
      (log.upTo kept).encoding.length ≤ cut ∧
      (kept < log.records.length → cut < (log.upTo (kept + 1)).encoding.length) := by
  obtain ⟨more, rfl⟩ := Nat.exists_eq_add_of_le headed
  obtain ⟨kept, rest, layout, part, bound, reached, next⟩ := cut_records log.records torn more
  refine ⟨kept, rest, ?_, part, bound, ?_, ?_⟩
  · unfold CommandLog.encoding CommandLog.upTo
    rw [List.append_assoc, List.take_length_add_append, layout, List.append_assoc]
  · unfold CommandLog.encoding CommandLog.upTo
    rw [List.length_append]
    simp only
    omega
  · intro less
    have later := next less
    unfold CommandLog.encoding CommandLog.upTo
    rw [List.length_append]
    simp only
    omega

/-- With more records a log is longer. -/
theorem CommandLog.upTo_shorter (log : CommandLog) {few many : Nat} (less : few < many)
    (bound : many ≤ log.records.length) :
    (log.upTo few).encoding.length < (log.upTo many).encoding.length := by
  obtain ⟨more, rfl⟩ := Nat.exists_eq_add_of_le less
  have inside : few < log.records.length := by omega
  have parts : log.records.take (few + 1 + more) = log.records.take few ++
      (log.records[few] :: (log.records.drop (few + 1)).take more) := by
    rw [List.take_add, List.take_succ_eq_append_getElem inside, List.append_assoc,
      List.singleton_append]
  have positive := log.records[few].encoding_length
  unfold CommandLog.encoding CommandLog.upTo
  simp only [parts, List.flatMap_append, List.flatMap_cons, List.length_append]
  omega

/-- All records of a log are the log. -/
theorem CommandLog.upTo_all (log : CommandLog) : log.upTo log.records.length = log :=
  CommandLog.eq_of_parts rfl List.take_length

/-- A cut of the last byte of a log loses its last record and nothing else. -/
theorem CommandLog.cut_last {log : CommandLog} {kept : Nat} (some : 0 < log.records.length)
    (bound : kept ≤ log.records.length)
    (reached : (log.upTo kept).encoding.length ≤ log.encoding.length - 1)
    (next : kept < log.records.length →
      log.encoding.length - 1 < (log.upTo (kept + 1)).encoding.length) :
    kept + 1 = log.records.length := by
  have whole := congrArg CommandLog.encoding log.upTo_all
  have positive := log.upTo_shorter some (Nat.le_refl _)
  rw [whole] at positive
  rcases Nat.lt_trichotomy (kept + 1) log.records.length with less | last | more
  · have shorter := log.upTo_shorter less (Nat.le_refl _)
    rw [whole] at shorter
    have beyond := next (by omega)
    omega
  · exact last
  · obtain rfl : kept = log.records.length := by omega
    rw [whole] at reached
    omega

/-- The first records of a log of a market are a log of it. -/
theorem CommandLog.upTo_logs {log : CommandLog}
    (logs : log.header.market.Logs log.records (log.header.market.run log.commands).1)
    (kept : Nat) :
    (log.upTo kept).header.market.Logs (log.upTo kept).records
      ((log.upTo kept).header.market.run (log.upTo kept).commands).1 := by
  have whole := logs
  rw [← List.take_append_drop kept log.records] at whole
  obtain ⟨middle, before, _⟩ := whole.split
  have reached := before.run
  show log.header.market.Logs (log.records.take kept)
    (log.header.market.run ((log.records.take kept).map CommandRecord.command)).1
  rw [reached]
  exact before

end Cutting

end AtlasLob
