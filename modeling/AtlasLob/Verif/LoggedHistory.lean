import AtlasLob.Verif.LoggedEngine

/-!
# Histories of logged sessions

A new session keeps the log without records of the market of its catalog. Submissions and
synchronizations keep a log under any behaviour of the sink, and so does a recovery from any prefix
of the file that survived. So in every history the file agrees with the engine, and every cut of
the file replays to the engine after the commands it still holds.
-/

namespace AtlasLob

open Binary

section Opening

/-- A key behind all others is inserted at the end. -/
theorem SortedMap.insert_behind {κ ν : Type} {before : κ → κ → Bool} {key : κ} {value : ν}
    {entries : List (κ × ν)}
    (behind : ∀ other ∈ SortedMap.keys entries, before other key = true) :
    SortedMap.insert before key value entries = entries ++ [(key, value)] := by
  induction entries with
  | nil => rfl
  | cons entry rest ih =>
    obtain ⟨stored, old⟩ := entry
    have first := behind stored (by simp)
    rw [SortedMap.insert, if_pos first, ih fun other inside => behind other (by simp [inside])]
    rfl

/-- The desks of a catalog that is in order are opened in that order. -/
theorem Market.openingBooks_ordered {front desks : List (InstrumentId × Desk)}
    (sorted : SortedMap.Sorted instrumentBefore (front ++ desks))
    (plain : ∀ entry ∈ desks, entry = (entry.2.config.instrumentId, ⟨entry.2.config, .empty⟩)) :
    Market.openingBooks front (desks.map fun entry => entry.2.config) = front ++ desks := by
  induction desks generalizing front with
  | nil =>
    rw [List.append_nil]
    rfl
  | cons entry rest ih =>
    have shape := plain entry List.mem_cons_self
    have key : entry.1 = entry.2.config.instrumentId := congrArg Prod.fst shape
    have last : SortedMap.insert instrumentBefore entry.2.config.instrumentId
        ⟨entry.2.config, .empty⟩ front = front ++ [entry] := by
      conv => rhs; rw [shape]
      apply SortedMap.insert_behind
      intro other inside
      unfold SortedMap.Sorted at sorted
      rw [SortedMap.keys_append, List.pairwise_append] at sorted
      rw [← key]
      exact sorted.2.2 other inside entry.1 (by simp)
    have regrouped : front ++ entry :: rest = (front ++ [entry]) ++ rest := by simp
    rw [regrouped] at sorted ⊢
    rw [List.map_cons, openingBooks, last]
    exact ih sorted fun other inside => plain other (List.mem_cons_of_mem entry inside)

/-- The catalog an engine reports opens the same market. -/
theorem create_canonical {catalog : List InstrumentConfig} {config : MultiInstrumentEngineConfig}
    {engine : MultiInstrumentEngine}
    (created : MultiInstrumentEngine.create catalog config = .ok engine) :
    Market.opening (Market.opening catalog config).snapshot.catalog config =
      Market.opening catalog config := by
  rw [MultiInstrumentEngine.create] at created
  split_ifs at created
  all_goals simp only [Run.pure_eq, Run.error_bind, reduceCtorEq] at created
  obtain ⟨books, added, _⟩ := Run.bind_eq_ok.mp created
  obtain ⟨_, opening⟩ := addInstruments_agree SortedMap.Agree.nil
    ⟨List.Pairwise.nil, by simp, by simp⟩ added
  have ordered := @Market.openingBooks_ordered [] (Market.openingBooks [] catalog)
    opening.sorted (by
      rintro ⟨instrument, desk⟩ inside
      have configured := (opening.valid instrument desk inside).configured
      have empty := opening.empty instrument desk inside
      obtain ⟨deskConfig, ladder⟩ := desk
      simp only at configured empty
      rw [empty, configured])
  rw [List.nil_append] at ordered
  unfold Market.opening Market.snapshot
  simp only [ordered]

/-- The persisted form of a catalog leads back to it. -/
theorem config_ofConfig (catalog : List InstrumentConfig) :
    (catalog.map PersistedInstrumentConfig.ofConfig).map PersistedInstrumentConfig.config =
      catalog := by
  rw [List.map_map]
  exact List.map_id _

/-- A header made for a catalog opens the market of that catalog. -/
theorem makeLogHeader_market {catalog : List InstrumentConfig}
    {config : MultiInstrumentEngineConfig} {logId : LogId} {header : LogHeader}
    (made : makeLogHeader catalog config logId = .ok header) :
    header.market = Market.opening catalog config ∧ header.logId = logId ∧
      sortCatalog header.catalog = header.catalog := by
  unfold makeLogHeader codecFailure at made
  split_ifs at made with refused
  cases made
  rw [not_or, Bool.not_eq_true, Bool.not_eq_false] at refused
  refine ⟨?_, rfl, ?_⟩
  · unfold LogHeader.market
    rw [config_ofConfig]
  · apply sortCatalog_of_valid
    unfold persistedCatalogValid
    rw [List.isEmpty_map, refused.1, persistedCatalogFrom_map refused.2]
    rfl

/-- A new session keeps the log without records, for the engine of its catalog. -/
theorem createNew_keeps {sink : LogSink} {catalog : List InstrumentConfig}
    {config : MultiInstrumentEngineConfig} {logId : LogId} {durability : Durability}
    {session : LoggedEngine}
    (ran : LoggedEngine.createNew sink catalog config logId durability = .ok (.ok session)) :
    ∃ log : CommandLog, MultiInstrumentEngine.create catalog config = .ok session.engine ∧
      log.header.market = Market.opening catalog config ∧ session.Keeps log [] 0 := by
  unfold LoggedEngine.createNew at ran
  obtain ⟨engine, created, ran⟩ := Run.bind_eq_ok.mp ran
  have stands := create_stands created
  rw [stands.snapshot (by simp [Stands.Leases]), Run.ok_bind] at ran
  cases made : makeLogHeader (Market.opening catalog config).snapshot.catalog
      (Market.opening catalog config).snapshot.engineConfig logId with
  | error refused =>
    simp only [made, Run.pure_eq, Except.ok.injEq, reduceCtorEq] at ran
  | ok header =>
    obtain ⟨market, _, sorted⟩ := makeLogHeader_market made
    have opens : header.market = Market.opening catalog config :=
      market.trans (create_canonical created)
    simp only [made] at ran
    cases encoded : encodeLogHeader header with
    | error refused => simp only [encoded, Run.pure_eq, Except.ok.injEq, reduceCtorEq] at ran
    | ok bytes =>
      obtain ⟨headed, rfl⟩ := (encodeLogHeader_eq_ok sorted).mp encoded
      obtain ⟨appended, file, complete⟩ := writeAll_appends sink ⟨0, 0, []⟩ header.encoding
      simp only [encoded] at ran
      cases written : writeAll sink ⟨0, 0, []⟩ header.encoding with
      | mk settled failure =>
        rw [written] at file complete
        simp only [written] at ran
        cases failure with
        | some error => simp only [Run.pure_eq, Except.ok.injEq, reduceCtorEq] at ran
        | none =>
          obtain ⟨enough, position⟩ := complete rfl
          have untouched := applyDurability_keeps sink settled durability
          cases durable : applyDurability sink settled durability with
          | mk last failure =>
            rw [durable] at untouched
            simp only [durable] at ran
            cases failure with
            | some error => simp only [Run.pure_eq, Except.ok.injEq, reduceCtorEq] at ran
            | none =>
              simp only [Run.pure_eq, Except.ok.injEq] at ran
              have empty : (CommandLog.start header headed).encoding = header.encoding := by
                unfold CommandLog.encoding CommandLog.start
                rw [List.flatMap_nil, List.append_nil]
              have all : last.file = header.encoding := by
                rw [untouched.1, file, List.take_of_length_le enough]
                rfl
              rw [← ran]
              refine ⟨CommandLog.start header headed, created, opens, ?_, .inl rfl, .still _, ?_,
                ⟨Nat.le_refl _, Nat.zero_le _⟩, ?_⟩
              · rw [List.append_nil, empty]
                exact all
              · show Stands engine header.market false none
                rw [opens]
                exact stands
              · intro _
                refine ⟨rfl, rfl, ?_⟩
                rw [empty]
                show last.position = _
                rw [untouched.2, position]
                exact Nat.zero_add _

end Opening

section Recovery

variable {checks : Bool} {source : LogSource} {options : ReplayOptions} {calls : Nat}

/-- Bytes that are replayed to an engine begin with a log. -/
theorem replayLogSource_headed {survived : List UInt8} (serves : source.Serves survived)
    {result : ReplayResult} {engine : MultiInstrumentEngine}
    (ran : replayLogSource checks source options calls = .ok result)
    (handed : result.engine = some engine) : ∃ log : CommandLog, log.encoding <+: survived := by
  unfold replayLogSource at ran
  split_ifs at ran with invalid
  · rw [← Except.ok.inj ran] at handed
    cases handed
  rcases @scanCommandLog_accepts checks options source calls with
    ⟨log, accepts⟩ | ⟨report, refused⟩
  swap
  · rw [← Except.ok.inj (refused.symm.trans ran)] at handed
    cases handed
  have whole := accepts.reports.2.2.2.2
  have ends := scanCommandLog_ends serves.shows (show replayScanOptions.valid = true from rfl) calls
  generalize (scanCommandLog source replayScanOptions calls).2.visits = visits at ends
  generalize (scanCommandLog source replayScanOptions calls).1 = first at ends whole
  cases ends with
  | clean other known shown =>
    rw [List.drop_zero] at shown
    exact ⟨other, shown⟩
  | torn other extent known shown short =>
    rw [List.drop_zero] at shown
    exact ⟨other, shown⟩
  | broken _ _ failed _ => exact absurd failed.symm whole

/-- A prefix of a log that begins with a log holds the whole header. -/
theorem CommandLog.header_within {log other : CommandLog} {tail survived : List UInt8}
    (part : survived <+: log.encoding ++ tail) (begins : other.encoding <+: survived) :
    log.header.encoding.length ≤ survived.length := by
  have decoded : decodeLogHeader (log.encoding ++ tail) = .ok log.header := by
    refine decodeLogHeader_eq_ok.mpr ⟨log.headed,
      log.records.flatMap CommandRecord.encoding ++ tail, ?_⟩
    unfold CommandLog.encoding
    rw [List.append_assoc]
  obtain ⟨rest, layout⟩ := begins.trans part
  have same : decodeLogHeader (log.encoding ++ tail) = .ok other.header := by
    refine decodeLogHeader_eq_ok.mpr ⟨other.headed,
      other.records.flatMap CommandRecord.encoding ++ rest, ?_⟩
    rw [← layout]
    unfold CommandLog.encoding
    rw [List.append_assoc]
  rw [decoded, Except.ok.injEq] at same
  have fits := begins.length_le
  unfold CommandLog.encoding at fits
  rw [List.length_append, ← same] at fits
  omega

/-- A recovered session keeps the records that survived. -/
theorem LoggedEngine.Keeps.recover {session next : LoggedEngine} {log : CommandLog}
    {tail : List UInt8} {count : Nat} (keeps : session.Keeps log tail count)
    {survived : List UInt8} (part : survived <+: session.sink.file)
    (serves : source.Serves survived) {durability : Durability} {report : ReplayReport}
    {trades : Option (List Event)}
    (ran : LoggedEngine.recover checks source survived options durability calls =
      .ok (some next, report, trades)) :
    ∃ kept, kept ≤ log.records.length ∧ next.Keeps (log.upTo kept) [] kept := by
  unfold LoggedEngine.recover at ran
  split_ifs at ran with unusable
  · simp only [Run.error_bind, reduceCtorEq] at ran
  simp only [Run.pure_eq] at ran
  obtain ⟨recovered, replayed, ran⟩ := Run.bind_eq_ok.mp ran
  cases handed : recovered.engine with
  | none => simp [handed] at ran
  | some engine =>
    cases headed : recovered.report.header with
    | none => simp [handed, headed] at ran
    | some header =>
      simp only [handed, headed] at ran
      by_cases clean : recovered.report.tail = .clean
      swap
      · rw [if_neg clean] at ran
        cases ran
      by_cases same : survived.length = recovered.report.validEndOffset
      swap
      · rw [if_pos clean, if_neg same] at ran
        cases ran
      rw [if_pos clean, if_pos same] at ran
      simp only [Except.ok.injEq, Prod.mk.injEq, Option.some.injEq] at ran
      obtain ⟨opened, _, _⟩ := ran
      rw [keeps.bytes] at part
      obtain ⟨other, begins⟩ := replayLogSource_headed serves replayed handed
      obtain ⟨kept, rest, layout, torn, bound, _, _⟩ := log.cut keeps.torn
        (CommandLog.header_within part begins)
      rw [← List.prefix_iff_eq_take.mp part] at layout
      have valid : options.valid = true := by
        cases usable : options.valid with
        | true => rfl
        | false =>
          unfold replayLogSource at replayed
          rw [if_pos usable, Except.ok.injEq] at replayed
          rw [← replayed] at handed
          cases handed
      rw [layout] at serves
      obtain ⟨_, facts⟩ := replayLogSource_handsOut serves torn valid replayed handed
      have nothing := facts.ended.mp clean
      rw [nothing, List.append_nil] at layout
      have size : (log.upTo kept).records.length = kept := by
        show (log.records.take kept).length = kept
        rw [List.length_take, Nat.min_eq_left bound]
      have all : (log.upTo kept).commands.take kept = (log.upTo kept).commands := by
        apply List.take_of_length_le
        rw [CommandLog.commands, List.length_map, size]
      refine ⟨kept, bound, ?_⟩
      rw [← opened]
      refine ⟨?_, .inl rfl, CommandLog.upTo_logs keeps.logs kept, ?_, ?_, ?_⟩
      · rw [List.append_nil]
        exact layout
      · rw [all]
        exact facts.stands
      · rw [size]
        exact ⟨Nat.le_refl _, Nat.le_succ _⟩
      · intro _
        rw [size]
        exact ⟨rfl, rfl, facts.boundary⟩

end Recovery

/-- The sessions over one log file: one creates it; commands are submitted and the log is
synchronized under any behaviour of the sink; and at any time a session may end and another one
recover from what survived of the file. -/
inductive LoggedEngine.History (checks : Bool) (catalog : List InstrumentConfig)
    (config : MultiInstrumentEngineConfig) (logId : LogId) : LoggedEngine → Prop
  | created {session : LoggedEngine} (sink : LogSink) (durability : Durability)
      (ran : LoggedEngine.createNew sink catalog config logId durability = .ok (.ok session)) :
      History checks catalog config logId session
  | submitted {session next : LoggedEngine} (before : History checks catalog config logId session)
      (sink : LogSink) (command : Command) {result : LoggedSubmissionResult}
      (ran : session.submit checks sink command = .ok (next, result)) :
      History checks catalog config logId next
  | synchronized {session : LoggedEngine} (before : History checks catalog config logId session)
      (sink : LogSink) : History checks catalog config logId (session.synchronize sink).1
  | recovered {session next : LoggedEngine} (before : History checks catalog config logId session)
      {survived : List UInt8} (part : survived <+: session.sink.file) {source : LogSource}
      (serves : source.Serves survived) (options : ReplayOptions) (durability : Durability)
      (calls : Nat) {report : ReplayReport} {trades : Option (List Event)}
      (ran : LoggedEngine.recover checks source survived options durability calls =
        .ok (some next, report, trades)) :
      History checks catalog config logId next

namespace LoggedEngine

/-- Nothing is submitted to a poisoned session. -/
theorem submit_poisoned {session : LoggedEngine} (poisoned : session.poisoned = true)
    (checks : Bool) (sink : LogSink) (command : Command) :
    session.submit checks sink command = .ok (session,
      ⟨none, some (stateError session.sink.position .stateNotRecoverable), true⟩) := by
  unfold submit
  rw [if_pos poisoned]
  rfl

/-- Synchronizing keeps the log. -/
theorem Keeps.synchronize {session : LoggedEngine} {log : CommandLog} {tail : List UInt8}
    {count : Nat} (keeps : session.Keeps log tail count) (sink : LogSink) :
    (session.synchronize sink).1.Keeps log tail count := by
  unfold LoggedEngine.synchronize
  cases poisoned : session.poisoned with
  | true =>
    rw [if_pos rfl]
    exact keeps
  | false =>
    have untouched := flushAndSync_keeps sink session.sink
    rw [if_neg (by decide)]
    cases settling : flushAndSync sink session.sink with
    | mk settled failure =>
      rw [settling] at untouched
      cases failure with
      | some error =>
        refine ⟨untouched.1.trans keeps.bytes, keeps.torn, keeps.logs, keeps.stands, keeps.recent,
          ?_⟩
        intro opened
        cases opened
      | none =>
        refine ⟨untouched.1.trans keeps.bytes, keeps.torn, keeps.logs, keeps.stands, keeps.recent,
          ?_⟩
        intro _
        obtain ⟨whole, nothing, position⟩ := keeps.whole poisoned
        exact ⟨whole, nothing, untouched.2.trans position⟩

/-- Every session of a history keeps a log of the market of its catalog. -/
theorem History.keeps {checks : Bool} {catalog : List InstrumentConfig}
    {config : MultiInstrumentEngineConfig} {logId : LogId} {session : LoggedEngine}
    (history : History checks catalog config logId session) :
    ∃ initial, ∃ log : CommandLog, ∃ tail count,
      MultiInstrumentEngine.create catalog config = .ok initial ∧
      log.header.market = Market.opening catalog config ∧ session.Keeps log tail count := by
  induction history with
  | created sink durability ran =>
    obtain ⟨log, created, opens, keeps⟩ := createNew_keeps ran
    exact ⟨_, log, [], 0, created, opens, keeps⟩
  | @submitted session next before sink command result ran ih =>
    obtain ⟨initial, log, tail, count, created, opens, keeps⟩ := ih
    cases poisoned : session.poisoned with
    | true =>
      rw [submit_poisoned poisoned, Except.ok.injEq, Prod.mk.injEq] at ran
      obtain ⟨rfl, _⟩ := ran
      exact ⟨initial, log, tail, count, created, opens, keeps⟩
    | false =>
      obtain ⟨other, answer, submitted, outcome⟩ := keeps.submit poisoned checks sink command
      rw [submitted, Except.ok.injEq, Prod.mk.injEq] at ran
      obtain ⟨rfl, rfl⟩ := ran
      cases outcome with
      | failed unchanged _ =>
        rw [unchanged]
        exact ⟨initial, log, tail, count, created, opens, keeps⟩
      | @published _ _ _ longer _ header _ longerKeeps _ =>
        exact ⟨initial, longer, [], _, created, by rw [header, opens], longerKeeps⟩
      | @lost _ _ _ _ written rest _ _ header _ writtenKeeps _ _ =>
        exact ⟨initial, written, rest, _, created, by rw [header, opens], writtenKeeps⟩
  | synchronized before sink ih =>
    obtain ⟨initial, log, tail, count, created, opens, keeps⟩ := ih
    exact ⟨initial, log, tail, count, created, opens, keeps.synchronize sink⟩
  | recovered before part serves options durability calls ran ih =>
    obtain ⟨initial, log, tail, count, created, opens, keeps⟩ := ih
    obtain ⟨kept, _, next⟩ := keeps.recover part serves ran
    exact ⟨initial, log.upTo kept, [], kept, created, opens, next⟩

/-- Over a sink that takes everything an open session logs every command its market replies to. -/
theorem History.submits {checks : Bool} {catalog : List InstrumentConfig}
    {config : MultiInstrumentEngineConfig} {logId : LogId} {session : LoggedEngine}
    (history : History checks catalog config logId session) (opened : session.poisoned = false)
    {log : CommandLog} (keeps : session.Keeps log [] log.records.length) {sink : LogSink}
    (takes : sink.Takes) {commands : List Command}
    (replied : ∀ reply ∈ ((log.header.market.run log.commands).1.run commands).2,
      ∃ batch : EventBatch, reply = .ok batch.events) :
    ∃ next, ∃ longer : CommandLog, History checks catalog config logId next ∧
      next.poisoned = false ∧ longer.header = log.header ∧
      longer.commands = log.commands ++ commands ∧
      next.Keeps longer [] longer.records.length := by
  induction commands generalizing session log with
  | nil => exact ⟨session, log, history, opened, rfl, (List.append_nil _).symm, keeps⟩
  | cons command rest ih =>
    obtain ⟨next, result, ran, outcome⟩ := keeps.submit opened checks sink command
    have later : History checks catalog config logId next := .submitted history sink command ran
    cases outcome with
    | failed unchanged answered =>
      obtain ⟨batch, first⟩ := replied _ List.mem_cons_self
      rw [answered] at first
      cases first
    | lost refuses kept header records writtenKeeps unchanged closed => exact absurd takes refuses
    | @published batch record _ longer kept header records longerKeeps live =>
      have commanded : longer.commands = log.commands ++ [command] := by
        unfold CommandLog.commands
        rw [records, List.map_append, List.map_singleton, kept.facts.2.1]
      have reached : (longer.header.market.run longer.commands).1 =
          ((log.header.market.run log.commands).1.step command).1 := by
        rw [header, commanded, Market.run_append]
        rfl
      obtain ⟨last, longest, ended, still, same, all, lastKeeps⟩ :=
        ih later live longerKeeps fun reply inside => by
          rw [reached] at inside
          exact replied reply (List.mem_cons_of_mem _ inside)
      refine ⟨last, longest, ended, still, same.trans header, ?_, lastKeeps⟩
      rw [all, commanded, List.append_assoc, List.singleton_append]

/-- Write-ahead agreement. In every history of sessions over one log file the file holds a log with
at most a part of one more record behind it, and the engine has executed its commands, all of them
in an open session and at most the last one not in a poisoned one. Whatever is cut off behind the
header, replaying the rest leads to the engine after the commands whose records are complete, in
every mode; the whole file of an open session leads to its live engine. -/
theorem history_replays {checks : Bool} {catalog : List InstrumentConfig}
    {config : MultiInstrumentEngineConfig} {logId : LogId} {session : LoggedEngine}
    (history : History checks catalog config logId session) :
    ∃ initial, ∃ log : CommandLog, ∃ tail count results,
      MultiInstrumentEngine.create catalog config = .ok initial ∧
      session.sink.file = log.encoding ++ tail ∧ (tail = [] ∨ TornRecord tail) ∧
      initial.run checks (log.commands.take count) = .ok (session.engine, results) ∧
      log.records.length ≤ count + 1 ∧
      (session.poisoned = false → count = log.records.length ∧ tail = [] ∧
        session.sink.position = session.sink.file.length ∧
        ∀ source : LogSource, source.Serves session.sink.file → ∀ options : ReplayOptions,
          options.valid = true → options.collectTrades = false → ∀ calls,
          ∃ result, replayLogSource checks source options calls = .ok result ∧
            result.engine = some session.engine) ∧
      ∀ cut, log.header.encoding.length ≤ cut → ∃ kept engine results,
        kept ≤ log.records.length ∧ (log.upTo kept).encoding.length ≤ cut ∧
        (kept < log.records.length → cut < (log.upTo (kept + 1)).encoding.length) ∧
        initial.run checks (log.commands.take kept) = .ok (engine, results) ∧
        ∀ source : LogSource, source.Serves (session.sink.file.take cut) →
          ∀ options : ReplayOptions, options.valid = true → options.collectTrades = false →
          (options.tailPolicy = .validPrefix ∨
            (log.upTo kept).encoding.length = (session.sink.file.take cut).length) → ∀ calls,
          ∃ result, replayLogSource checks source options calls = .ok result ∧
            result.engine = some engine := by
  obtain ⟨initial, log, tail, count, created, opens, keeps⟩ := history.keeps
  have start := create_stands created
  rw [← opens] at start
  -- What a replay of the first records and a part of the next one hands out.
  have replays (kept : Nat) {engine : MultiInstrumentEngine} {rest : List UInt8}
      (stands : Stands engine (log.header.market.run (log.commands.take kept)).1 false none)
      (torn : rest = [] ∨ TornRecord rest) {source : LogSource}
      (serves : source.Serves ((log.upTo kept).encoding ++ rest)) {options : ReplayOptions}
      (valid : options.valid = true) (uncollected : options.collectTrades = false)
      (accepted : rest = [] ∨ options.tailPolicy = .validPrefix) (calls : Nat) :
      ∃ result, replayLogSource checks source options calls = .ok result ∧
        result.engine = some engine := by
    obtain ⟨result, replayed, decided⟩ :=
      @replayLogSource_accepted checks options _ _ _ serves torn valid accepted calls
    refine ⟨result, replayed, ?_⟩
    rcases decided with ⟨_, _, other, found, facts⟩ | ⟨unconfirmed, _⟩
    · have same : (log.upTo kept).commands = log.commands.take kept := List.map_take
      have after := facts.stands
      rw [same] at after
      rw [found, after.unique stands]
    · refine absurd ⟨(CommandLog.upTo_logs keeps.logs kept).confirms _, ?_⟩ unconfirmed
      intro asked
      rw [uncollected] at asked
      cases asked
  obtain ⟨engine, results, ran, after, _⟩ := start.run checks (log.commands.take count)
  have live : engine = session.engine := after.unique keeps.stands
  subst live
  refine ⟨initial, log, tail, count, results, created, keeps.bytes, keeps.torn, ran,
    keeps.recent.2, ?_, ?_⟩
  · intro opened
    obtain ⟨whole, nothing, position⟩ := keeps.whole opened
    have bytes : session.sink.file = log.encoding := by
      rw [keeps.bytes, nothing, List.append_nil]
    have all : (log.upTo count).encoding ++ [] = session.sink.file := by
      rw [List.append_nil, bytes, whole, log.upTo_all]
    refine ⟨whole, nothing, by rw [bytes, position], ?_⟩
    intro source serves options valid uncollected calls
    rw [← all] at serves
    exact replays count keeps.stands (.inl rfl) serves valid uncollected (.inl rfl) calls
  · intro cut headed
    obtain ⟨kept, rest, layout, torn, bound, reached, next⟩ := log.cut keeps.torn headed
    obtain ⟨cutEngine, cutResults, cutRan, cutAfter, _⟩ :=
      start.run checks (log.commands.take kept)
    refine ⟨kept, cutEngine, cutResults, bound, reached, next, cutRan, ?_⟩
    intro source serves options valid uncollected accepted calls
    rw [keeps.bytes, layout] at serves accepted
    refine replays kept cutAfter torn serves valid uncollected ?_ calls
    rcases accepted with prefixed | exact
    · exact .inr prefixed
    · left
      rw [List.length_append] at exact
      exact List.length_eq_zero_iff.mp (by omega)

/-- The sink that takes everything. -/
def steadySink : LogSink where
  write := fun _ bytes => ⟨bytes.length, none⟩
  flush := fun _ => none
  sync := fun _ => none

/-- It does. -/
theorem steadySink_takes : steadySink.Takes where
  write := fun _ _ remains => ⟨List.length_pos_iff.mpr remains, Nat.le_refl _, rfl⟩
  flush := fun _ => rfl
  sync := fun _ => rfl

/-- With it a session of one instrument is created. -/
theorem createNew_single : ∃ session, LoggedEngine.createNew steadySink [⟨1, ⟨100, 5, 3⟩⟩] ⟨2⟩
    singleHeader.logId .syncEachRecord = .ok (.ok session) ∧ session.poisoned = false := by
  have stands := create_stands session_created
  have made : makeLogHeader (Market.opening [⟨1, ⟨100, 5, 3⟩⟩] ⟨2⟩).snapshot.catalog
      (Market.opening [⟨1, ⟨100, 5, 3⟩⟩] ⟨2⟩).snapshot.engineConfig singleHeader.logId =
      .ok singleHeader := rfl
  have encoded := (encodeLogHeader_eq_ok (sortCatalog_of_valid singleHeader_valid.catalog)).mpr
    ⟨singleHeader_valid, rfl⟩
  have wrote := steadySink_takes.writeAll ⟨0, 0, []⟩ singleHeader.encoding
  unfold LoggedEngine.createNew
  rw [session_created, Run.ok_bind, stands.snapshot (by simp [Stands.Leases]), Run.ok_bind, made]
  simp only [encoded]
  cases written : writeAll steadySink ⟨0, 0, []⟩ singleHeader.encoding with
  | mk settled failure =>
    rw [written] at wrote
    obtain rfl := wrote
    have settles := steadySink_takes.applyDurability settled .syncEachRecord
    simp only
    cases durable : applyDurability steadySink settled .syncEachRecord with
    | mk last failure =>
      rw [durable] at settles
      obtain rfl := settles
      exact ⟨_, rfl, rfl⟩

/-- The session that has logged the first of the commands. -/
theorem session_logged (count : Nat) : ∃ session, ∃ log : CommandLog,
    History true [⟨1, ⟨100, 5, 3⟩⟩] ⟨2⟩ singleHeader.logId session ∧ session.poisoned = false ∧
      log.header.market = sessionMarket ∧ log.commands = sessionCommands.take count ∧
      session.Keeps log [] log.records.length := by
  obtain ⟨session, ran, opened⟩ := createNew_single
  obtain ⟨log, _, opens, keeps⟩ := createNew_keeps ran
  have none : log.records = [] := List.length_eq_zero_iff.mp (keeps.whole opened).1.symm
  have nothing : log.commands = [] := by
    rw [CommandLog.commands, none]
    rfl
  rw [(keeps.whole opened).1] at keeps
  have replied : ∀ reply ∈ ((log.header.market.run log.commands).1.run
      (sessionCommands.take count)).2, ∃ batch : EventBatch, reply = .ok batch.events := by
    intro reply inside
    apply session_replied
    rw [← List.take_append_drop count sessionCommands, Market.run_append]
    rw [opens, nothing] at inside
    exact List.mem_append_left _ inside
  have fresh : History true [⟨1, ⟨100, 5, 3⟩⟩] ⟨2⟩ singleHeader.logId session :=
    .created steadySink .syncEachRecord ran
  obtain ⟨next, longer, later, live, header, commands, longerKeeps⟩ :=
    fresh.submits opened keeps steadySink_takes replied
  rw [nothing, List.nil_append] at commands
  exact ⟨next, longer, later, live, header ▸ opens, commands, longerKeeps⟩

/-- The file of the session leads to its engine, and without its last byte to the engine before
the last command. -/
theorem history_replays_session : ∃ session, ∃ log : CommandLog, ∃ live cut engine,
    History true [⟨1, ⟨100, 5, 3⟩⟩] ⟨2⟩ singleHeader.logId session ∧
      log.commands = sessionCommands ∧ session.sink.file = log.encoding ∧
      replayLogSource true (steadySource session.sink.file) ⟨.verify, .strict, 1, false, 0⟩ 0 =
        .ok live ∧ live.engine = some session.engine ∧
      Stands session.engine (sessionMarket.run sessionCommands).1 false none ∧
      replayLogSource true (steadySource session.sink.file.dropLast)
        ⟨.verify, .validPrefix, 1, false, 0⟩ 0 = .ok cut ∧ cut.engine = some engine ∧
      Stands engine (sessionMarket.run (sessionCommands.take 4)).1 false none := by
  obtain ⟨session, log, history, opened, opens, commands, keeps⟩ := session_logged 5
  have all : log.commands = sessionCommands := commands
  have stands := keeps.stands_all opened
  rw [opens, all] at stands
  have file : session.sink.file = log.encoding := by
    rw [keeps.bytes, List.append_nil]
  have five : log.records.length = 5 := by
    have length := congrArg List.length all
    rw [CommandLog.commands, List.length_map] at length
    exact length
  obtain ⟨initial, other, tail, _, _, created, bytes, _, _, _, whole, cuts⟩ :=
    history_replays history
  obtain ⟨_, nothing, _, replays⟩ := whole opened
  have same : other = log := by
    apply CommandLog.encoding_injective
    rw [← file, bytes, nothing, List.append_nil]
  subst same
  obtain ⟨live, replayed, handed⟩ := replays _ (steadySource_serves _)
    ⟨.verify, .strict, 1, false, 0⟩ rfl rfl 0
  have longer := other.upTo_shorter (show 0 < 5 by decide) (Nat.le_of_eq five.symm)
  rw [← five, other.upTo_all] at longer
  have headed : (other.upTo 0).encoding.length = other.header.encoding.length :=
    congrArg List.length (List.append_nil other.header.encoding)
  obtain ⟨kept, engine, results, bound, reached, next, ran, recovers⟩ :=
    cuts (session.sink.file.length - 1) (by rw [file]; omega)
  rw [file] at reached next
  have last := CommandLog.cut_last (by omega) bound reached next
  obtain rfl : kept = 4 := by omega
  rw [← List.dropLast_eq_take] at recovers
  obtain ⟨cut, replayedCut, handedCut⟩ := recovers _ (steadySource_serves _)
    ⟨.verify, .validPrefix, 1, false, 0⟩ rfl rfl (.inl rfl) 0
  obtain ⟨after, _, again, afterStands, _⟩ :=
    (create_stands created).run true (other.commands.take 4)
  rw [ran, Except.ok.injEq, Prod.mk.injEq] at again
  obtain ⟨rfl, _⟩ := again
  rw [all] at afterStands
  exact ⟨session, other, live, cut, engine, history, all, file, replayed, handed, stands,
    replayedCut, handedCut, afterStands⟩

/-- A submission is atomic. In every history, a submission either has the outcome of executing the
command on the live engine, with exactly its record appended to the file, or it fails, leaves the
engine as it is and poisons the session. A submission to an open session does not fail if the sink
takes everything. A poisoned session submits and synchronizes nothing. -/
theorem history_submits {checks : Bool} {catalog : List InstrumentConfig}
    {config : MultiInstrumentEngineConfig} {logId : LogId} {session : LoggedEngine}
    (history : History checks catalog config logId session) (sink : LogSink) (command : Command) :
    ∃ next result, session.submit checks sink command = .ok (next, result) ∧
      ((result.error = none ∧ session.poisoned = false ∧ next.poisoned = false ∧
          ∃ executed written, session.engine.execute checks command = .ok (next.engine, executed) ∧
            result.engineResult = some executed ∧
            next.sink.file = session.sink.file ++ written ∧
            (∀ error, executed = .failure error → written = []) ∧
            ∀ batch, executed = .success batch → ∃ record,
              submissionRecord command batch = some record ∧
                encodeCommandRecord record = .ok written) ∨
        (result.error.isSome = true ∧ result.engineResult = none ∧ next.poisoned = true ∧
          next.engine = session.engine)) ∧
      (session.poisoned = false → sink.Takes → result.error = none) ∧
      (session.poisoned = true → next = session ∧ (session.synchronize sink).1 = session ∧
        (session.synchronize sink).2.isSome = true) := by
  obtain ⟨_, log, tail, count, _, _, keeps⟩ := history.keeps
  cases poisoned : session.poisoned with
  | true =>
    refine ⟨session, _, submit_poisoned poisoned checks sink command,
      .inr ⟨rfl, rfl, poisoned, rfl⟩, (by intro opened; cases opened), ?_⟩
    intro _
    unfold LoggedEngine.synchronize
    rw [if_pos poisoned]
    exact ⟨rfl, rfl, rfl⟩
  | false =>
    obtain ⟨next, result, submitted, outcome⟩ := keeps.submit poisoned checks sink command
    obtain ⟨ahead, executed, ran, after, replied⟩ :=
      (keeps.stands_all poisoned).execute checks command
    have taken : sink.Takes → result.error = none := by
      intro takes
      cases outcome with
      | failed unchanged answered => rfl
      | published kept header records longerKeeps live => rfl
      | lost refuses kept header records writtenKeeps unchanged closed => exact absurd takes refuses
    refine ⟨next, result, submitted, ?_, fun _ => taken, by intro closed; cases closed⟩
    cases outcome with
    | @failed error _ unchanged answered =>
      rw [answered] at after replied
      have same : ahead = session.engine := after.unique (keeps.stands_all poisoned)
      have because : executed = .failure error := by
        cases executed with
        | success batch => cases replied
        | failure other =>
          cases replied
          rfl
      subst because same unchanged
      refine .inl ⟨rfl, rfl, poisoned, _, [], ran, rfl, (List.append_nil _).symm, fun _ _ => rfl,
        ?_⟩
      intro batch other
      cases other
    | @published batch record _ longer kept header records longerKeeps live =>
      have because : executed = .success batch := by
        rw [kept.replied] at replied
        cases executed with
        | success other => rw [EventBatch.ext_events (Except.ok.inj replied)]
        | failure other => cases replied
      have ended : (longer.header.market.run longer.commands).1 =
          ((log.header.market.run log.commands).1.step command).1 := by
        unfold CommandLog.commands
        rw [header, records, List.map_append, Market.run_append, List.map_singleton,
          kept.facts.2.1]
        rfl
      have settled := longerKeeps.stands_all live
      rw [ended] at settled
      have file : next.sink.file = session.sink.file ++ record.encoding := by
        rw [longerKeeps.bytes, keeps.bytes, (keeps.whole poisoned).2.1]
        unfold CommandLog.encoding
        rw [header, records, List.flatMap_append, List.flatMap_singleton, List.append_nil,
          List.append_nil, List.append_assoc]
      rw [after.unique settled, because] at ran
      refine .inl ⟨rfl, rfl, live, _, record.encoding, ran, rfl, file, ?_, ?_⟩
      · intro error other
        cases other
      · intro other same
        cases same
        exact ⟨record, kept.recorded, encodeCommandRecord_eq_ok.mpr ⟨kept.facts.1, rfl⟩⟩
    | lost refuses kept header records writtenKeeps unchanged closed =>
      exact .inr ⟨rfl, rfl, closed, unchanged⟩

/-- The third command of the session trades, and its record is appended to the file. -/
theorem history_submits_session : ∃ session next result batch record,
    History true [⟨1, ⟨100, 5, 3⟩⟩] ⟨2⟩ singleHeader.logId session ∧ session.poisoned = false ∧
      session.submit true steadySink (.newOrder ⟨3, 3, 1, .buy, .limit, .gtc, some 15, 6⟩) =
        .ok (next, result) ∧
      result.error = none ∧ result.engineResult = some (.success batch) ∧
      batch.events = numberEvents 3 1 0 [.accepted .newOrder, .trade 3 1 3 1 .buy 15 4 2 0,
        .rested 3 3 .buy 15 2, .bookChanged (some ⟨15, 2⟩) (some ⟨20, 3⟩)] ∧
      record = recordOf (.newOrder ⟨3, 3, 1, .buy, .limit, .gtc, some 15, 6⟩) batch .committed
        .none ∧
      next.sink.file = session.sink.file ++ record.encoding := by
  obtain ⟨session, log, history, opened, opens, commands, keeps⟩ := session_logged 2
  have stands := keeps.stands_all opened
  rw [opens, commands] at stands
  obtain ⟨next, result, submitted, outcome, fine, _⟩ := history_submits history steadySink
    (.newOrder ⟨3, 3, 1, .buy, .limit, .gtc, some 15, 6⟩)
  have error := fine opened steadySink_takes
  rcases outcome with ⟨_, _, _, executed, written, ran, handed, file, _, logged⟩ | ⟨failed, _⟩
  swap
  · rw [error] at failed
    cases failed
  obtain ⟨_, again, ranAgain, _, replied⟩ := stands.execute true
    (.newOrder ⟨3, 3, 1, .buy, .limit, .gtc, some 15, 6⟩)
  rw [ran, Except.ok.injEq, Prod.mk.injEq] at ranAgain
  obtain ⟨_, rfl⟩ := ranAgain
  have reports : ((sessionMarket.run (sessionCommands.take 2)).1.step
      (.newOrder ⟨3, 3, 1, .buy, .limit, .gtc, some 15, 6⟩)).2 =
      .ok (numberEvents 3 1 0 [.accepted .newOrder, .trade 3 1 3 1 .buy 15 4 2 0,
        .rested 3 3 .buy 15 2, .bookChanged (some ⟨15, 2⟩) (some ⟨20, 3⟩)]) := by
    decide +kernel
  rw [reports] at replied
  cases executed with
  | failure other => cases replied
  | success batch =>
    have events := Except.ok.inj replied
    obtain ⟨record, recorded, encoded⟩ := logged batch rfl
    obtain ⟨_, bytes⟩ := encodeCommandRecord_eq_ok.mp encoded
    have accepted : batch.rejected = false := by
      rw [EventBatch.rejected, events]
      rfl
    rw [submissionRecord, accepted, if_neg (by decide), Option.some_inj] at recorded
    exact ⟨session, next, result, batch, record, history, opened, submitted, error, handed, events,
      recorded.symm, by rw [file, bytes]⟩

end LoggedEngine

end AtlasLob
