import AtlasLob.Spec.LoggedMarket
import AtlasLob.Verif.EventSourcing
import AtlasLob.Verif.LogGrammar
import AtlasLob.Verif.Sha256

/-!
# Replay of a log

A header that can be stored describes an engine that is always created. The visitor of a replay
keeps the engine on the market of the records it was given, until a record is not confirmed or
the trades pass their limit; from then on it only counts. So a replay hands out an engine only
for a log both passes saw, and it is the engine of the commands of that log.
-/

namespace AtlasLob

open Binary

section Opening

/-- An instrument that is not listed yet is added. -/
theorem addInstrument_fresh {books : List (InstrumentId × BookEntry)}
    {instrument : InstrumentConfig} (named : instrument.instrumentId ≠ 0)
    (usable : instrument.matching.valid = true)
    (absent : instrument.instrumentId ∉ SortedMap.keys books) :
    MultiInstrumentEngine.addInstrument books instrument =
      .ok (SortedMap.insert instrumentBefore instrument.instrumentId
        ⟨instrument, freshExecutor instrument⟩ books) := by
  rw [MultiInstrumentEngine.addInstrument, SortedMap.find?_eq_none.mpr absent]
  simp only [named, usable, create_bookEntry named usable, ↓reduceIte, Run.ok_bind, Run.pure_eq,
    Bool.not_true, Bool.false_eq_true, Option.isSome_none]

/-- The instruments of a stored catalog are added one after another. -/
theorem addInstruments_stored {catalog : List PersistedInstrumentConfig}
    {previous : InstrumentId} (valid : persistedCatalogFrom previous catalog = true)
    {books : List (InstrumentId × BookEntry)}
    (below : ∀ key ∈ SortedMap.keys books, key ≤ previous) :
    ∃ next, MultiInstrumentEngine.addInstruments books
      (catalog.map PersistedInstrumentConfig.config) = .ok next := by
  induction catalog generalizing previous books with
  | nil => exact ⟨books, rfl⟩
  | cons instrument rest ih =>
    unfold persistedCatalogFrom at valid
    split_ifs at valid with refused
    rw [not_or, not_or, not_or] at refused
    obtain ⟨named, above, sized, ticked⟩ := refused
    have usable : instrument.config.matching.valid = true := by
      have positive := Int64.not_le.mp ticked
      simp [MatchingEngineConfig.valid, PersistedInstrumentConfig.config, sized, positive]
    have absent : instrument.config.instrumentId ∉ SortedMap.keys books :=
      fun listed => above (below _ listed)
    have added := addInstrument_fresh named usable absent
    rw [List.map_cons, MultiInstrumentEngine.addInstruments, added, Run.ok_bind]
    apply ih valid
    intro key listed
    obtain ⟨entry, inside, rfl⟩ := List.mem_map.mp listed
    rcases SortedMap.mem_insert.mp inside with new | old
    · rw [new]
      exact UInt32.le_refl _
    · have earlier := below _ (List.mem_map_of_mem old)
      exact UInt32.le_trans earlier (UInt32.le_of_lt (UInt32.not_le.mp above))

/-- A header that can be stored describes the configuration of its market. -/
theorem LogHeader.Valid.hosted {header : LogHeader} (valid : header.Valid) :
    hostConfiguration header = .ok
      { engineConfig := ⟨header.engineConfig.maxTotalActiveOrders⟩
        catalog := header.catalog.map PersistedInstrumentConfig.config } := by
  rw [hostConfiguration, valid.catalog, if_neg (by decide)]

/-- A header that can be stored describes an engine, which stands for its market. -/
theorem LogHeader.Valid.creates {header : LogHeader} (valid : header.Valid) :
    ∃ engine, MultiInstrumentEngine.create
        (header.catalog.map PersistedInstrumentConfig.config)
        ⟨header.engineConfig.maxTotalActiveOrders⟩ = .ok engine ∧
      Stands engine header.market false none := by
  have listed := valid.catalog
  have bounded := valid.bounded
  unfold persistedCatalogValid at listed
  rw [Bool.and_eq_true, Bool.not_eq_true'] at listed
  obtain ⟨books, added⟩ := @addInstruments_stored _ _ listed.2 [] (by simp [SortedMap.keys])
  have some : (header.catalog.map PersistedInstrumentConfig.config).isEmpty = false := by
    rw [List.isEmpty_map]
    exact listed.1
  have few : ¬ 2 ^ 32 - 1 < (header.catalog.map PersistedInstrumentConfig.config).length := by
    rw [List.length_map]
    have limit : maxHeaderBytes < 2 ^ 32 := by decide
    omega
  have created : MultiInstrumentEngine.create
      (header.catalog.map PersistedInstrumentConfig.config)
      ⟨header.engineConfig.maxTotalActiveOrders⟩ =
        .ok ⟨⟨header.engineConfig.maxTotalActiveOrders⟩, books, ∅, ∅, .initial, false⟩ := by
    rw [MultiInstrumentEngine.create, some, if_neg few, added]
    rfl
  exact ⟨_, created, create_stands created⟩

end Opening

/-- The trades of a run. -/
def Market.trades (market : Market) (commands : List Command) : List Event :=
  ((market.run commands).2.flatMap replyEvents).filter Event.isTrade

/-- The trades of one more command. -/
theorem Market.trades_append (market : Market) (commands : List Command) (command : Command) :
    market.trades (commands ++ [command]) = market.trades commands ++
      (replyEvents ((market.run commands).1.step command).2).filter Event.isTrade := by
  unfold trades
  rw [run_append, List.flatMap_append, List.filter_append]
  simp only [run, List.flatMap_cons, List.flatMap_nil, List.append_nil]

section Visitor

variable {checks : Bool} {options : ReplayOptions} {startOffset : Nat}

/-- Trades are collected up to the limit, and past it there is an error. -/
theorem collectTrades_eq {limit : Nat} (frameBegin : Nat) {trades : List Event}
    (room : trades.length ≤ limit) (events : List Event) :
    if (trades ++ events.filter Event.isTrade).length ≤ limit then
      collectTrades limit frameBegin trades events =
        (trades ++ events.filter Event.isTrade, none)
    else (collectTrades limit frameBegin trades events).2.isSome = true := by
  induction events generalizing trades with
  | nil =>
    rw [List.filter_nil, List.append_nil, if_pos room]
    rfl
  | cons event rest ih =>
    cases traded : event.isTrade with
    | false =>
      rw [List.filter_cons_of_neg (by simp [traded]), collectTrades, traded]
      exact ih room
    | true =>
      rw [List.filter_cons_of_pos traded, collectTrades, traded, if_pos rfl]
      by_cases full : trades.length ≥ limit
      · rw [if_pos full, if_neg (by rw [List.length_append, List.length_cons]; omega)]
        rfl
      · have next := @ih (trades ++ [event]) (by
          rw [List.length_append, List.length_singleton]
          omega)
        rw [List.append_assoc, List.singleton_append] at next
        rw [if_neg full]
        exact next

/-- The evidence of an answer is the evidence its record carries. -/
theorem actual_of_record {command : Command} {batch : EventBatch} {record : CommandRecord}
    (recorded : submissionRecord command batch = some record) :
    ReplayEvidenceSummary.actual (.success batch) = .expected record := by
  unfold submissionRecord at recorded
  unfold ReplayEvidenceSummary.actual
  simp only [EngineResult.batch]
  split_ifs at recorded ⊢ with refused
  · cases because : batch.rejectionReason with
    | none =>
      rw [because] at recorded
      cases recorded
    | some reason =>
      rw [because] at recorded
      cases recorded
      rfl
  · cases recorded
    rfl

/-- Two records have no difference exactly when their evidence is the same. -/
theorem firstDifference_eq_none {left right : CommandRecord} :
    firstDifference (.expected left) (.expected right) = none ↔
      left.outcome = right.outcome ∧ left.rejectionReason = right.rejectionReason ∧
        left.eventCount = right.eventCount ∧ left.eventDigest = right.eventDigest := by
  simp only [firstDifference, ReplayEvidenceSummary.expected, reduceCtorEq, ↓reduceIte, ne_eq,
    Option.some.injEq]
  split_ifs <;> simp_all

/-- A result differs from its record exactly when the record is not confirmed. -/
theorem replayDifference_eq_none {market : Market} {record : CommandRecord}
    {result : EngineResult} (valid : record.Valid)
    (next : record.sequence = market.sequencer.nextSequence)
    (replied : result.reply = (market.step record.command).2) :
    replayDifference options record result = none ↔
      market.ConfirmsRecord options.mode record := by
  cases result with
  | failure error =>
    have failed : (market.step record.command).2 = .error error := replied.symm
    constructor
    · intro same
      cases same
    · rintro ⟨events, answered, _⟩
      rw [failed] at answered
      cases answered
  | success batch =>
    have answered : (market.step record.command).2 = .ok batch.events := replied.symm
    obtain ⟨logged, kept, loggedValid, commanded, sequenced⟩ := Market.records_of_reply answered
    have actual := actual_of_record kept.recorded
    unfold replayDifference
    rw [actual, if_neg (by simp [EngineResult.error, ReplayEvidenceSummary.expected])]
    by_cases fast : options.mode = .fast
    · rw [if_neg (by simp [fast])]
      exact ⟨fun _ => ⟨batch.events, answered, .inl fast⟩, fun _ => rfl⟩
    · rw [if_pos fast, firstDifference_eq_none]
      constructor
      · rintro ⟨outcome, reason, count, digest⟩
        have same : record = logged := by
          have version := valid.version.trans loggedValid.version.symm
          have sequence := next.trans sequenced.symm
          obtain ⟨_, _, _, _, _, _, _⟩ := record
          obtain ⟨_, _, _, _, _, _, _⟩ := logged
          simp only at version commanded sequence outcome reason count digest
          simp only [version, commanded, sequence, outcome, reason, count, digest]
        refine ⟨batch.events, answered, .inr ⟨batch, rfl, ?_⟩⟩
        rw [kept.recorded, ← same]
      · rintro ⟨events, again, confirmed⟩
        rcases confirmed with unchecked | ⟨other, same, recorded⟩
        · exact absurd unchecked fast
        · rw [answered, Except.ok.injEq] at again
          rw [EventBatch.ext_events (same.trans again.symm), kept.recorded,
            Option.some_inj] at recorded
          rw [recorded]
          exact ⟨rfl, rfl, rfl, rfl⟩

/-- Where a replay is after records of a market that it confirmed. -/
structure ReplayEvidence.Follows (options : ReplayOptions) (start : Market)
    (records : List CommandRecord) (evidence : ReplayEvidence) : Prop where
  /-- The engine stands for the market after the commands. -/
  stands : Stands evidence.engine (start.run (records.map CommandRecord.command)).1 false none
  /-- Nothing diverged. -/
  undiverged : evidence.divergence = none
  /-- Nothing failed. -/
  unfailed : evidence.error = none
  /-- The trades were collected if that was asked for. -/
  collected : evidence.trades = if options.collectTrades then
    some (start.trades (records.map CommandRecord.command)) else none
  /-- They are within their limit. -/
  bounded : options.collectTrades = true →
    (start.trades (records.map CommandRecord.command)).length ≤ options.maxRecoveredTrades
  /-- Every record was executed. -/
  replayed : evidence.recordsReplayed = records.length
  /-- The committed records were counted. -/
  committed : evidence.committed = records.countP (·.outcome = .committed)
  /-- The other records were counted. -/
  rejected : evidence.rejected = records.countP (¬ ·.outcome = .committed)

/-- A replay that has stopped executing. -/
def ReplayEvidence.Failed (evidence : ReplayEvidence) : Prop :=
  (evidence.divergence.isSome || evidence.error.isSome) = true

/-- The trades of a run stay within the limit of the options. -/
def ReplayOptions.Collects (options : ReplayOptions) (start : Market)
    (commands : List Command) : Prop :=
  options.collectTrades = true → (start.trades commands).length ≤ options.maxRecoveredTrades

/-- Counting a record leaves everything else. -/
theorem ReplayEvidence.count_eq (evidence : ReplayEvidence) (record : CommandRecord) :
    evidence.count record = { evidence with
      committed := evidence.committed + if record.outcome = .committed then 1 else 0
      rejected := evidence.rejected + if record.outcome = .committed then 0 else 1 } := by
  unfold count
  split_ifs <;> rfl

/-- A replay that has stopped only counts. -/
theorem onRecord_failed {evidence : ReplayEvidence} (failed : evidence.Failed)
    (record : CommandRecord) (frameBegin : Nat) :
    onRecord checks options startOffset evidence record frameBegin =
      .ok (evidence.count record) := by
  have still : ((evidence.count record).divergence.isSome ||
      (evidence.count record).error.isSome) = true := by
    rw [evidence.count_eq]
    exact failed
  unfold onRecord
  simp only [still, if_true]
  split_ifs <;> rfl

/-- A replay that has stopped stays so. -/
theorem replayVisits_failed {evidence : ReplayEvidence} (failed : evidence.Failed)
    (visits : List LogVisit) :
    ∃ next, replayVisits checks options startOffset evidence visits = .ok next ∧
      next.Failed ∧ next.engine = evidence.engine := by
  induction visits generalizing evidence with
  | nil => exact ⟨evidence, rfl, failed, rfl⟩
  | cons visit rest ih =>
    cases visit with
    | header header encoded => exact ih failed
    | record record encoded frameBegin frameEnd =>
      have counted : (evidence.count record).Failed := by
        rw [evidence.count_eq]
        exact failed
      obtain ⟨next, ran, stopped, kept⟩ := ih counted
      refine ⟨next, ?_, stopped, ?_⟩
      · rw [replayVisits, onRecord_failed failed, Run.ok_bind]
        exact ran
      · rw [kept, evidence.count_eq]

/-- A record behind the start is executed, and its audit passes. -/
theorem onRecord_executes {evidence : ReplayEvidence} {market : Market}
    (stands : Stands evidence.engine market false none) (undiverged : evidence.divergence = none)
    (unfailed : evidence.error = none) (record : CommandRecord) {frameBegin : Nat}
    (behind : startOffset ≤ frameBegin) :
    ∃ engine result, Stands engine (market.step record.command).1 false none ∧
      result.reply = (market.step record.command).2 ∧
      onRecord checks options startOffset evidence record frameBegin =
        .ok (ReplayEvidence.settle options
          { evidence.count record with
            engine := engine
            recordsReplayed := evidence.recordsReplayed + 1 } record result frameBegin
          (replayDifference options record result)) := by
  obtain ⟨engine, result, executed, after, replied⟩ := stands.execute checks record.command
  have audited := after.validateInvariants (by simp [Stands.Leases])
  refine ⟨engine, result, after, replied, ?_⟩
  unfold onRecord
  simp only [evidence.count_eq, if_neg (Nat.not_lt.mpr behind), undiverged, unfailed,
    Option.isSome_none, Bool.or_self, Bool.false_eq_true, if_false, executed, Run.ok_bind, audited]
  cases replayDifference options record result with
  | some category => rfl
  | none =>
    simp only [if_true]
    split_ifs <;> rfl

/-- The events of a result, as the visitor reads them. -/
theorem batch_events (result : EngineResult) :
    (result.batch.map EventBatch.events).getD [] = replyEvents result.reply := by
  cases result with
  | success batch => rfl
  | failure error => rfl

/-- What follows a confirmed record within the limit. -/
theorem ReplayEvidence.Follows.extend {start : Market} {records : List CommandRecord}
    {evidence later : ReplayEvidence} (follows : evidence.Follows options start records)
    {record : CommandRecord}
    (stands : Stands later.engine
      ((start.run (records.map CommandRecord.command)).1.step record.command).1 false none)
    (undiverged : later.divergence = none) (unfailed : later.error = none)
    (collected : later.trades = if options.collectTrades then
      some (start.trades ((records ++ [record]).map CommandRecord.command)) else none)
    (fits : options.Collects start ((records ++ [record]).map CommandRecord.command))
    (replayed : later.recordsReplayed = evidence.recordsReplayed + 1)
    (committed : later.committed = (evidence.count record).committed)
    (rejected : later.rejected = (evidence.count record).rejected) :
    later.Follows options start (records ++ [record]) where
  stands := by
    rw [List.map_append, Market.run_append]
    exact stands
  undiverged := undiverged
  unfailed := unfailed
  collected := collected
  bounded := fits
  replayed := by
    rw [replayed, follows.replayed, List.length_append]
    rfl
  committed := by
    rw [committed, evidence.count_eq, List.countP_append, List.countP_singleton,
      ← follows.committed]
    simp only [decide_eq_true_eq]
  rejected := by
    rw [rejected, evidence.count_eq, List.countP_append, List.countP_singleton,
      ← follows.rejected]
    by_cases kept : record.outcome = .committed
    · simp [kept]
    · simp [kept]

/-- One more record is followed exactly when it is confirmed within the limit. -/
theorem onRecord_follows {start : Market} {records : List CommandRecord}
    {evidence : ReplayEvidence} (follows : evidence.Follows options start records)
    {record : CommandRecord} (valid : record.Valid)
    (next : record.sequence =
      (start.run (records.map CommandRecord.command)).1.sequencer.nextSequence)
    {frameBegin : Nat} (behind : startOffset ≤ frameBegin) :
    ∃ later, onRecord checks options startOffset evidence record frameBegin = .ok later ∧
      ((((start.run (records.map CommandRecord.command)).1.ConfirmsRecord options.mode record ∧
          options.Collects start ((records ++ [record]).map CommandRecord.command)) ∧
        later.Follows options start (records ++ [record])) ∨
      (¬((start.run (records.map CommandRecord.command)).1.ConfirmsRecord options.mode record ∧
          options.Collects start ((records ++ [record]).map CommandRecord.command)) ∧
        later.Failed)) := by
  obtain ⟨engine, result, after, replied, ran⟩ :=
    @onRecord_executes checks options startOffset evidence _ follows.stands follows.undiverged
      follows.unfailed record frameBegin behind
  have decides := @replayDifference_eq_none options _ _ _ valid next replied
  have counted := evidence.count_eq record
  have undiverged : (evidence.count record).divergence = none := by
    rw [counted]
    exact follows.undiverged
  have unfailed : (evidence.count record).error = none := by
    rw [counted]
    exact follows.unfailed
  have before : (evidence.count record).trades = if options.collectTrades then
      some (start.trades (records.map CommandRecord.command)) else none := by
    rw [counted]
    exact follows.collected
  refine ⟨_, ran, ?_⟩
  cases difference : replayDifference options record result with
  | some category =>
    right
    refine ⟨?_, rfl⟩
    intro both
    rw [decides.mpr both.1] at difference
    cases difference
  | none =>
    have confirmed := decides.mp difference
    have grown : start.trades ((records ++ [record]).map CommandRecord.command) =
        start.trades (records.map CommandRecord.command) ++
          (replyEvents result.reply).filter Event.isTrade := by
      rw [List.map_append, List.map_singleton, Market.trades_append, replied]
    cases asked : options.collectTrades with
    | false =>
      have fits : options.Collects start ((records ++ [record]).map CommandRecord.command) := by
        intro collects
        rw [asked] at collects
        cases collects
      rw [asked, if_neg (by decide)] at before
      simp only [ReplayEvidence.settle, before]
      exact .inl ⟨⟨confirmed, fits⟩, follows.extend after undiverged unfailed
        (by rw [asked]; rfl) fits rfl rfl rfl⟩
    | true =>
      rw [asked, if_pos rfl] at before
      have collecting := collectTrades_eq frameBegin (follows.bounded asked)
        (replyEvents result.reply)
      rw [← grown] at collecting
      simp only [ReplayEvidence.settle, before, batch_events]
      by_cases fits : (start.trades ((records ++ [record]).map CommandRecord.command)).length ≤
          options.maxRecoveredTrades
      · rw [if_pos fits] at collecting
        rw [collecting]
        exact .inl ⟨⟨confirmed, fun _ => fits⟩, follows.extend after undiverged rfl
          (by rw [asked]; rfl) (fun _ => fits) rfl rfl rfl⟩
      · rw [if_neg fits] at collecting
        right
        refine ⟨fun both => fits (both.2 asked), ?_⟩
        unfold ReplayEvidence.Failed
        simp only [collecting, Bool.or_true]

/-- What the records before say about those of a longer list. -/
theorem Market.confirms_append {mode : ReplayMode} {market : Market}
    {records later : List CommandRecord} :
    market.Confirms mode (records ++ later) ↔ market.Confirms mode records ∧
      (market.run (records.map CommandRecord.command)).1.Confirms mode later := by
  induction records generalizing market with
  | nil => exact ⟨fun confirms => ⟨trivial, confirms⟩, fun both => both.2⟩
  | cons record rest ih =>
    show (_ ∧ Market.Confirms mode _ (rest ++ later)) ↔ (_ ∧ _) ∧ _
    rw [ih, and_assoc]
    rfl

/-- The records of a log are followed exactly when they are confirmed within the limit. -/
theorem replayVisits_follows {start : Market} {records : List CommandRecord}
    {evidence : ReplayEvidence} (follows : evidence.Follows options start records)
    (confirmed : start.Confirms options.mode records) {rest : List CommandRecord}
    (valid : ∀ record ∈ rest, record.Valid)
    (expects : (start.run (records.map CommandRecord.command)).1.Expects rest)
    {frameBegin : Nat} (behind : startOffset ≤ frameBegin) :
    ∃ later, replayVisits checks options startOffset evidence
        (CommandLog.recordVisits frameBegin rest) = .ok later ∧
      ((start.Confirms options.mode (records ++ rest) ∧
          options.Collects start ((records ++ rest).map CommandRecord.command) ∧
        later.Follows options start (records ++ rest)) ∨
      (¬(start.Confirms options.mode (records ++ rest) ∧
          options.Collects start ((records ++ rest).map CommandRecord.command)) ∧
        later.Failed)) := by
  induction rest generalizing records evidence frameBegin with
  | nil =>
    rw [List.append_nil]
    exact ⟨evidence, rfl, .inl ⟨confirmed, follows.bounded, follows⟩⟩
  | cons record rest ih =>
    obtain ⟨middle, ran, decided⟩ := @onRecord_follows checks options startOffset start records
      evidence follows record (valid record List.mem_cons_self) expects.head frameBegin behind
    have split : records ++ record :: rest = records ++ [record] ++ rest := by simp
    have one : start.Confirms options.mode (records ++ [record]) ↔
        (start.run (records.map CommandRecord.command)).1.ConfirmsRecord options.mode record := by
      rw [Market.confirms_append, and_iff_right confirmed]
      exact and_iff_left trivial
    rw [CommandLog.recordVisits, replayVisits, ran, Run.ok_bind, split]
    rcases decided with ⟨⟨answers, fits⟩, followed⟩ | ⟨refused, failed⟩
    · apply ih followed (one.mpr answers)
      · intro other inside
        exact valid other (List.mem_cons_of_mem record inside)
      · obtain ⟨events, replied, _⟩ := answers
        rw [List.map_append, Market.run_append]
        exact expects.tail replied
      · omega
    · obtain ⟨later, went, stopped, _⟩ := @replayVisits_failed checks options startOffset middle
        failed (CommandLog.recordVisits (frameBegin + record.encoding.length) rest)
      refine ⟨later, went, .inr ⟨?_, stopped⟩⟩
      rintro ⟨confirms, fits⟩
      apply refused
      refine ⟨one.mp (Market.confirms_append.mp confirms).1, ?_⟩
      intro asked
      have whole := fits asked
      rw [List.map_append, Market.trades, Market.run_append, List.flatMap_append,
        List.filter_append, List.length_append] at whole
      exact Nat.le_trans (Nat.le_add_right _ _) whole

/-- Settling a record keeps the engine. -/
theorem ReplayEvidence.settle_engine (evidence : ReplayEvidence) (record : CommandRecord)
    (result : EngineResult) (frameBegin : Nat) (difference : Option ReplayDivergenceCategory) :
    (evidence.settle options record result frameBegin difference).engine = evidence.engine := by
  unfold settle
  cases difference with
  | some category => rfl
  | none => cases evidence.trades <;> rfl

/-- A replay of any visits ends with an engine that stands for a market. -/
theorem replayVisits_stands {evidence : ReplayEvidence} {market : Market}
    (stands : Stands evidence.engine market false none) (visits : List LogVisit) :
    ∃ next after, replayVisits checks options startOffset evidence visits = .ok next ∧
      Stands next.engine after false none := by
  induction visits generalizing evidence market with
  | nil => exact ⟨evidence, market, rfl, stands⟩
  | cons visit rest ih =>
    cases visit with
    | header header encoded => exact ih stands
    | record record encoded frameBegin frameEnd =>
      have counted : Stands (evidence.count record).engine market false none := by
        rw [evidence.count_eq]
        exact stands
      by_cases failed : evidence.Failed
      · rw [replayVisits, onRecord_failed failed, Run.ok_bind]
        exact ih counted
      by_cases behind : startOffset ≤ frameBegin
      · rw [ReplayEvidence.Failed, Bool.not_eq_true, Bool.or_eq_false_iff,
          Option.isSome_eq_false_iff, Option.isSome_eq_false_iff, Option.isNone_iff_eq_none,
          Option.isNone_iff_eq_none] at failed
        obtain ⟨engine, result, after, _, ran⟩ := @onRecord_executes checks options startOffset
          evidence market stands failed.1 failed.2 record frameBegin behind
        rw [replayVisits, ran, Run.ok_bind]
        apply @ih _ (market.step record.command).1
        rw [ReplayEvidence.settle_engine]
        exact after
      · have skipped : onRecord checks options startOffset evidence record frameBegin =
            .ok (evidence.count record) := by
          unfold onRecord
          rw [if_pos (Nat.not_le.mp behind)]
          rfl
        rw [replayVisits, skipped, Run.ok_bind]
        exact ih counted

end Visitor

section Publication

variable {checks : Bool} {options : ReplayOptions}

/-- A scan accepted a log: clean, or before a torn record if the policy asks for the prefix. -/
inductive Accepts (policy : TailPolicy) (log : CommandLog) : LogScanResult → Prop
  | clean : Accepts policy log log.cleanScan
  | torn (extent : Nat) (short : log.encoding.length < extent)
      (prefixed : policy = .validPrefix) : Accepts policy log (log.tornScan extent)

/-- The count of bytes does not change how bytes are absorbed. -/
theorem Sha256.foldl_push_total (hash : Sha256) (total : UInt64) (input : List UInt8) :
    input.foldl push { hash with totalBytes := total } =
      { input.foldl push hash with totalBytes := total } := by
  induction input generalizing hash with
  | nil => rfl
  | cons byte rest ih =>
    have one : push { hash with totalBytes := total } byte =
        { push hash byte with totalBytes := total } := by
      unfold push
      simp only
      split_ifs <;> rfl
    rw [List.foldl_cons, List.foldl_cons, one]
    exact ih (push hash byte)

/-- Absorbing two parts is absorbing them one after the other. -/
theorem Sha256.update_append (hash : Sha256) (front back : List UInt8) :
    hash.update (front ++ back) = (hash.update front).update back := by
  have counted : hash.totalBytes + UInt64.ofNat (front ++ back).length =
      hash.totalBytes + UInt64.ofNat front.length + UInt64.ofNat back.length := by
    rw [List.length_append, UInt64.ofNat_add, UInt64.add_assoc]
  unfold update
  rw [List.foldl_append, counted,
    foldl_push_total hash (hash.totalBytes + UInt64.ofNat front.length) front,
    foldl_push_total hash (_ + _) front]

/-- The digest a scan reports is that of the bytes of its log. -/
theorem CommandLog.hash_finish (log : CommandLog) : log.hash.finish = sha256 log.encoding := by
  have streamed : ∀ (records : List CommandRecord) (hash : Sha256),
      records.foldl (fun hash record => hash.update record.encoding) hash =
        hash.update (records.flatMap CommandRecord.encoding) := by
    intro records
    induction records with
    | nil =>
      intro hash
      have nothing : hash.totalBytes + UInt64.ofNat ([] : List UInt8).length = hash.totalBytes :=
        UInt64.add_zero hash.totalBytes
      rw [List.flatMap_nil, Sha256.update, nothing]
      rfl
    | cons record rest ih =>
      intro hash
      rw [List.foldl_cons, ih, List.flatMap_cons, Sha256.update_append]
  unfold sha256 hash encoding
  rw [streamed, ← Sha256.update_append]

/-- The visits of a log tell its records. -/
theorem CommandLog.recordVisits_injective {first second : List CommandRecord} {offset : Nat}
    (same : recordVisits offset first = recordVisits offset second) : first = second := by
  induction first generalizing second offset with
  | nil =>
    cases second with
    | nil => rfl
    | cons record rest => cases same
  | cons record rest ih =>
    cases second with
    | nil => cases same
    | cons other others =>
      rw [recordVisits, recordVisits] at same
      obtain ⟨head, tail⟩ := List.cons.inj same
      obtain ⟨rfl, _, _, _⟩ := LogVisit.record.inj head
      rw [ih tail]

/-- A log is determined by its bytes. -/
theorem CommandLog.encoding_injective {first second : CommandLog}
    (same : first.encoding = second.encoding) : first = second := by
  have valid : replayScanOptions.valid = true := rfl
  have left := scanCommandLog_clean first (steadySource_serves first.encoding) valid 0
  have right := scanCommandLog_clean second (steadySource_serves second.encoding) valid 0
  rw [← same] at right
  have visits := left.2.symm.trans right.2
  obtain ⟨header, records⟩ := List.cons.inj visits
  obtain ⟨header, _⟩ := LogVisit.header.inj header
  rw [header] at records
  exact eq_of_parts header (recordVisits_injective records)

/-- The first evidence of a replay follows no records. -/
theorem ReplayEvidence.Follows.start {engine : MultiInstrumentEngine} {market : Market}
    (stands : Stands engine market false none) :
    ReplayEvidence.Follows options market []
      ⟨engine, 0, 0, 0, none, none, if options.collectTrades then some [] else none⟩ :=
  ⟨stands, rfl, rfl, rfl, fun _ => Nat.zero_le _, rfl, rfl, rfl⟩

/-- A pass over a log follows it exactly when its records are confirmed within the limit. -/
theorem executeReplayPass_follows {source : LogSource} {engine : MultiInstrumentEngine}
    {header : LogHeader} (stands : Stands engine header.market false none) {log : CommandLog}
    {calls startOffset : Nat}
    (seen : (scanCommandLog source replayScanOptions calls).2.visits = log.visits)
    (behind : startOffset ≤ log.header.encoding.length) :
    ∃ evidence, executeReplayPass checks source engine options startOffset calls =
        .ok ⟨(scanCommandLog source replayScanOptions calls).1, evidence⟩ ∧
      ((header.market.Confirms options.mode log.records ∧
          options.Collects header.market log.commands ∧
        evidence.Follows options header.market log.records) ∨
      (¬(header.market.Confirms options.mode log.records ∧
          options.Collects header.market log.commands) ∧ evidence.Failed)) := by
  obtain ⟨evidence, ran, decided⟩ := @replayVisits_follows checks options startOffset
    header.market [] _ (.start stands) trivial log.records log.logged (log.expected header)
    log.header.encoding.length behind
  refine ⟨evidence, ?_, decided⟩
  unfold executeReplayPass
  simp only [seen, CommandLog.visits, replayVisits, ran, Run.ok_bind]
  rfl

/-- A pass over any source ends with an engine that stands for a market. -/
theorem executeReplayPass_stands (source : LogSource) {engine : MultiInstrumentEngine}
    {market : Market} (stands : Stands engine market false none) (startOffset calls : Nat) :
    ∃ evidence, executeReplayPass checks source engine options startOffset calls =
        .ok ⟨(scanCommandLog source replayScanOptions calls).1, evidence⟩ := by
  obtain ⟨evidence, _, ran, _⟩ := @replayVisits_stands checks options startOffset
    ⟨engine, 0, 0, 0, none, none, if options.collectTrades then some [] else none⟩ market stands
    (scanCommandLog source replayScanOptions calls).2.visits
  refine ⟨evidence, ?_⟩
  unfold executeReplayPass
  simp only [ran, Run.ok_bind]
  rfl

/-- A pass over another source is not published. -/
theorem publishReplay_differs {report : ReplayReport} {first : LogScanResult}
    {pass : ReplayPassResult} (differs : sameSource first pass.scan = false) :
    ∃ refused, publishReplay report first pass = .ok (.refused refused) := by
  unfold publishReplay
  rw [if_pos differs]
  exact ⟨_, rfl⟩

/-- A pass that failed is not published. -/
theorem publishReplay_failed {report : ReplayReport} {first : LogScanResult}
    {pass : ReplayPassResult} (failed : pass.evidence.Failed) :
    ∃ refused, publishReplay report first pass = .ok (.refused refused) := by
  unfold publishReplay
  by_cases differs : sameSource first pass.scan = false
  · exact ⟨_, if_pos differs⟩
  rw [if_neg differs]
  by_cases broken : pass.scan.termination = .ioFailure ∨ pass.scan.termination = .corruption
  · exact ⟨_, if_pos broken⟩
  rw [if_neg broken]
  by_cases error : (report.withEvidence pass.evidence).error.isSome = true
  · exact ⟨_, if_pos error⟩
  have diverged : (report.withEvidence pass.evidence).divergence.isSome = true := by
    have both : (_ || _) = true := failed
    rw [Bool.or_eq_true] at both
    exact both.resolve_right error
  simp only [error, diverged, if_true]
  exact ⟨_, rfl⟩

/-- A pass that followed the same source is published. -/
theorem publishReplay_follows {report : ReplayReport} {first : LogScanResult}
    {pass : ReplayPassResult} {market : Market} {records : List CommandRecord}
    (same : sameSource first pass.scan = true)
    (whole : ¬(pass.scan.termination = .ioFailure ∨ pass.scan.termination = .corruption))
    (follows : pass.evidence.Follows options market records) :
    publishReplay report first pass = .ok ⟨some pass.evidence.engine,
      { report.withEvidence pass.evidence with
        finalStateDigest := some (stateDigest
          (market.run (records.map CommandRecord.command)).1.snapshot) },
      pass.evidence.trades⟩ := by
  have audited := follows.stands.validateInvariants (by simp [Stands.Leases])
  have seen := follows.stands.snapshot (by simp [Stands.Leases])
  unfold publishReplay
  simp only [same, whole, ReplayReport.withEvidence, follows.unfailed, follows.undiverged,
    Option.isSome_none, audited, seen, Run.ok_bind, Bool.true_eq_false, Bool.false_eq_true,
    Bool.not_true, if_false]
  rfl

/-- The report of an accepted scan, before it is replayed. -/
def ReplayReport.accepted (options : ReplayOptions) (scan : LogScanResult) : ReplayReport :=
  { ReplayReport.ofScan options scan with
    usedValidPrefix := decide (scan.termination = .truncatedTail)
    warning := if scan.termination = .truncatedTail then scan.error else none }

/-- After an accepted scan the log is executed on the engine of its header. -/
theorem replayValidatedLogSource_accepts (valid : options.valid = true) (source : LogSource)
    {log : CommandLog} {first : LogScanResult} (accepts : Accepts options.tailPolicy log first)
    {engine : MultiInstrumentEngine}
    (created : MultiInstrumentEngine.create
      (log.header.catalog.map PersistedInstrumentConfig.config)
      ⟨log.header.engineConfig.maxTotalActiveOrders⟩ = .ok engine) (calls : Nat) :
    replayValidatedLogSource checks source first options calls =
      executeReplayPass checks source engine options log.header.encoding.length calls >>=
        publishReplay (.accepted options first) first := by
  cases accepts with
  | clean =>
    have clean : log.cleanScan.termination = .cleanEof := rfl
    have headed : log.cleanScan.header = some log.header := rfl
    unfold replayValidatedLogSource ReplayReport.accepted
    simp only [valid, clean, headed, log.headed.hosted, created, Run.ok_bind, reduceCtorEq,
      or_self, false_and, decide_false, Bool.false_and, Bool.true_eq_false, Bool.false_eq_true,
      if_false]
    rfl
  | torn extent short prefixed =>
    have torn : (log.tornScan extent).termination = .truncatedTail := rfl
    have headed : (log.tornScan extent).header = some log.header := rfl
    unfold replayValidatedLogSource ReplayReport.accepted
    simp only [valid, torn, headed, prefixed, log.headed.hosted, created, Run.ok_bind,
      reduceCtorEq, or_self, and_false, decide_true, Bool.true_and, Bool.true_eq_false, if_true,
      if_false]
    rfl

/-- A scan that is not accepted is not replayed. -/
theorem replayValidatedLogSource_refuses (source : LogSource) {first : LogScanResult}
    (refused : (first.termination = .ioFailure ∨ first.termination = .corruption) ∨
      (first.termination = .truncatedTail ∧ options.tailPolicy = .strict)) (calls : Nat) :
    ∃ report, replayValidatedLogSource checks source first options calls =
      .ok (.refused report) := by
  unfold replayValidatedLogSource
  by_cases invalid : options.valid = false
  · exact ⟨_, if_pos invalid⟩
  rw [if_neg invalid]
  by_cases broken : first.termination = .ioFailure ∨ first.termination = .corruption
  · exact ⟨_, if_pos broken⟩
  · exact ⟨_, (if_neg broken).trans (if_pos (refused.resolve_left broken))⟩

/-- Only an accepted scan is replayed. -/
theorem scanCommandLog_accepts (source : LogSource) (calls : Nat) :
    (∃ log, Accepts options.tailPolicy log (scanCommandLog source replayScanOptions calls).1) ∨
      ∃ report, replayValidatedLogSource checks source
        (scanCommandLog source replayScanOptions calls).1 options
        (scanCommandLog source replayScanOptions calls).2.calls = .ok (.refused report) := by
  have ends := scanCommandLog_ends source.shows_trivial
    (show replayScanOptions.valid = true from rfl) calls
  generalize (scanCommandLog source replayScanOptions calls).2.visits = visits at ends
  generalize (scanCommandLog source replayScanOptions calls).2.calls = later
  generalize (scanCommandLog source replayScanOptions calls).1 = first at ends
  cases ends with
  | clean log _ _ => exact .inl ⟨log, .clean⟩
  | torn log extent _ _ short =>
    cases policy : options.tailPolicy with
    | strict =>
      exact .inr (replayValidatedLogSource_refuses source (.inr ⟨rfl, policy⟩) later)
    | validPrefix => exact .inl ⟨log, .torn extent short rfl⟩
  | broken _ _ failed _ =>
    exact .inr (replayValidatedLogSource_refuses source (.inl failed.symm) later)

/-- What a replay that hands out an engine has seen and done: two scans accepted logs that agree
in extent, boundaries, number of records and digest, the records of the second one were confirmed
on the market of the first header, and the engine and its trades are those of the commands. -/
structure Recovers (checks : Bool) (source : LogSource) (options : ReplayOptions) (calls : Nat)
    (log again : CommandLog) (result : ReplayResult) (engine : MultiInstrumentEngine) : Prop where
  /-- The first scan. -/
  scanned : Accepts options.tailPolicy log (scanCommandLog source replayScanOptions calls).1
  /-- The second scan. -/
  rescanned : Accepts options.tailPolicy again (scanCommandLog source replayScanOptions
    (scanCommandLog source replayScanOptions calls).2.calls).1
  /-- The extents the scans were told. -/
  extent : (scanCommandLog source replayScanOptions
    (scanCommandLog source replayScanOptions calls).2.calls).1.sourceExtent =
      (scanCommandLog source replayScanOptions calls).1.sourceExtent
  /-- The ends of the headers. -/
  headers : again.header.encoding.length = log.header.encoding.length
  /-- The ends of the logs. -/
  boundary : again.encoding.length = log.encoding.length
  /-- The numbers of records. -/
  counted : again.records.length = log.records.length
  /-- The digests of the logs. -/
  digests : sha256 again.encoding = sha256 log.encoding
  /-- The records were confirmed. -/
  confirmed : log.header.market.Confirms options.mode again.records
  /-- The engine is the one of the commands. -/
  executed : ∃ initial results, MultiInstrumentEngine.create
      (log.header.catalog.map PersistedInstrumentConfig.config)
      ⟨log.header.engineConfig.maxTotalActiveOrders⟩ = .ok initial ∧
    initial.run checks again.commands = .ok (engine, results) ∧
    result.recoveredTrades = if options.collectTrades then
      some ((results.flatMap EngineResult.events).filter Event.isTrade) else none
  /-- The engine is handed out with a report of the whole log. -/
  published : result.engine = some engine ∧ result.report.divergence = none ∧
    result.report.error = none ∧ result.report.recordsReplayed = again.records.length

/-- What an accepted scan reports of its log. -/
theorem Accepts.reports {policy : TailPolicy} {log : CommandLog} {scan : LogScanResult}
    (accepts : Accepts policy log scan) :
    scan.headerEndOffset = log.header.encoding.length ∧
      scan.validEndOffset = log.encoding.length ∧ scan.recordCount = log.records.length ∧
      scan.validPrefixDigest = some (sha256 log.encoding) ∧
      ¬(scan.termination = .ioFailure ∨ scan.termination = .corruption) := by
  cases accepts with
  | clean =>
    refine ⟨rfl, rfl, rfl, ?_, by simp [CommandLog.cleanScan]⟩
    rw [← log.hash_finish]
    rfl
  | torn extent short prefixed =>
    refine ⟨rfl, rfl, rfl, ?_, by simp [CommandLog.tornScan]⟩
    rw [← log.hash_finish]
    rfl

/-- A scan of the same source as an accepted one is accepted. -/
theorem Accepts.same {policy : TailPolicy} {log : CommandLog} {first second : LogScanResult}
    {visits : List LogVisit} (accepts : Accepts policy log first)
    (ends : ScanEnds (fun _ => True) (fun _ _ => True) second visits)
    (same : sameSource first second = true) :
    ∃ again : CommandLog, Accepts policy again second ∧ visits = again.visits ∧
      again.header.encoding.length = log.header.encoding.length ∧
      again.encoding.length = log.encoding.length ∧ again.records.length = log.records.length ∧
      sha256 again.encoding = sha256 log.encoding := by
  have reports := accepts.reports
  simp only [sameSource, Bool.and_eq_true, decide_eq_true_eq] at same
  obtain ⟨⟨⟨⟨⟨⟨⟨⟨⟨_, identified⟩, _⟩, headers⟩, boundary⟩, counted⟩, _⟩, _⟩, termination⟩,
    digests⟩ := same
  have agrees {again : CommandLog} (accepted : Accepts policy again second) :
      again.header.encoding.length = log.header.encoding.length ∧
        again.encoding.length = log.encoding.length ∧
        again.records.length = log.records.length ∧
        sha256 again.encoding = sha256 log.encoding := by
    have others := accepted.reports
    rw [← others.1, ← others.2.1, ← others.2.2.1, ← reports.1, ← reports.2.1, ← reports.2.2.1]
    refine ⟨headers, boundary, counted, ?_⟩
    rw [others.2.2.2.1, reports.2.2.2.1, Option.some_inj] at digests
    exact digests
  cases ends with
  | clean again known shown =>
    exact ⟨again, .clean, rfl, agrees .clean⟩
  | torn again extent known shown short =>
    cases accepts with
    | clean => cases termination
    | torn _ _ prefixed =>
      have accepted : Accepts policy again (again.tornScan extent) := .torn extent short prefixed
      exact ⟨again, accepted, rfl, agrees accepted⟩
  | broken _ _ failed unidentified =>
    rw [unidentified] at identified
    cases identified

/-- What a replay hands out after an accepted scan: nothing, or the engine of the records of a
second scan of the same source, all of them confirmed. -/
theorem executeReplayPass_publishes (source : LogSource) {log : CommandLog}
    {first : LogScanResult} (accepts : Accepts options.tailPolicy log first)
    {initial : MultiInstrumentEngine} (stands : Stands initial log.header.market false none)
    (calls : Nat) :
    ∃ result, (executeReplayPass checks source initial options log.header.encoding.length calls >>=
        publishReplay (.accepted options first) first) = .ok result ∧
      ((result.engine = none ∧ result.recoveredTrades = none) ∨
      ∃ again evidence, sameSource first (scanCommandLog source replayScanOptions calls).1 = true ∧
        Accepts options.tailPolicy again (scanCommandLog source replayScanOptions calls).1 ∧
        log.header.market.Confirms options.mode again.records ∧
        ReplayEvidence.Follows options log.header.market again.records evidence ∧
        result = ⟨some evidence.engine,
          { (ReplayReport.accepted options first).withEvidence evidence with
            finalStateDigest := some (stateDigest
              (log.header.market.run again.commands).1.snapshot) },
          evidence.trades⟩) := by
  have ends := scanCommandLog_ends source.shows_trivial
    (show replayScanOptions.valid = true from rfl) calls
  cases same : sameSource first (scanCommandLog source replayScanOptions calls).1 with
  | false =>
    obtain ⟨evidence, passed⟩ := @executeReplayPass_stands checks options source initial
      log.header.market stands log.header.encoding.length calls
    obtain ⟨report, refused⟩ := @publishReplay_differs (.accepted options first) first
      ⟨(scanCommandLog source replayScanOptions calls).1, evidence⟩ same
    rw [passed, Run.ok_bind, refused]
    exact ⟨_, rfl, .inl ⟨rfl, rfl⟩⟩
  | true =>
    obtain ⟨again, rescanned, seen, headers, _⟩ := accepts.same ends same
    obtain ⟨evidence, passed, decided⟩ := @executeReplayPass_follows checks options source initial
      log.header stands again calls log.header.encoding.length seen (Nat.le_of_eq headers.symm)
    rw [passed, Run.ok_bind]
    rcases decided with ⟨confirmed, _, follows⟩ | ⟨_, failed⟩
    · rw [@publishReplay_follows options (.accepted options first) first
        ⟨(scanCommandLog source replayScanOptions calls).1, evidence⟩ _ _ same
        rescanned.reports.2.2.2.2 follows]
      exact ⟨_, rfl, .inr ⟨again, evidence, rfl, rescanned, confirmed, follows, rfl⟩⟩
    · obtain ⟨report, refused⟩ := @publishReplay_failed (.accepted options first) first
        ⟨(scanCommandLog source replayScanOptions calls).1, evidence⟩ failed
      rw [refused]
      exact ⟨_, rfl, .inl ⟨rfl, rfl⟩⟩

/-- The trades of results are those of the replies. -/
theorem trades_of_results {market : Market} {commands : List Command}
    {results : List EngineResult}
    (replies : results.map EngineResult.reply = (market.run commands).2) :
    (results.flatMap EngineResult.events).filter Event.isTrade = market.trades commands := by
  unfold Market.trades
  rw [← replies, List.flatMap_map]
  have same : EngineResult.events = fun result => replyEvents result.reply :=
    funext events_eq_replyEvents
  rw [same]

/-- A replay publishes only what both of its passes saw. Whatever the source answers, a replay
returns, and hands out either nothing, or the engine of the commands of the log of its second pass
and their trades. That log agrees with the log of the first pass in its extent, its boundaries,
its number of records and its digest, so that the two are one unless they collide, and in the
modes that compare every record is the record of what the engine replied. -/
theorem replayLogSource_publishes (checks : Bool) (source : LogSource) (options : ReplayOptions)
    (calls : Nat) :
    ∃ result, replayLogSource checks source options calls = .ok result ∧
      ((result.engine = none ∧ result.recoveredTrades = none) ∨
      ∃ log again engine, Recovers checks source options calls log again result engine ∧
        (options.mode ≠ .fast → log.header.market.Logs again.records
          (log.header.market.run again.commands).1) ∧
        ((sha256 again.encoding = sha256 log.encoding → again.encoding = log.encoding) →
          again = log)) := by
  unfold replayLogSource
  by_cases invalid : options.valid = false
  · exact ⟨_, if_pos invalid, .inl ⟨rfl, rfl⟩⟩
  have valid : options.valid = true := Bool.not_eq_false _ ▸ invalid
  rw [if_neg invalid]
  simp only
  have accepted := @scanCommandLog_accepts checks options source calls
  rcases accepted with ⟨log, accepts⟩ | ⟨report, refused⟩
  swap
  · exact ⟨_, refused, .inl ⟨rfl, rfl⟩⟩
  obtain ⟨initial, created, stands⟩ := log.headed.creates
  rw [replayValidatedLogSource_accepts valid source accepts created]
  obtain ⟨result, published, decided⟩ := @executeReplayPass_publishes checks options source log
    (scanCommandLog source replayScanOptions calls).1 accepts initial stands
    (scanCommandLog source replayScanOptions calls).2.calls
  refine ⟨result, published, decided.imp_right ?_⟩
  rintro ⟨again, evidence, same, rescanned, confirmed, follows, rfl⟩
  obtain ⟨engine, results, ran, after, replies⟩ := stands.run checks again.commands
  have live : evidence.engine = engine := follows.stands.unique after
  have first := accepts.reports
  have second := rescanned.reports
  simp only [sameSource, Bool.and_eq_true, decide_eq_true_eq] at same
  obtain ⟨⟨⟨⟨⟨⟨⟨⟨_, extent⟩, headers⟩, boundary⟩, counted⟩, _⟩, _⟩, _⟩, digests⟩ := same
  rw [first.1, second.1] at headers
  rw [first.2.1, second.2.1] at boundary
  rw [first.2.2.1, second.2.2.1] at counted
  rw [first.2.2.2.1, second.2.2.2.1, Option.some_inj] at digests
  refine ⟨log, again, engine, ?_, ?_, ?_⟩
  · exact
      { scanned := accepts
        rescanned := rescanned
        extent := extent
        headers := headers
        boundary := boundary
        counted := counted
        digests := digests
        confirmed := confirmed
        executed := ⟨initial, results, created, ran, by
          rw [trades_of_results replies]
          exact follows.collected⟩
        published := ⟨congrArg some live, follows.undiverged, follows.unfailed,
          follows.replayed⟩ }
  · intro compares
    exact (Market.confirms_iff_logs compares).mp confirmed
  · intro free
    exact CommandLog.encoding_injective (free digests)

/-- A scan that is identified is of its own source. -/
theorem sameSource_self {scan : LogScanResult} (identified : scan.validPrefixDigest.isSome = true) :
    sameSource scan scan = true := by
  simp [sameSource, identified]

/-- What the replay of a log in a file hands out with its engine. -/
structure CommandLog.HandsOut (log : CommandLog) (tail : List UInt8) (options : ReplayOptions)
    (result : ReplayResult) (engine : MultiInstrumentEngine) : Prop where
  /-- The engine stands for the market after the commands of the log. -/
  stands : Stands engine (log.header.market.run log.commands).1 false none
  /-- The trades of the commands are recovered where that was asked for. -/
  trades : result.recoveredTrades = if options.collectTrades then
    some (log.header.market.trades log.commands) else none
  /-- The report names the header. -/
  header : result.report.header = some log.header
  /-- The report names the end of the log. -/
  boundary : result.report.validEndOffset = log.encoding.length
  /-- The tail is reported. -/
  ended : result.report.tail = .clean ↔ tail = []
  /-- The report names the state of the engine. -/
  digest : result.report.finalStateDigest =
    some (stateDigest (log.header.market.run log.commands).1.snapshot)

section Stored

variable {source : LogSource} {log : CommandLog} {tail : List UInt8}

/-- The scan of a log in a file, whichever pieces the source serves. -/
theorem scanCommandLog_stored (serves : source.Serves (log.encoding ++ tail))
    (torn : tail = [] ∨ TornRecord tail) (later : Nat) :
    (scanCommandLog source replayScanOptions later).1 =
      (if tail = [] then log.cleanScan else log.tornScan (log.encoding ++ tail).length) ∧
    (scanCommandLog source replayScanOptions later).2.visits = log.visits := by
  by_cases whole : tail = []
  · rw [whole, List.append_nil] at serves
    rw [if_pos whole]
    exact scanCommandLog_clean log serves rfl later
  · rw [if_neg whole]
    exact scanCommandLog_torn log serves rfl whole (torn.resolve_left whole) later

/-- Where the policy does not accept the tail, the replay of a log is refused. -/
theorem replayLogSource_refused (serves : source.Serves (log.encoding ++ tail))
    (torn : tail = [] ∨ TornRecord tail) (valid : options.valid = true)
    (refused : ¬(tail = [] ∨ options.tailPolicy = .validPrefix)) (calls : Nat) :
    ∃ report, replayLogSource checks source options calls = .ok (.refused report) := by
  rw [not_or] at refused
  have strict : options.tailPolicy = .strict := by
    cases policy : options.tailPolicy with
    | strict => rfl
    | validPrefix => exact absurd policy refused.2
  unfold replayLogSource
  rw [if_neg (by rw [valid]; decide)]
  simp only [(scanCommandLog_stored serves torn calls).1, if_neg refused.1]
  exact replayValidatedLogSource_refuses source (.inr ⟨rfl, strict⟩) _

/-- Where the policy accepts the tail, the replay of a log hands out the engine of its commands if
the mode confirms every record and the trades stay within the limit, and no engine otherwise. -/
theorem replayLogSource_accepted (serves : source.Serves (log.encoding ++ tail))
    (torn : tail = [] ∨ TornRecord tail) (valid : options.valid = true)
    (accepted : tail = [] ∨ options.tailPolicy = .validPrefix) (calls : Nat) :
    ∃ result, replayLogSource checks source options calls = .ok result ∧
      ((log.header.market.Confirms options.mode log.records ∧
          options.Collects log.header.market log.commands ∧
          ∃ engine, result.engine = some engine ∧ log.HandsOut tail options result engine) ∨
        (¬(log.header.market.Confirms options.mode log.records ∧
            options.Collects log.header.market log.commands) ∧ result.engine = none)) := by
  have scans := scanCommandLog_stored serves torn
  have longer : tail ≠ [] → log.encoding.length < (log.encoding ++ tail).length := by
    intro remains
    have positive := List.length_pos_iff.mpr remains
    rw [List.length_append]
    omega
  unfold replayLogSource
  rw [if_neg (by rw [valid]; decide)]
  simp only [(scans calls).1]
  generalize (scanCommandLog source replayScanOptions calls).2.calls = later
  have accepts : Accepts options.tailPolicy log
      (if tail = [] then log.cleanScan else log.tornScan (log.encoding ++ tail).length) := by
    by_cases whole : tail = []
    · rw [if_pos whole]
      exact .clean
    · rw [if_neg whole]
      exact .torn _ (longer whole) (accepted.resolve_left whole)
  have ended : replayTail (if tail = [] then log.cleanScan
      else log.tornScan (log.encoding ++ tail).length).termination = .clean ↔ tail = [] := by
    by_cases whole : tail = []
    · rw [if_pos whole]
      exact ⟨fun _ => whole, fun _ => rfl⟩
    · rw [if_neg whole]
      constructor
      · intro clean
        cases clean
      · intro none
        exact absurd none whole
  have headed : (if tail = [] then log.cleanScan
      else log.tornScan (log.encoding ++ tail).length).header = some log.header := by
    split_ifs <;> rfl
  have again := (scans later).1
  generalize (if tail = [] then log.cleanScan
    else log.tornScan (log.encoding ++ tail).length) = first at accepts ended headed again ⊢
  obtain ⟨initial, created, stands⟩ := log.headed.creates
  obtain ⟨evidence, passed, decided⟩ := @executeReplayPass_follows checks options source initial
    log.header stands log later log.header.encoding.length (scans later).2 (Nat.le_refl _)
  rw [replayValidatedLogSource_accepts valid source accepts created, passed, Run.ok_bind, again]
  rcases decided with ⟨confirmed, collects, follows⟩ | ⟨unconfirmed, failed⟩
  · have same : sameSource first first = true :=
      sameSource_self (by rw [accepts.reports.2.2.2.1]; rfl)
    rw [@publishReplay_follows options (.accepted options first) first ⟨first, evidence⟩ _ _ same
      accepts.reports.2.2.2.2 follows]
    exact ⟨_, rfl, .inl ⟨confirmed, collects, _, rfl, follows.stands, follows.collected, headed,
      accepts.reports.2.1, ended, rfl⟩⟩
  · obtain ⟨report, refused⟩ := @publishReplay_failed (.accepted options first) first
      ⟨first, evidence⟩ failed
    rw [refused]
    exact ⟨_, rfl, .inr ⟨unconfirmed, rfl⟩⟩

/-- An engine that the replay of a log hands out is the one of its commands. -/
theorem replayLogSource_handsOut (serves : source.Serves (log.encoding ++ tail))
    (torn : tail = [] ∨ TornRecord tail) (valid : options.valid = true) {calls : Nat}
    {result : ReplayResult} (replayed : replayLogSource checks source options calls = .ok result)
    {engine : MultiInstrumentEngine} (handed : result.engine = some engine) :
    (tail = [] ∨ options.tailPolicy = .validPrefix) ∧ log.HandsOut tail options result engine := by
  by_cases accepted : tail = [] ∨ options.tailPolicy = .validPrefix
  · obtain ⟨other, again, decided⟩ :=
      @replayLogSource_accepted checks options _ _ _ serves torn valid accepted calls
    rw [replayed, Except.ok.injEq] at again
    subst again
    rcases decided with ⟨_, _, found, same, facts⟩ | ⟨_, nothing⟩
    · rw [handed, Option.some.injEq] at same
      subst same
      exact ⟨accepted, facts⟩
    · rw [handed] at nothing
      cases nothing
  · obtain ⟨report, refused⟩ :=
      @replayLogSource_refused checks options _ _ _ serves torn valid accepted calls
    rw [replayed, Except.ok.injEq] at refused
    rw [refused] at handed
    cases handed

end Stored

/-- What the replay of a log in a file decides and hands out. The source may serve the bytes in
any pieces; behind the log may stand a part of one more record. An engine is handed out exactly if
the policy accepts that part, the mode confirms every record and the trades stay within the limit.
It is the engine after the commands of the log. -/
theorem replayLogSource_recovers {source : LogSource} {log : CommandLog} {tail : List UInt8}
    (serves : source.Serves (log.encoding ++ tail)) (torn : tail = [] ∨ TornRecord tail)
    {options : ReplayOptions} (valid : options.valid = true) (checks : Bool) (calls : Nat) :
    ∃ result, replayLogSource checks source options calls = .ok result ∧
      (result.engine.isSome = true ↔ (tail = [] ∨ options.tailPolicy = .validPrefix) ∧
        log.header.market.Confirms options.mode log.records ∧
        options.Collects log.header.market log.commands) ∧
      ∀ engine, result.engine = some engine →
        Stands engine (log.header.market.run log.commands).1 false none ∧
          result.recoveredTrades = (if options.collectTrades then
            some (log.header.market.trades log.commands) else none) ∧
          result.report.header = some log.header ∧
          result.report.validEndOffset = log.encoding.length ∧
          (result.report.tail = .clean ↔ tail = []) ∧
          result.report.finalStateDigest =
            some (stateDigest (log.header.market.run log.commands).1.snapshot) := by
  obtain ⟨result, replayed, decided⟩ : ∃ result,
      replayLogSource checks source options calls = .ok result ∧
        (result.engine.isSome = true ↔ (tail = [] ∨ options.tailPolicy = .validPrefix) ∧
          log.header.market.Confirms options.mode log.records ∧
          options.Collects log.header.market log.commands) := by
    by_cases accepted : tail = [] ∨ options.tailPolicy = .validPrefix
    · obtain ⟨result, replayed, decided⟩ :=
        @replayLogSource_accepted checks options _ _ _ serves torn valid accepted calls
      refine ⟨result, replayed, ?_⟩
      rcases decided with ⟨confirmed, collects, engine, handed, _⟩ | ⟨unconfirmed, nothing⟩
      · rw [handed]
        exact ⟨fun _ => ⟨accepted, confirmed, collects⟩, fun _ => rfl⟩
      · rw [nothing]
        refine ⟨?_, fun all => absurd all.2 unconfirmed⟩
        intro handed
        cases handed
    · obtain ⟨report, refused⟩ :=
        @replayLogSource_refused checks options _ _ _ serves torn valid accepted calls
      refine ⟨_, refused, ?_, fun all => absurd all.1 accepted⟩
      intro handed
      cases handed
  refine ⟨result, replayed, decided, ?_⟩
  intro engine handed
  obtain ⟨_, facts⟩ := replayLogSource_handsOut serves torn valid replayed handed
  exact ⟨facts.stands, facts.trades, facts.header, facts.boundary, facts.ended, facts.digest⟩

/-- The header of a log of one instrument. -/
def singleHeader : LogHeader where
  formatVersion := commandLogFormatVersion
  semanticsVersion := atlaslobSemanticsVersion
  logId := sampleHeader.logId
  firstSequence := commandLogFirstSequence
  engineConfig := ⟨2⟩
  catalog := [⟨1, 100, 5, 3⟩]

/-- It can be stored. -/
theorem singleHeader_valid : singleHeader.Valid := ⟨rfl, rfl, rfl, by decide, by decide⟩

/-- Every command of the session is replied to with events. -/
theorem session_replied : ∀ reply ∈ (sessionMarket.run sessionCommands).2,
    ∃ batch : EventBatch, reply = .ok batch.events := by
  have replies : (sessionMarket.run sessionCommands).2 = sessionReports.map Except.ok := by
    decide +kernel
  have valid : ∀ events ∈ sessionReports, EventBatch.validate events = .ok () := by
    decide +kernel
  rw [replies]
  intro reply inside
  obtain ⟨events, reported, rfl⟩ := List.mem_map.mp inside
  exact ⟨⟨events, valid events reported⟩, rfl⟩

/-- The log of the session is recovered with its trade, and without it where a part of one more
record follows. -/
theorem replayLogSource_recovers_session : ∃ log : CommandLog, log.commands = sessionCommands ∧
    (∃ result engine, replayLogSource true (steadySource log.encoding)
        ⟨.verify, .strict, 1, true, 1⟩ 0 = .ok result ∧ result.engine = some engine ∧
      Stands engine (sessionMarket.run sessionCommands).1 false none ∧
      result.recoveredTrades = some (numberEvents 3 1 1 [.trade 3 1 3 1 .buy 15 4 2 0])) ∧
    ∃ result engine, replayLogSource true
        (steadySource (log.encoding ++ sampleRecord.encoding.take 1))
        ⟨.verify, .validPrefix, 1, false, 0⟩ 0 = .ok result ∧ result.engine = some engine ∧
      Stands engine (sessionMarket.run sessionCommands).1 false none ∧
      result.report.tail ≠ .clean := by
  obtain ⟨log, headed, named, logs⟩ :=
    CommandLog.exists_of_run singleHeader_valid session_replied
  have opens : log.header.market = sessionMarket := by
    rw [headed]
    rfl
  have trades : sessionMarket.trades sessionCommands =
      numberEvents 3 1 1 [.trade 3 1 3 1 .buy 15 4 2 0] := by
    decide +kernel
  have confirmed : ∀ mode, log.header.market.Confirms mode log.records := by
    rw [headed]
    exact logs.confirms
  refine ⟨log, named, ?_, ?_⟩
  · have serves := steadySource_serves log.encoding
    rw [← List.append_nil log.encoding] at serves
    obtain ⟨result, replayed, decides, facts⟩ := replayLogSource_recovers serves (.inl rfl)
      (show (⟨.verify, .strict, 1, true, 1⟩ : ReplayOptions).valid = true from rfl) true 0
    rw [List.append_nil] at replayed
    have handed := decides.mpr ⟨.inl rfl, confirmed _, fun _ => by
      rw [opens, named, trades]
      exact Nat.le_refl 1⟩
    obtain ⟨engine, found⟩ := Option.isSome_iff_exists.mp handed
    obtain ⟨stands, collected, _⟩ := facts engine found
    rw [opens, named] at stands collected
    rw [trades] at collected
    exact ⟨result, engine, replayed, found, stands, collected⟩
  · obtain ⟨remains, torn⟩ := sampleRecord.torn (show 0 < 1 by decide) (by decide +kernel)
    obtain ⟨result, replayed, decides, facts⟩ := replayLogSource_recovers
      (steadySource_serves (log.encoding ++ sampleRecord.encoding.take 1)) (.inr torn)
      (show (⟨.verify, .validPrefix, 1, false, 0⟩ : ReplayOptions).valid = true from rfl) true 0
    have handed := decides.mpr ⟨.inr rfl, confirmed _, fun asked => by cases asked⟩
    obtain ⟨engine, found⟩ := Option.isSome_iff_exists.mp handed
    obtain ⟨stands, _, _, _, clean, _⟩ := facts engine found
    rw [opens, named] at stands
    exact ⟨result, engine, replayed, found, stands, fun whole => remains (clean.mp whole)⟩

end Publication

end AtlasLob
