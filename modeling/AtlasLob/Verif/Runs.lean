import AtlasLob.Verif.PriceTime

/-!
# Runs from an empty engine

What holds in every state that commands reach from an empty engine of an accepted catalog: the
whole invariant, that no command fails or terminates, and that preparing a command is either
undone completely or the first half of executing it.
-/

namespace AtlasLob

open PriceLevel Index

/-- The engines that commands reach from the empty engine of a catalog. -/
def Reaches (checks : Bool) (catalog : List InstrumentConfig)
    (config : MultiInstrumentEngineConfig) (engine : MultiInstrumentEngine) : Prop :=
  ∃ initial commands results, MultiInstrumentEngine.create catalog config = .ok initial ∧
    initial.run checks commands = .ok (engine, results)

/-- A book entry is determined by its desk. -/
theorem BookAgrees.unique {instrument : InstrumentId} {entry other : BookEntry} {desk : Desk}
    {lease : Option (Option Pending)} (left : BookAgrees instrument entry desk lease)
    (right : BookAgrees instrument other desk lease) : entry = other := by
  have config := left.config.trans right.config.symm
  have policy := left.policy.trans right.policy.symm
  have placed := left.placed.trans right.placed.symm
  have counter := left.counter.trans right.counter.symm
  have leased := left.leased.trans right.leased.symm
  have book := left.represents.unique right.represents
  obtain ⟨first, ⟨_, _, _, _, _⟩⟩ := entry
  obtain ⟨second, ⟨_, _, _, _, _⟩⟩ := other
  simp only at config placed policy counter leased book
  rw [config, placed, policy, counter, leased, book]

/-- An engine is determined by the market it stands for. -/
theorem Stands.unique {engine other : MultiInstrumentEngine} {market : Market} {active : Bool}
    {lease : Option (InstrumentId × Option Pending)} (left : Stands engine market active lease)
    (right : Stands other market active lease) : engine = other := by
  have config := left.config.trans right.config.symm
  have sequencer := left.sequencer.trans right.sequencer.symm
  have live := left.active.trans right.active.symm
  have books := left.books.unique right.books
    fun instrument entry again desk first second => first.unique second
  have owners : engine.activeOrders = other.activeOrders :=
    Std.ExtTreeMap.ext_getElem? fun orderId => by rw [left.owners, right.owners]
  have ranks : engine.activePriorities = other.activePriorities :=
    Std.ExtTreeMap.ext_getElem? fun sequence => by rw [left.ranks, right.ranks]
  cases engine
  cases other
  simp only at config sequencer live books owners ranks
  rw [config, sequencer, live, books, owners, ranks]

namespace Reaches

variable {checks : Bool} {catalog : List InstrumentConfig} {config : MultiInstrumentEngineConfig}
  {engine : MultiInstrumentEngine}

/-- Every reached engine stands for the market after the same commands. -/
theorem stands (reaches : Reaches checks catalog config engine) :
    ∃ commands, Stands engine ((Market.opening catalog config).run commands).1 false none := by
  obtain ⟨initial, commands, results, created, ran⟩ := reaches
  obtain ⟨next, replies, same, after, -⟩ := (create_stands created).run checks commands
  rw [same, Except.ok.injEq, Prod.mk.injEq] at ran
  obtain ⟨rfl, -⟩ := ran
  exact ⟨commands, after⟩

end Reaches

/-- The empty engine of one usable instrument is reached. -/
theorem Reaches.single (checks : Bool) {instrument : InstrumentConfig}
    (named : instrument.instrumentId ≠ 0) (usable : instrument.matching.valid = true)
    (config : MultiInstrumentEngineConfig) :
    Reaches checks [instrument] config (singleEngine instrument config) :=
  ⟨_, [], [], create_single named usable config, rfl⟩

variable (checks : Bool)

/-- Every run of commands from an accepted catalog ends in a sound engine. -/
theorem run_sound {catalog : List InstrumentConfig} {config : MultiInstrumentEngineConfig}
    {initial : MultiInstrumentEngine}
    (created : MultiInstrumentEngine.create catalog config = .ok initial)
    (commands : List Command) :
    ∃ engine results, initial.run checks commands = .ok (engine, results) ∧
      EngineSound engine := by
  obtain ⟨engine, results, ran, after, -⟩ := (create_stands created).run checks commands
  exact ⟨engine, results, ran, after.sound⟩

/-- The market of one instrument before its first command. -/
def sessionMarket : Market := .opening [⟨1, ⟨100, 5, 3⟩⟩] ⟨2⟩

/-- The commands of a short session: two sells rest, a buy trades with the first and rests what is
left of it, the second sell is exchanged and the buy withdrawn. -/
def sessionCommands : List Command :=
  [.newOrder ⟨1, 1, 1, .sell, .limit, .gtc, some 15, 4⟩,
    .newOrder ⟨2, 2, 1, .sell, .limit, .gtc, some 20, 3⟩,
    .newOrder ⟨3, 3, 1, .buy, .limit, .gtc, some 15, 6⟩,
    .replace ⟨2, 2, 4, 1, 25, 5⟩, .cancel ⟨3, 3, 1⟩]

/-- What the session reports. -/
def sessionReports : List (List Event) :=
  [numberEvents 1 1 0 [.accepted .newOrder, .rested 1 1 .sell 15 4,
      .bookChanged none (some ⟨15, 4⟩)],
    numberEvents 2 1 0 [.accepted .newOrder, .rested 2 2 .sell 20 3],
    numberEvents 3 1 0 [.accepted .newOrder, .trade 3 1 3 1 .buy 15 4 2 0,
      .rested 3 3 .buy 15 2, .bookChanged (some ⟨15, 2⟩) (some ⟨20, 3⟩)],
    numberEvents 4 1 0 [.accepted .replace, .replaced 2 4, .canceled 2 3, .done 2 .replaced 3,
      .rested 4 2 .sell 25 5, .bookChanged (some ⟨15, 2⟩) (some ⟨25, 5⟩)],
    numberEvents 5 1 0 [.accepted .cancel, .canceled 3 2, .done 3 .canceled 2,
      .bookChanged none (some ⟨25, 5⟩)]]

/-- The two sells that rest after the first two commands of the session. -/
def sessionLadder : Ladder :=
  ⟨[], [(15, [⟨1, 1, 1, .sell, 15, 4, 1⟩]), (20, [⟨2, 2, 1, .sell, 20, 3, 2⟩])]⟩

/-- The desk after the first two commands of the session. -/
theorem session_desk : (sessionMarket.run (sessionCommands.take 2)).1.desk 1 =
    some ⟨⟨1, ⟨100, 5, 3⟩⟩, sessionLadder⟩ := by
  decide +kernel

/-- The engine of one instrument runs like its market. -/
theorem single_run (commands : List Command) :
    ∃ engine results, (singleEngine ⟨1, ⟨100, 5, 3⟩⟩ ⟨2⟩).run true commands =
        .ok (engine, results) ∧
      Reaches true [⟨1, ⟨100, 5, 3⟩⟩] ⟨2⟩ engine ∧
      Stands engine (sessionMarket.run commands).1 false none ∧
      results.map EngineResult.reply = (sessionMarket.run commands).2 := by
  obtain ⟨engine, results, ran, stands, replies⟩ :=
    (create_stands session_created).run true commands
  exact ⟨engine, results, ran, ⟨_, _, _, session_created, ran⟩, stands, replies⟩

/-- The session is sound. -/
theorem run_sound_session :
    MultiInstrumentEngine.create [⟨1, ⟨100, 5, 3⟩⟩] ⟨2⟩ = .ok (singleEngine ⟨1, ⟨100, 5, 3⟩⟩ ⟨2⟩) ∧
      ∃ engine results, (singleEngine ⟨1, ⟨100, 5, 3⟩⟩ ⟨2⟩).run true sessionCommands =
          .ok (engine, results) ∧
        results.map EngineResult.reply = sessionReports.map Except.ok ∧ EngineSound engine := by
  obtain ⟨engine, results, ran, sound⟩ := run_sound true session_created sessionCommands
  obtain ⟨again, replied, same, -, -, replies⟩ := single_run sessionCommands
  rw [same, Except.ok.injEq, Prod.mk.injEq] at ran
  obtain ⟨rfl, rfl⟩ := ran
  exact ⟨session_created, again, replied, same, replies.trans (by decide +kernel), sound⟩

/-- The number of trades the plan of a command makes fits the event index, next to the events a
new order or an exchange reports besides its trades. -/
def PlanFits (checks : Bool) (engine : MultiInstrumentEngine) (command : Command) : Prop :=
  ∀ entry, engine.findBook command.instrumentId = some entry →
    match command with
    | .newOrder order => ∀ plan, planMatches checks order entry.book = .ok (.ok plan) →
        (checkedEventCount 2 plan.trades.length true).isSome = true
    | .cancel _ => True
    | .replace order => ∀ old plan, entry.book.find order.oldOrderId = some old →
        planMatches checks (CommandExecutor.replacementOf old order) entry.book = .ok (.ok plan) →
        (checkedEventCount 5 plan.trades.length true).isSome = true

/-- Executions against different resting orders are no more than these. -/
theorem Executable.length_le {ladder : Ladder} {fills : List Fill}
    (executable : Executable ladder fills) : fills.length ≤ ladder.orders.length := by
  have inside : ids (fills.map Fill.order) ⊆ ids ladder.orders := by
    refine List.map_subset _ fun order member => ?_
    obtain ⟨fill, present, rfl⟩ := List.mem_map.mp member
    exact executable.members fill present
  have bound := (executable.distinct.subperm inside).length_le
  rwa [ids, ids, List.length_map, List.length_map, List.length_map] at bound

/-- A few trades leave room for the other events of a command. -/
theorem checkedEventCount_of_few {fixed trades : Nat} (small : fixed ≤ 5)
    (few : trades + 6 ≤ 2 ^ 32) : (checkedEventCount fixed trades true).isSome = true := by
  simp only [checkedEventCount, ↓reduceIte]
  rw [if_neg (by omega), if_neg (by omega), if_pos (by omega)]
  rfl

/-- A count that fits with one more event. -/
theorem checkedEventCount_fits {fixed trades : Nat}
    (fits : (checkedEventCount fixed trades true).isSome = true) : trades + fixed + 1 ≤ 2 ^ 32 := by
  simp only [checkedEventCount, ↓reduceIte] at fits
  by_contra long
  have large : ¬ trades + (fixed + 1) - 1 ≤ 2 ^ 32 - 1 := by omega
  rw [if_neg large] at fits
  split_ifs at fits <;> cases fits

namespace Stands

variable {engine : MultiInstrumentEngine} {market : Market} {command : Command}

/-- The report of a command whose plan fits can be indexed. -/
theorem report_fits (stands : Stands engine market false none) {desk : Desk}
    (found : market.desk command.instrumentId = some desk)
    (admitted : Admitted market desk command) (fits : PlanFits checks engine command)
    {ladder : Ladder} {report : List EventPayload}
    (judged : market.judgeAdmitted command desk = .accept ladder report) :
    ¬ 2 ^ 32 < report.length := by
  obtain ⟨entry, book, agrees⟩ := stands.findBook found
  have represents := agrees.represents
  have fit := fits entry book
  cases admitted with
  | @aggressor _ order replaced opening submits aggresses fresh limited aligned same =>
    rw [same] at judged
    obtain ⟨-, -, -, rfl⟩ := Market.Valid.judgeAggressor_accept judged
    have plan := represents.planMatches checks aggresses.toMeets
    have bound : (planOf desk.ladder order).trades.length + (opening.length + 1) + 1 ≤ 2 ^ 32 := by
      cases submits with
      | new => exact checkedEventCount_fits (fit _ plan)
      | exchange exchanged old named owned routed =>
        have rests : entry.book.find exchanged.oldOrderId = some old := by
          rw [BookEntry.book, represents.find]
          exact aggresses.valid.find_eq_some_iff.mpr ⟨(aggresses.replaces old rfl).1, named⟩
        exact checkedEventCount_fits (fit old _ rests plan)
    rw [Aggresses.report_length]
    split_ifs <;> omega
  | @withdrawal order old member named owned same =>
    rw [same, Verdict.accept.injEq] at judged
    obtain ⟨-, rfl⟩ := judged
    rw [Ladder.withdrawalReport, Ladder.changeEvents]
    split_ifs <;> simp

/-- The trades of a plan can be indexed as long as few orders rest. -/
theorem planFits_of_few (stands : Stands engine market false none)
    (few : market.orders.length + 6 ≤ 2 ^ 32) (command : Command) :
    PlanFits checks engine command := by
  intro entry book
  obtain ⟨desk, found, agrees⟩ := stands.books.find?_some book
  have represents := agrees.represents
  have bound : ∀ order plan, planMatches checks order entry.book = .ok (.ok plan) →
      plan.trades.length + 6 ≤ 2 ^ 32 := by
    intro order plan planned
    rcases represents.planMatches_cases checks order with ⟨-, error, refused⟩ | meets
    · rw [BookEntry.book, refused] at planned
      cases planned
    · rw [BookEntry.book, represents.planMatches checks meets, Except.ok.injEq,
        Except.ok.injEq] at planned
      subst planned
      have here := meets.executable.length_le
      obtain ⟨others, split, -⟩ := Market.orders_split found
      have there := split.length_eq
      rw [List.length_append] at there
      rw [planOf_trades, List.length_map]
      omega
  cases command with
  | newOrder order =>
    exact fun plan planned => checkedEventCount_of_few (by decide) (bound _ _ planned)
  | cancel order => trivial
  | replace order =>
    exact fun old plan _ planned => checkedEventCount_of_few (by decide) (bound _ _ planned)

/-- A reply with events comes from a batch that accepts or refuses. -/
theorem step_replies (stands : Stands engine market false none)
    (unspent : market.sequencer.exhausted = false) (fits : PlanFits checks engine command) :
    ∃ events, (market.step command).2 = .ok events ∧
      ∃ payload rest, events = numberEvents market.sequencer.nextSequence command.instrumentId 0
        (payload :: rest) ∧ (payload.isAccepted = true ∨ payload.isRejected = true) := by
  rw [Market.step]
  simp only [unspent, Bool.false_eq_true, ↓reduceIte]
  rcases stands.valid.judge_cases unspent command with
    ⟨decision, refused⟩ | ⟨desk, found, admitted, judged⟩
  · simp only [refused]
    exact ⟨_, rfl, _, [], rfl, Or.inr rfl⟩
  · cases verdict : market.judgeAdmitted command desk with
    | refuse decision =>
      simp only [judged, verdict]
      exact ⟨_, rfl, _, [], rfl, Or.inr rfl⟩
    | accept ladder report =>
      have short := stands.report_fits checks found admitted fits verdict
      simp only [judged, verdict, if_neg short]
      refine ⟨_, rfl, ?_⟩
      cases admitted with
      | @aggressor _ order replaced opening submits aggresses fresh limited aligned same =>
        rw [same] at verdict
        obtain ⟨-, -, -, rfl⟩ := Market.Valid.judgeAggressor_accept verdict
        obtain ⟨rest, opens⟩ := report_accepted submits desk.ladder market.sequencer.nextSequence
        exact ⟨_, rest, by rw [opens], Or.inl rfl⟩
      | @withdrawal order old member named owned same =>
        rw [same, Verdict.accept.injEq] at verdict
        obtain ⟨-, rfl⟩ := verdict
        exact ⟨_, _, rfl, Or.inl rfl⟩

end Stands

/-- A reply with events is a batch of these events. -/
theorem EngineResult.reply_eq_ok {result : EngineResult} {events : List Event}
    (replied : result.reply = .ok events) :
    ∃ batch, result = .success batch ∧ batch.events = events := by
  cases result with
  | success batch =>
    rw [EngineResult.reply, Except.ok.injEq] at replied
    exact ⟨batch, rfl, replied⟩
  | failure error => cases replied

variable {catalog : List InstrumentConfig} {config : MultiInstrumentEngineConfig}
  {engine : MultiInstrumentEngine}

/-- No command fails or terminates on a reached engine with an unexhausted counter, as long as
the trades of its plan can be indexed. -/
theorem execute_never_fails (reaches : Reaches checks catalog config engine)
    (unspent : engine.sequencer.exhausted = false) (command : Command)
    (fits : PlanFits checks engine command) :
    ∃ next batch, engine.execute checks command = .ok (next, .success batch) ∧
      (batch.accepted = true ∨ batch.rejected = true) := by
  obtain ⟨commands, stands⟩ := reaches.stands
  rw [stands.sequencer] at unspent
  obtain ⟨next, result, executed, -, replied⟩ := stands.execute checks command
  obtain ⟨events, ok, payload, rest, shape, kind⟩ := stands.step_replies checks unspent fits
  obtain ⟨batch, rfl, same⟩ := EngineResult.reply_eq_ok (replied.trans ok)
  refine ⟨next, batch, executed, ?_⟩
  rw [EventBatch.accepted, EventBatch.rejected, same, shape]
  exact kind

/-- Every command of the session meets a reached engine that executes it as the session reports. -/
theorem session_step {count : Nat} (inside : count < 5) :
    ∃ engine results command next batch, sessionCommands[count]? = some command ∧
      (singleEngine ⟨1, ⟨100, 5, 3⟩⟩ ⟨2⟩).run true (sessionCommands.take count) =
        .ok (engine, results) ∧
      Reaches true [⟨1, ⟨100, 5, 3⟩⟩] ⟨2⟩ engine ∧
      Stands engine (sessionMarket.run (sessionCommands.take count)).1 false none ∧
      engine.execute true command = .ok (next, .success batch) ∧
      sessionReports[count]? = some batch.events := by
  have length : count < sessionCommands.length := inside
  obtain ⟨engine, results, ran, reaches, stands, -⟩ := single_run (sessionCommands.take count)
  obtain ⟨next, result, executed, -, replied⟩ := stands.execute true sessionCommands[count]
  have reports : ∀ step : Fin 5, ((sessionMarket.run (sessionCommands.take step)).1.step
      sessionCommands[step]).2.toOption = sessionReports[step.val]? := by
    decide +kernel
  have reported : ((sessionMarket.run (sessionCommands.take count)).1.step
      sessionCommands[count]).2.toOption = sessionReports[count]? := reports ⟨count, inside⟩
  rw [← replied] at reported
  cases result with
  | success batch =>
    exact ⟨engine, results, _, next, batch, List.getElem?_eq_getElem length, ran, reaches, stands,
      executed, reported.symm⟩
  | failure error =>
    have missing : sessionReports[count]? = none := reported.symm
    rw [List.getElem?_eq_none_iff] at missing
    exact absurd missing (Nat.not_le.mpr inside)

/-- Every report of the session is an acceptance. -/
theorem session_accepted {count : Nat} {batch : EventBatch}
    (reported : sessionReports[count]? = some batch.events) : batch.accepted = true := by
  have opens : ∀ events ∈ sessionReports,
      (events.head?.any fun first => first.payload.isAccepted) = true := by
    decide
  have first := opens _ (List.mem_of_getElem? reported)
  rw [EventBatch.accepted]
  cases events : batch.events with
  | nil =>
    rw [events] at first
    cases first
  | cons head rest =>
    rw [events] at first
    exact first

/-- The counter of the session is not exhausted and few orders rest. -/
theorem session_moderate {count : Nat} (inside : count < 5) {engine : MultiInstrumentEngine}
    (stands : Stands engine (sessionMarket.run (sessionCommands.take count)).1 false none)
    (command : Command) :
    engine.sequencer.exhausted = false ∧ PlanFits true engine command := by
  have moderate : ∀ step : Fin 5,
      (sessionMarket.run (sessionCommands.take step)).1.sequencer.exhausted = false ∧
        (sessionMarket.run (sessionCommands.take step)).1.orders.length + 6 ≤ 2 ^ 32 := by
    decide +kernel
  obtain ⟨unspent, few⟩ := moderate ⟨count, inside⟩
  exact ⟨stands.sequencer ▸ unspent, stands.planFits_of_few true few command⟩

/-- The commands of the session are executed, the one that trades, the exchange and the withdrawal
among them. -/
theorem execute_never_fails_session :
    sessionCommands.length = 5 ∧ ∀ count < 5, ∃ engine results command next batch,
      sessionCommands[count]? = some command ∧
      (singleEngine ⟨1, ⟨100, 5, 3⟩⟩ ⟨2⟩).run true (sessionCommands.take count) =
        .ok (engine, results) ∧
      engine.execute true command = .ok (next, .success batch) ∧
      (batch.accepted = true ∨ batch.rejected = true) := by
  refine ⟨rfl, fun count inside => ?_⟩
  obtain ⟨engine, results, command, -, -, named, ran, reaches, stands, -, -⟩ :=
    session_step inside
  obtain ⟨unspent, fits⟩ := session_moderate inside stands command
  obtain ⟨next, batch, executed, kind⟩ := execute_never_fails true reaches unspent command fits
  exact ⟨engine, results, command, next, batch, named, ran, executed, kind⟩

/-- A command the market does not fail owns the engine once it is prepared. -/
theorem Prepares.owned {market : Market} {command : Command} {live : MultiInstrumentEngine}
    {prepared : PreparedMultiInstrumentCommand} (prepares : Prepares market command live prepared)
    {events : List Event} (replied : (market.step command).2 = .ok events) :
    prepared.owned = true := by
  cases prepares with
  | failed stands fails =>
    rw [fails] at replied
    cases replied
  | refused => rfl
  | overflowed => rfl
  | aggressor => rfl
  | withdrawal => rfl

/-- Preparing a command on a reached engine is undone by abandoning it and completed by committing
it; while it is live, snapshots show the state before it and every other command fails. -/
theorem prepare_abandon_commit (reaches : Reaches checks catalog config engine)
    (command : Command) :
    ∃ live prepared image, engine.prepareState checks command = .ok (live, prepared) ∧
      live.abandon checks prepared = .ok (engine, prepared.consume) ∧
      (∃ settled result, live.commit checks prepared = .ok (settled, prepared.consume, result) ∧
        engine.execute checks command = .ok (settled, result)) ∧
      engine.snapshot = .ok image ∧ live.snapshot = .ok image ∧
      (prepared.owned = true → ∀ other,
        live.prepareState checks other = .ok (live, .failed other .internalFailure) ∧
          live.execute checks other = .ok (live, .failure .internalFailure)) := by
  obtain ⟨commands, stands⟩ := reaches.stands
  obtain ⟨live, prepared, prepares, staged⟩ := stands.prepareState checks command
  obtain ⟨settled, result, committed, -, -⟩ := staged.commit checks
  obtain ⟨restored, abandoned, back⟩ := staged.abandon checks
  rw [back.unique stands] at abandoned
  obtain ⟨lease, before, leases⟩ := staged.stands
  refine ⟨live, prepared, _, prepares, abandoned, ⟨settled, result, committed, ?_⟩,
    stands.snapshot (by simp [Stands.Leases]), before.snapshot leases, ?_⟩
  · simp only [MultiInstrumentEngine.execute, prepares, committed, Run.ok_bind, Run.pure_eq]
  · intro owned other
    have active : live.preparationActive = true := before.active.trans owned
    have refused : live.prepareState checks other =
        .ok (live, .failed other .internalFailure) := by
      rw [MultiInstrumentEngine.prepareState, active]
      rfl
    refine ⟨refused, ?_⟩
    rw [MultiInstrumentEngine.execute, refused]
    rfl

/-- Every command of the session is prepared, abandoned and committed, and owns the engine until
then. -/
theorem prepare_abandon_commit_session :
    sessionCommands.length = 5 ∧ ∀ count < 5, ∃ engine results command live prepared image,
      sessionCommands[count]? = some command ∧
      (singleEngine ⟨1, ⟨100, 5, 3⟩⟩ ⟨2⟩).run true (sessionCommands.take count) =
        .ok (engine, results) ∧
      engine.prepareState true command = .ok (live, prepared) ∧ prepared.owned = true ∧
      live.abandon true prepared = .ok (engine, prepared.consume) ∧
      (∃ settled result, live.commit true prepared = .ok (settled, prepared.consume, result) ∧
        engine.execute true command = .ok (settled, result)) ∧
      engine.snapshot = .ok image ∧ live.snapshot = .ok image ∧
      ∀ other, live.prepareState true other = .ok (live, .failed other .internalFailure) ∧
        live.execute true other = .ok (live, .failure .internalFailure) := by
  refine ⟨rfl, fun count inside => ?_⟩
  obtain ⟨engine, results, command, next, batch, named, ran, reaches, stands, executed, -⟩ :=
    session_step inside
  obtain ⟨live, prepared, image, prepares, abandoned, ⟨settled, result, committed, same⟩, before,
    during, blocks⟩ := prepare_abandon_commit true reaches command
  obtain ⟨again, staged, preparesToo, prepared'⟩ := stands.prepareState true command
  rw [prepares, Except.ok.injEq, Prod.mk.injEq] at preparesToo
  obtain ⟨rfl, rfl⟩ := preparesToo
  obtain ⟨after, reply, executes, -, replied⟩ := stands.execute true command
  rw [executed, Except.ok.injEq, Prod.mk.injEq] at executes
  obtain ⟨rfl, rfl⟩ := executes
  have owned := prepared'.owned replied.symm
  exact ⟨engine, results, command, live, prepared, image, named, ran, prepares, owned, abandoned,
    ⟨settled, result, committed, same⟩, before, during, blocks owned⟩

end AtlasLob
