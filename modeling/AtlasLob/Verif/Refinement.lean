import AtlasLob.Verif.Publication

/-!
# The engine refines the market

Executing a command on an idle engine that stands for a market ends in an engine that stands for
the market after the command, with the same reply. An accepted catalog opens a valid market, so
every run from an empty engine is a run of its market: nothing terminates and every state passes
the full validation.
-/

namespace AtlasLob

open PriceLevel Index

namespace Prepares

variable {market : Market} {command : Command} {engine : MultiInstrumentEngine}
  {prepared : PreparedMultiInstrumentCommand} (checks : Bool)

/-- What is live belongs to the market before the command. -/
theorem stands (prepares : Prepares market command engine prepared) :
    ∃ lease, Stands engine market prepared.owned lease ∧ Stands.Leases prepared.owned lease := by
  cases prepares with
  | failed stands => exact ⟨none, stands, by simp [Stands.Leases]⟩
  | refused stands => exact ⟨none, stands, by simp [Stands.Leases]⟩
  | overflowed stands => exact ⟨_, stands, fun _ => rfl⟩
  | aggressor stands => exact ⟨_, stands, fun _ => rfl⟩
  | withdrawal stands => exact ⟨_, stands, fun _ => rfl⟩

/-- Giving back the lease of an engine without a leased book. -/
theorem releaseOwner_ok (stands : Stands engine market true none) (owned : prepared.owned = true) :
    engine.releaseOwner checks prepared =
      .ok ({ engine with preparationActive := false }, true) := by
  have idle := (stands.activate false).validateInvariants (by simp [Stands.Leases])
  rw [MultiInstrumentEngine.releaseOwner, owned, stands.active]
  cases checks with
  | true => simp only [idle, Bool.not_true, Bool.false_eq_true, ↓reduceIte, Run.ok_bind,
      Run.pure_eq]
  | false => rfl

/-- A staged command is dropped with its book's preparation. -/
theorem abandon_staged {pending : Option Pending} {desk : Desk} {sequence : Sequence}
    {staged : PreparedCommandExecution} {removals : List IdentityRemoval}
    {addition : Option (OrderId × Identity)} {priorityAddition : Option (Sequence × OrderId)}
    (stands : Stands engine market true (some (command.instrumentId, pending)))
    (found : market.desk command.instrumentId = some desk)
    (guards : staged.preparedRest = pending.map (guardOf command.instrumentId.toNat))
    (leased : staged.leased = true) :
    ∃ next, engine.abandon checks (.staged command sequence command.instrumentId staged removals
        addition priorityAddition) =
          .ok (next, (PreparedMultiInstrumentCommand.staged command sequence command.instrumentId
            staged removals addition priorityAddition).consume) ∧
      Stands next market false none := by
  obtain ⟨dropped, drops, free⟩ := stands.dropPreparation checks found staged guards leased
  refine ⟨{ dropped with preparationActive := false }, ?_, free.activate false⟩
  rw [MultiInstrumentEngine.abandon]
  simp only [PreparedMultiInstrumentCommand.staged, Bool.false_eq_true, ↓reduceIte, drops,
    Run.ok_bind]
  rw [releaseOwner_ok checks free rfl]
  rfl

/-- Abandoning a prepared command leads back to the market before it. -/
theorem abandon (prepares : Prepares market command engine prepared) :
    ∃ next, engine.abandon checks prepared = .ok (next, prepared.consume) ∧
      Stands next market false none := by
  cases prepares with
  | failed stands => exact ⟨engine, rfl, stands⟩
  | refused stands =>
    refine ⟨{ engine with preparationActive := false }, ?_, stands.activate false⟩
    rw [MultiInstrumentEngine.abandon]
    simp only [PreparedMultiInstrumentCommand.refused, Bool.false_eq_true, ↓reduceIte, Run.pure_eq,
      Run.ok_bind]
    rw [releaseOwner_ok checks stands rfl]
    rfl
  | overflowed stands _ found => exact abandon_staged checks stands found rfl rfl
  | @aggressor batch desk order replaced opening stands _ found =>
    have guards :=
      stagedExecution_preparedRest command.instrumentId.toNat desk.ladder order replaced
      market.sequencer.nextSequence batch
    refine abandon_staged checks stands found ?_ rfl
    rw [← guards]
  | withdrawal stands _ found => exact abandon_staged checks stands found rfl rfl

end Prepares

namespace Stands

variable {engine : MultiInstrumentEngine} {market : Market} (checks : Bool)

/-- Executing a command refines a step of the market. -/
theorem execute (stands : Stands engine market false none) (command : Command) :
    ∃ next result, engine.execute checks command = .ok (next, result) ∧
      Stands next (market.step command).1 false none ∧
      result.reply = (market.step command).2 := by
  obtain ⟨live, prepared, prepares, staged⟩ := stands.prepareState checks command
  obtain ⟨next, result, committed, after, replied⟩ := staged.commit checks
  refine ⟨next, result, ?_, after, replied⟩
  simp only [MultiInstrumentEngine.execute, prepares, committed, Run.ok_bind, Run.pure_eq]

/-- Executing commands refines a run of the market. -/
theorem run (stands : Stands engine market false none) (commands : List Command) :
    ∃ next results, engine.run checks commands = .ok (next, results) ∧
      Stands next (market.run commands).1 false none ∧
      results.map EngineResult.reply = (market.run commands).2 := by
  induction commands generalizing engine market with
  | nil => exact ⟨engine, [], rfl, stands, rfl⟩
  | cons command rest ih =>
    obtain ⟨middle, result, executed, between, replied⟩ := stands.execute checks command
    obtain ⟨next, results, ran, after, replies⟩ := ih between
    refine ⟨next, result :: results, ?_, after, ?_⟩
    · simp only [MultiInstrumentEngine.run, executed, ran, Run.ok_bind, Run.pure_eq]
    · simp only [List.map_cons, replied, replies, Market.run]

end Stands

/-- A fresh book. -/
def freshBook (instrument : InstrumentId) : InstrumentBook :=
  ⟨instrument, ∅, [], [], ∅, none, none, 0, false⟩

/-- The executor of the fresh book of an instrument. -/
def freshExecutor (config : InstrumentConfig) : CommandExecutor :=
  ⟨config.instrumentId.toNat, freshBook config.instrumentId, config.matching, .initial, false⟩

/-- A fresh book represents the empty ladder. -/
theorem represents_freshBook {instrument : InstrumentId} (named : instrument ≠ 0) :
    Represents instrument (freshBook instrument) .empty none where
  routed := rfl
  valid := Ladder.Valid.empty named
  bids := rfl
  asks := rfl
  held side known price queue inside := by
    rcases known with rfl | rfl <;> cases inside
  stored orderId := by simp [freshBook, storedOrders, Ladder.orders, Ladder.empty, ids]
  indexed orderId := by simp [freshBook]
  pendingNode := rfl
  pendingLevel := rfl
  replacedId := rfl
  staged residual inside := by cases inside
  published := rfl

/-- A usable instrument gets its book. -/
theorem create_bookEntry {config : InstrumentConfig} (named : config.instrumentId ≠ 0)
    (usable : config.matching.valid = true) :
    BookEntry.create config = .ok ⟨config, freshExecutor config⟩ := by
  have represents := represents_freshBook named
  have checked := represents.validateInvariants (by simp)
  have count := represents.activeOrderCount
  rw [BookEntry.create, InstrumentBook.create, if_neg named, Run.ok_bind, CommandExecutor.create,
    usable]
  rw [freshBook] at checked count
  simp only [Bool.not_true, Bool.false_eq_true, ↓reduceIte, checked, count, Run.ok_bind,
    Run.pure_eq, ne_eq, not_true_eq_false]
  rfl

/-- The desks of a catalog before the first command. -/
structure OpeningDesks (desks : List (InstrumentId × Desk)) : Prop where
  sorted : SortedMap.Sorted instrumentBefore desks
  valid : ∀ instrument desk, (instrument, desk) ∈ desks → desk.Valid instrument
  empty : ∀ instrument desk, (instrument, desk) ∈ desks → desk.ladder = .empty

/-- What an accepted instrument adds. -/
theorem addInstrument_ok {books next : List (InstrumentId × BookEntry)}
    {instrument : InstrumentConfig}
    (added : MultiInstrumentEngine.addInstrument books instrument = .ok next) :
    instrument.instrumentId ≠ 0 ∧ instrument.matching.valid = true ∧
      SortedMap.find? instrument.instrumentId books = none ∧
      next = SortedMap.insert instrumentBefore instrument.instrumentId
        ⟨instrument, freshExecutor instrument⟩ books := by
  rw [MultiInstrumentEngine.addInstrument] at added
  by_cases named : instrument.instrumentId = 0
  · simp [named] at added
  · cases usable : instrument.matching.valid with
    | false => simp [named, usable] at added
    | true =>
      cases present : SortedMap.find? instrument.instrumentId books with
      | some entry => simp [named, usable, present] at added
      | none =>
        simp only [named, usable, present, create_bookEntry named usable, ↓reduceIte, Run.ok_bind,
          Run.pure_eq, Bool.not_true, Bool.false_eq_true, Option.isSome_none,
          Except.ok.injEq] at added
        exact ⟨named, rfl, rfl, added.symm⟩

/-- The desk of an instrument before the first command. -/
theorem openingDesk_valid {instrument : InstrumentConfig} (named : instrument.instrumentId ≠ 0)
    (usable : instrument.matching.valid = true) :
    Desk.Valid instrument.instrumentId ⟨instrument, .empty⟩ where
  configured := rfl
  usable := usable
  ladder := Ladder.Valid.empty named
  limited := by simp [Ladder.orders, Ladder.empty]
  capacity := by simp [Ladder.orders, Ladder.empty]

/-- One more instrument. -/
theorem OpeningDesks.insert {desks : List (InstrumentId × Desk)} (opening : OpeningDesks desks)
    {instrument : InstrumentConfig} (named : instrument.instrumentId ≠ 0)
    (usable : instrument.matching.valid = true)
    (absent : instrument.instrumentId ∉ SortedMap.keys desks) :
    OpeningDesks (SortedMap.insert instrumentBefore instrument.instrumentId ⟨instrument, .empty⟩
      desks) where
  sorted := opening.sorted.insert instrumentBefore_strictOrder _ absent
  valid key desk inside := by
    rcases SortedMap.mem_insert.mp inside with new | old
    · obtain ⟨rfl, rfl⟩ := Prod.mk.inj new
      exact openingDesk_valid named usable
    · exact opening.valid key desk old
  empty key desk inside := by
    rcases SortedMap.mem_insert.mp inside with new | old
    · obtain ⟨rfl, rfl⟩ := Prod.mk.inj new
      rfl
    · exact opening.empty key desk old

/-- The books of a catalog agree with its desks. -/
theorem addInstruments_agree {catalog : List InstrumentConfig}
    {books next : List (InstrumentId × BookEntry)} {desks : List (InstrumentId × Desk)}
    (agree : SortedMap.Agree (fun instrument entry desk => BookAgrees instrument entry desk none)
      books desks) (opening : OpeningDesks desks)
    (added : MultiInstrumentEngine.addInstruments books catalog = .ok next) :
    SortedMap.Agree (fun instrument entry desk => BookAgrees instrument entry desk none) next
        (Market.openingBooks desks catalog) ∧ OpeningDesks (Market.openingBooks desks catalog) := by
  induction catalog generalizing books desks with
  | nil =>
    rw [MultiInstrumentEngine.addInstruments, Except.ok.injEq] at added
    subst added
    exact ⟨agree, opening⟩
  | cons instrument rest ih =>
    rw [MultiInstrumentEngine.addInstruments] at added
    obtain ⟨middle, first, later⟩ := Run.bind_eq_ok.mp added
    obtain ⟨named, usable, absent, rfl⟩ := addInstrument_ok first
    rw [SortedMap.find?_eq_none, agree.keys_eq] at absent
    refine ih (agree.insert instrumentBefore ?_) (opening.insert named usable absent) later
    exact ⟨rfl, rfl, rfl, rfl, rfl, represents_freshBook named, by simp⟩

/-- An accepted catalog opens a valid market. -/
theorem create_stands {catalog : List InstrumentConfig} {config : MultiInstrumentEngineConfig}
    {engine : MultiInstrumentEngine}
    (created : MultiInstrumentEngine.create catalog config = .ok engine) :
    Stands engine (Market.opening catalog config) false none := by
  rw [MultiInstrumentEngine.create] at created
  split_ifs at created
  all_goals simp only [Run.pure_eq, Run.error_bind, reduceCtorEq] at created
  obtain ⟨books, added, made⟩ := Run.bind_eq_ok.mp created
  rw [Except.ok.injEq] at made
  subst made
  obtain ⟨agree, opening⟩ := addInstruments_agree SortedMap.Agree.nil
    ⟨List.Pairwise.nil, by simp, by simp⟩ added
  have none : (Market.opening catalog config).orders = [] := by
    rw [Market.orders, List.flatMap_eq_nil_iff]
    rintro ⟨instrument, desk⟩ inside
    rw [opening.empty instrument desk inside]
    rfl
  exact
    { valid :=
        { sorted := opening.sorted
          desks := opening.valid
          distinct := by simp [none, ids]
          ranked := by simp [none, priorities]
          issued := by simp [none]
          total := by simp [none]
          sequenced := rfl }
      config := rfl
      sequencer := rfl
      active := rfl
      books := agree
      owners := by simp [Market.find, none]
      ranks := by simp [Market.holder, none] }

/-- The empty engine of one instrument. -/
def singleEngine (instrument : InstrumentConfig) (config : MultiInstrumentEngineConfig) :
    MultiInstrumentEngine :=
  ⟨config, [(instrument.instrumentId, ⟨instrument, freshExecutor instrument⟩)], ∅, ∅, .initial,
    false⟩

/-- A usable instrument alone makes an accepted catalog. -/
theorem create_single {instrument : InstrumentConfig} (named : instrument.instrumentId ≠ 0)
    (usable : instrument.matching.valid = true) (config : MultiInstrumentEngineConfig) :
    MultiInstrumentEngine.create [instrument] config = .ok (singleEngine instrument config) := by
  rw [MultiInstrumentEngine.create]
  simp only [MultiInstrumentEngine.addInstruments, MultiInstrumentEngine.addInstrument,
    create_bookEntry named usable, named, usable, Run.ok_bind, Run.pure_eq, List.isEmpty_cons,
    List.length_singleton, SortedMap.find?, Option.isSome_none, Bool.not_true, Bool.false_eq_true,
    ↓reduceIte]
  rfl

/-- The engine of one small instrument is created. -/
theorem session_created : MultiInstrumentEngine.create [⟨1, ⟨100, 5, 3⟩⟩] ⟨2⟩ =
    .ok (singleEngine ⟨1, ⟨100, 5, 3⟩⟩ ⟨2⟩) :=
  create_single (by decide) (by decide) ⟨2⟩

/-- What commands make of the desk of an instrument is held by its book. -/
theorem represents_of_run {catalog : List InstrumentConfig} {config : MultiInstrumentEngineConfig}
    {engine : MultiInstrumentEngine}
    (created : MultiInstrumentEngine.create catalog config = .ok engine) {commands : List Command}
    {instrument : InstrumentId} {desk : Desk}
    (found : ((Market.opening catalog config).run commands).1.desk instrument = some desk) :
    ∃ book, Represents instrument book desk.ladder none := by
  obtain ⟨next, results, -, stands, -⟩ := (create_stands created).run true commands
  obtain ⟨entry, -, agrees⟩ := stands.findBook found
  exact ⟨entry.executor.book, agrees.represents⟩

end AtlasLob
