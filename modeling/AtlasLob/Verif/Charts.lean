import AtlasLob.Spec.Candles

/-!
# Charts show the raw trades

A projection that was built by accepted calls stands for the trades of those calls. From that
alone it follows what its candles and its summary say, that the history rebuilds it, and that a
call that raises has not touched it.
-/

namespace AtlasLob.Charts

open History

section Bars

instance : Std.Associative Bar.merge where
  assoc first second third := by
    simp only [Bar.merge, Bar.mk.injEq, true_and]
    exact ⟨max_assoc _ _ _, min_assoc _ _ _, Int.add_assoc _ _ _⟩

/-- The bar of raw trades, none without trades. -/
def barOf (trades : List TradeEvent) : Option Bar := summary Bar.merge tradeBar trades

/-- No trades leave no bar. -/
theorem barOf_nil : barOf [] = none := rfl

/-- A bar opens at the first price. -/
theorem barOf_opening (trades : List TradeEvent) :
    (barOf trades).map Bar.opening = (trades.map TradeEvent.executionPrice).head? := by
  cases trades with
  | nil => rfl
  | cons trade rest =>
    rw [barOf, summary_cons]
    cases summary Bar.merge tradeBar rest <;> rfl

/-- A bar closes at the last price. -/
theorem barOf_close (trades : List TradeEvent) :
    (barOf trades).map Bar.close = (trades.map TradeEvent.executionPrice).getLast? := by
  rcases List.eq_nil_or_concat trades with rfl | ⟨init, trade, rfl⟩
  · rfl
  · rw [List.concat_eq_append, barOf, summary_snoc, List.map_append, List.map_singleton,
      List.getLast?_concat]
    cases summary Bar.merge tradeBar init <;> rfl

/-- The high of a bar is the greatest price. -/
theorem barOf_high (trades : List TradeEvent) :
    (barOf trades).map Bar.high = (trades.map TradeEvent.executionPrice).max? := by
  induction trades with
  | nil => rfl
  | cons trade rest ih =>
    rw [barOf, summary_cons, List.map_cons, List.max?_cons, ← ih, barOf]
    cases summary Bar.merge tradeBar rest <;> rfl

/-- The low of a bar is the least price. -/
theorem barOf_low (trades : List TradeEvent) :
    (barOf trades).map Bar.low = (trades.map TradeEvent.executionPrice).min? := by
  induction trades with
  | nil => rfl
  | cons trade rest ih =>
    rw [barOf, summary_cons, List.map_cons, List.min?_cons, ← ih, barOf]
    cases summary Bar.merge tradeBar rest <;> rfl

/-- The volume of a bar is the exact sum of the quantities. -/
theorem barOf_volume (trades : List TradeEvent) :
    ((barOf trades).map Bar.volume).getD 0 = volumeOf trades := by
  induction trades with
  | nil => rfl
  | cons trade rest ih =>
    rw [volumeOf, List.map_cons, List.sum_cons, ← volumeOf, ← ih, barOf, summary_cons, barOf]
    cases summary Bar.merge tradeBar rest with
    | none => exact (Int.add_zero _).symm
    | some bar => rfl

/-- Longer histories have merged bars. -/
theorem barOf_append (front back : List TradeEvent) :
    barOf (front ++ back) = Option.merge Bar.merge (barOf front) (barOf back) :=
  summary_append Bar.merge tradeBar front back

/-- The candle of a bar and the candle of its trades are one. -/
theorem candleOf_eq (first last : Int) (trades : List TradeEvent) :
    candleOf first last trades =
      { startSequence := str first
        endSequence := str last
        opening := (barOf trades).map fun bar => str bar.opening
        high := (barOf trades).map fun bar => str bar.high
        low := (barOf trades).map fun bar => str bar.low
        close := (barOf trades).map fun bar => str bar.close
        volume := ((barOf trades).map fun bar => str bar.volume).getD ['0'] } := by
  have volume : str (volumeOf trades) =
      ((barOf trades).map fun bar => str bar.volume).getD ['0'] := by
    rw [← barOf_volume]
    cases barOf trades with
    | none => decide
    | some bar => rfl
  unfold candleOf
  simp only
  rw [← barOf_opening, ← barOf_high, ← barOf_low, ← barOf_close, volume]
  simp only [Option.map_map]
  rfl

end Bars

section Loops

/-- What a gathering loop leaves under an instrument. -/
theorem mergeInto_eq (bars : Dict Bar) (instrument : Int) (bar : Bar) :
    some (mergeInto bars instrument bar) =
      Option.merge Bar.merge bars[instrument]? (some bar) := by
  unfold mergeInto
  cases bars[instrument]? <;> rfl

/-- The trades that a command may have, after a given event index. -/
def Proper (commands : Dict (Dict Bar)) (sequence : Int) : Int → List TradeEvent → Prop
  | _, [] => True
  | previousIndex, trade :: rest =>
    tradeRefused commands sequence previousIndex trade = false ∧
      Proper commands sequence trade.header.eventIndex rest

/-- Proper trades are gathered by instrument. -/
theorem gather_ok {commands : Dict (Dict Bar)} {sequence : Int} (events : List Event)
    (previousIndex : Int) (pending : Dict Bar)
    (proper : Proper commands sequence previousIndex (tradeEvents events)) :
    ∃ after, gather commands sequence events previousIndex pending = .ok after ∧
      ∀ instrument, after[instrument]? =
        Option.merge Bar.merge pending[instrument]?
          (barOf (tradesOf instrument (tradeEvents events))) := by
  induction events generalizing previousIndex pending with
  | nil =>
    refine ⟨pending, rfl, fun instrument => ?_⟩
    exact (Option.merge_none_right).symm
  | cons event rest ih =>
    cases event with
    | other => exact ih previousIndex pending proper
    | trade trade =>
      obtain ⟨allowed, later⟩ := proper
      obtain ⟨after, gathered, found⟩ := ih trade.header.eventIndex
        (pending.insert trade.header.instrumentId
          (mergeInto pending trade.header.instrumentId (tradeBar trade))) later
      refine ⟨after, ?_, fun instrument => ?_⟩
      · rw [gather, allowed, if_neg Bool.false_ne_true]
        exact gathered
      · have split : tradesOf instrument (tradeEvents (.trade trade :: rest)) =
            tradesOf instrument [trade] ++ tradesOf instrument (tradeEvents rest) :=
          tradesOf_append instrument [trade] (tradeEvents rest)
        rw [found, split, barOf_append, Std.ExtTreeMap.getElem?_insert]
        by_cases own : trade.header.instrumentId = instrument
        · have one : barOf (tradesOf instrument [trade]) = some (tradeBar trade) := by
            rw [tradesOf_own own]
            rfl
          rw [if_pos (Std.LawfulEqOrd.compare_eq_iff_eq.mpr own), mergeInto_eq, one, own]
          exact Std.Associative.assoc _ _ _
        · have none : barOf (tradesOf instrument [trade]) = none := by
            rw [tradesOf_other own]
            rfl
          rw [if_neg (mt Std.LawfulEqOrd.compare_eq_iff_eq.mp own), none, Option.merge_none_left]

/-- Other trades are refused. -/
theorem gather_refuses {commands : Dict (Dict Bar)} {sequence : Int} (events : List Event)
    (previousIndex : Int) (pending : Dict Bar)
    (improper : ¬Proper commands sequence previousIndex (tradeEvents events)) :
    ∃ error, gather commands sequence events previousIndex pending = .error error := by
  induction events generalizing previousIndex pending with
  | nil => exact absurd trivial improper
  | cons event rest ih =>
    cases event with
    | other => exact ih previousIndex pending improper
    | trade trade =>
      rw [gather]
      by_cases refused : tradeRefused commands sequence previousIndex trade = true
      · rw [if_pos refused]
        exact ⟨_, rfl⟩
      · rw [if_neg refused]
        exact ih _ _ fun later => improper ⟨Bool.eq_false_iff.mpr refused, later⟩

/-- A trade is allowed when it is the command's, comes later, has a known instrument and a
quantity. -/
theorem tradeRefused_eq_false {commands : Dict (Dict Bar)} {sequence previousIndex : Int}
    {trade : TradeEvent} :
    tradeRefused commands sequence previousIndex trade = false ↔
      trade.header.commandSequence = sequence ∧ previousIndex < trade.header.eventIndex ∧
        trade.header.instrumentId ∈ commands ∧ 0 < trade.executionQuantity := by
  simp only [tradeRefused, Bool.or_eq_false_iff, decide_eq_false_iff_not, not_not, Int.not_le,
    Bool.not_eq_false', Std.ExtTreeMap.contains_iff_mem, and_assoc]

/-- Proper trades are the command's, with known instruments and quantities, in rising order. -/
theorem proper_iff {commands : Dict (Dict Bar)} {sequence : Int} (trades : List TradeEvent)
    (previousIndex : Int) :
    Proper commands sequence previousIndex trades ↔
      (∀ trade ∈ trades, trade.header.commandSequence = sequence ∧
        previousIndex < trade.header.eventIndex ∧ trade.header.instrumentId ∈ commands ∧
        0 < trade.executionQuantity) ∧
      trades.Pairwise fun earlier later =>
        earlier.header.eventIndex < later.header.eventIndex := by
  induction trades generalizing previousIndex with
  | nil => exact iff_of_true trivial ⟨List.forall_mem_nil _, List.Pairwise.nil⟩
  | cons trade rest ih =>
    rw [Proper, tradeRefused_eq_false, ih, List.forall_mem_cons, List.pairwise_cons]
    constructor
    · intro proper
      obtain ⟨head, tail, rising⟩ := proper
      refine ⟨⟨head, fun other inside => ?_⟩, fun other inside => (tail other inside).2.1, rising⟩
      have found := tail other inside
      exact ⟨found.1, Int.lt_trans head.2.1 found.2.1, found.2.2⟩
    · intro proper
      obtain ⟨⟨head, tail⟩, later, rising⟩ := proper
      refine ⟨head, fun other inside => ?_, rising⟩
      have found := tail other inside
      exact ⟨found.1, later other inside, found.2.2⟩

end Loops

section Calls

variable {α β : Type}

/-- A statement that returns hands its value and its projection on. -/
theorem Call.bind_ok {call : Call α} {next : α → Call β} {projection after : Projection} {value : α}
    (returns : call projection = (.ok value, after)) :
    (call >>= next) projection = next value after := by
  show ExceptT.bind call next projection = next value after
  simp only [ExceptT.bind, ExceptT.mk, bind, StateT.bind, returns]
  rfl

/-- A statement that raises ends the method. -/
theorem Call.bind_error {call : Call α} {next : α → Call β} {projection after : Projection}
    {error : ChartError} (raises : call projection = (.error error, after)) :
    (call >>= next) projection = (.error error, after) := by
  show ExceptT.bind call next projection = (.error error, after)
  simp only [ExceptT.bind, ExceptT.mk, bind, StateT.bind, raises]
  rfl

/-- A method reads its projection. -/
theorem Call.get_run (projection : Projection) :
    (get : Call Projection) projection = (.ok projection, projection) := rfl

/-- A pure step that returns leaves the projection. -/
theorem Call.lift_ok {step : Except ChartError α} {value : α} (projection : Projection)
    (returns : step = .ok value) :
    (liftM step : Call α) projection = (.ok value, projection) := by
  rw [returns]
  rfl

/-- A pure step that raises leaves the projection. -/
theorem Call.lift_error {step : Except ChartError α} {error : ChartError}
    (projection : Projection) (raises : step = .error error) :
    (liftM step : Call α) projection = (.error error, projection) := by
  rw [raises]
  rfl

/-- One bar is stored under a known instrument. -/
theorem storeBar_run {sequence instrument : Int} {bar : Bar} {projection : Projection}
    {bars : Dict Bar} (known : projection.commands[instrument]? = some bars) :
    storeBar sequence instrument bar projection =
      (.ok (), { projection with commands :=
        projection.commands.insert instrument (bars.insert sequence bar) }) := by
  unfold storeBar
  rw [Call.bind_ok (Call.get_run projection), known]
  rfl

/-- Bars of different known instruments are all stored, and nothing else. -/
theorem storeBars_run (sequence : Int) (entries : List (Int × Bar)) (projection : Projection)
    (distinct : (entries.map Prod.fst).Nodup)
    (known : ∀ entry ∈ entries, entry.1 ∈ projection.commands) :
    ∃ commands, entries.forM (fun entry => storeBar sequence entry.1 entry.2) projection =
        (.ok ⟨⟩, { projection with commands := commands }) ∧
      (∀ entry ∈ entries, commands[entry.1]? =
        projection.commands[entry.1]?.map fun bars => bars.insert sequence entry.2) ∧
      ∀ instrument, instrument ∉ entries.map Prod.fst →
        commands[instrument]? = projection.commands[instrument]? := by
  induction entries generalizing projection with
  | nil => exact ⟨projection.commands, rfl, List.forall_mem_nil _, fun _ _ => rfl⟩
  | cons entry rest ih =>
    rw [List.map_cons, List.nodup_cons] at distinct
    rw [List.forall_mem_cons, Std.ExtTreeMap.mem_iff_isSome_getElem?,
      Option.isSome_iff_exists] at known
    obtain ⟨⟨bars, found⟩, others⟩ := known
    obtain ⟨commands, runs, stored, kept⟩ := ih
      { projection with commands :=
        projection.commands.insert entry.1 (bars.insert sequence entry.2) } distinct.2
      fun other inside => Std.ExtTreeMap.mem_insert.mpr (Or.inr (others other inside))
    have elsewhere : ∀ instrument, instrument ≠ entry.1 →
        (projection.commands.insert entry.1 (bars.insert sequence entry.2))[instrument]? =
          projection.commands[instrument]? := by
      intro instrument apart
      rw [Std.ExtTreeMap.getElem?_insert,
        if_neg (mt Std.LawfulEqOrd.compare_eq_iff_eq.mp (Ne.symm apart))]
    refine ⟨commands, ?_, List.forall_mem_cons.mpr ⟨?_, fun other inside => ?_⟩, ?_⟩
    · show (storeBar sequence entry.1 entry.2 >>= fun _ =>
        rest.forM fun entry => storeBar sequence entry.1 entry.2) projection = _
      rw [Call.bind_ok (storeBar_run found)]
      exact runs
    · rw [kept entry.1 distinct.1, Std.ExtTreeMap.getElem?_insert_self, found, Option.map_some]
    · have apart : other.1 ≠ entry.1 :=
        fun same => distinct.1 (same ▸ List.mem_map_of_mem inside)
      rw [stored other inside]
      exact congrArg _ (elsewhere other.1 apart)
    · intro instrument outside
      rw [List.map_cons, List.mem_cons, not_or] at outside
      rw [kept instrument outside.2]
      exact elsewhere instrument outside.1

/-- A command with proper trades advances the projection by its bars. -/
theorem applyCommand_ok {sequence : Int} {events : List Event} {projection : Projection}
    (next : sequence = projection.sequence + 1)
    (proper : Proper projection.commands sequence (-1) (tradeEvents events)) :
    ∃ after, applyCommand sequence events projection = (.ok (), after) ∧
      after.sequence = sequence ∧
      (∀ instrument, after.totals[instrument]? =
        Option.merge Bar.merge projection.totals[instrument]?
          (barOf (tradesOf instrument (tradeEvents events)))) ∧
      ∀ instrument, after.commands[instrument]? =
        projection.commands[instrument]?.map fun bars =>
          (barOf (tradesOf instrument (tradeEvents events))).elim bars (bars.insert sequence) := by
  obtain ⟨pending, gathered, found⟩ := gather_ok events (-1) ∅ proper
  have bars : ∀ instrument, pending[instrument]? =
      barOf (tradesOf instrument (tradeEvents events)) := by
    intro instrument
    rw [found, Std.ExtTreeMap.getElem?_empty, Option.merge_none_left]
  have distinct : (pending.toList.map Prod.fst).Nodup := by
    rw [Std.ExtTreeMap.map_fst_toList_eq_keys]
    exact Std.ExtTreeMap.nodup_keys
  have entry_iff : ∀ instrument bar, (instrument, bar) ∈ pending.toList ↔
      pending[instrument]? = some bar :=
    fun instrument bar => Std.ExtTreeMap.mem_toList_iff_getElem?_eq_some
  have known : ∀ entry ∈ pending.toList, entry.1 ∈ projection.commands := by
    intro entry inside
    have present := (entry_iff entry.1 entry.2).mp inside
    rw [bars] at present
    have some : tradesOf entry.1 (tradeEvents events) ≠ [] := by
      intro none
      rw [none] at present
      cases present
    obtain ⟨trade, member⟩ := List.exists_mem_of_ne_nil _ some
    rw [tradesOf, List.mem_filter, decide_eq_true_eq] at member
    rw [← member.2]
    exact (((proper_iff _ _).mp proper).1 trade member.1).2.2.1
  obtain ⟨commands, runs, stored, kept⟩ :=
    storeBars_run sequence pending.toList projection distinct known
  refine ⟨⟨sequence, commands, projection.totals ∪
    pending.map fun instrument bar => mergeInto projection.totals instrument bar⟩, ?_, rfl, ?_, ?_⟩
  · unfold applyCommand
    rw [Call.bind_ok (Call.get_run projection), if_neg (not_not.mpr next)]
    beta_reduce
    rw [Call.bind_ok (Call.lift_ok projection gathered), Call.bind_ok runs]
    rfl
  · intro instrument
    show (projection.totals ∪ _)[instrument]? = _
    rw [Std.ExtTreeMap.getElem?_union, Std.ExtTreeMap.getElem?_map, ← bars]
    cases pending[instrument]? with
    | none => rw [Option.map_none, Option.none_or, Option.merge_none_right]
    | some bar => rw [Option.map_some, Option.some_or, mergeInto_eq]
  · intro instrument
    show commands[instrument]? = _
    rw [← bars]
    cases held : pending[instrument]? with
    | none =>
      have outside : instrument ∉ pending.toList.map Prod.fst := by
        intro inside
        obtain ⟨entry, member, rfl⟩ := List.mem_map.mp inside
        have present := (entry_iff entry.1 entry.2).mp member
        rw [held] at present
        cases present
      rw [kept instrument outside]
      exact (Option.map_id_apply).symm
    | some bar => exact stored (instrument, bar) ((entry_iff instrument bar).mpr held)

/-- Any other command is refused, and the projection is as it was. -/
theorem applyCommand_refuses {sequence : Int} {events : List Event} {projection : Projection}
    (unfit : ¬(sequence = projection.sequence + 1 ∧
      Proper projection.commands sequence (-1) (tradeEvents events))) :
    ∃ error, applyCommand sequence events projection = (.error error, projection) := by
  unfold applyCommand
  rw [Call.bind_ok (Call.get_run projection)]
  by_cases next : sequence = projection.sequence + 1
  · rw [if_neg (not_not.mpr next)]
    obtain ⟨error, refused⟩ := gather_refuses events (-1) ∅ fun proper => unfit ⟨next, proper⟩
    exact ⟨error, Call.bind_error (Call.lift_error projection refused)⟩
  · rw [if_pos next]
    exact ⟨_, rfl⟩

/-- A command that raises leaves the projection unchanged. -/
theorem applyCommand_unchanged {sequence : Int} {events : List Event}
    {projection after : Projection} {error : ChartError}
    (raises : applyCommand sequence events projection = (.error error, after)) :
    after = projection := by
  by_cases fit : sequence = projection.sequence + 1 ∧
      Proper projection.commands sequence (-1) (tradeEvents events)
  · obtain ⟨_, returns, _⟩ := applyCommand_ok fit.1 fit.2
    rw [returns] at raises
    cases (Prod.mk.inj raises).1
  · obtain ⟨_, refused⟩ := applyCommand_refuses fit
    rw [refused] at raises
    exact (Prod.mk.inj raises).2.symm

end Calls

section Histories

/-- A trade comes before another one. -/
def Earlier (first second : TradeEvent) : Prop :=
  commandOf first < commandOf second ∨
    commandOf first = commandOf second ∧ first.header.eventIndex < second.header.eventIndex

/-- The projection stands for a history of raw trades. -/
structure Stands (projection : Projection) (history : List TradeEvent) : Prop where
  /-- Commands are counted up from zero. -/
  counted : 0 ≤ projection.sequence
  /-- There are two instruments. -/
  known : ∀ instrument, instrument ∈ projection.commands ↔ instrument = 7 ∨ instrument = 42
  /-- The bar of a command is the bar of its trades. -/
  bars : ∀ instrument bars, projection.commands[instrument]? = some bars →
    ∀ sequence, bars[sequence]? = barOf (tradesIn instrument sequence sequence history)
  /-- The bar of the session is the bar of all trades. -/
  totals : ∀ instrument, projection.totals[instrument]? = barOf (tradesOf instrument history)
  /-- Every trade belongs to a command so far, and is proper. -/
  proper : ∀ trade ∈ history, 1 ≤ commandOf trade ∧ commandOf trade ≤ projection.sequence ∧
    -1 < trade.header.eventIndex ∧
    (trade.header.instrumentId = 7 ∨ trade.header.instrumentId = 42) ∧
    0 < trade.executionQuantity
  /-- Trades stand in order. -/
  ordered : history.Pairwise Earlier

variable {projection after : Projection} {history : List TradeEvent}

/-- An ordered history is ordered by command. -/
theorem ordered_by_command (ordered : history.Pairwise Earlier) (instrument : Int) :
    (tradesOf instrument history).Pairwise fun earlier later =>
      commandOf earlier ≤ commandOf later := by
  refine (ordered.imp ?_).filter _
  intro first second before
  cases before with
  | inl less => exact Int.le_of_lt less
  | inr same => exact Int.le_of_eq same.1

/-- A longer history has the trades of both parts. -/
theorem tradesIn_append (instrument first last : Int) (front back : List TradeEvent) :
    tradesIn instrument first last (front ++ back) =
      tradesIn instrument first last front ++ tradesIn instrument first last back := by
  rw [tradesIn, tradesOf_append, within, List.filter_append]
  rfl

/-- A fresh projection stands for no trades. -/
theorem Stands.create : Stands Projection.create [] where
  counted := Int.le_refl 0
  known := by
    intro instrument
    rw [Projection.create, Std.ExtTreeMap.mem_insert, Std.ExtTreeMap.mem_insert,
      Std.LawfulEqOrd.compare_eq_iff_eq, Std.LawfulEqOrd.compare_eq_iff_eq]
    constructor
    · rintro (last | first | impossible)
      · exact Or.inr last.symm
      · exact Or.inl first.symm
      · exact absurd impossible Std.ExtTreeMap.not_mem_empty
    · rintro (rfl | rfl)
      · exact Or.inr (Or.inl rfl)
      · exact Or.inl rfl
  bars := by
    intro instrument bars found sequence
    have empty : bars = ∅ := by
      rw [Projection.create, Std.ExtTreeMap.getElem?_insert,
        Std.ExtTreeMap.getElem?_insert] at found
      split at found
      · exact (Option.some.inj found).symm
      · split at found
        · exact (Option.some.inj found).symm
        · rw [Std.ExtTreeMap.getElem?_empty] at found
          cases found
    rw [empty, Std.ExtTreeMap.getElem?_empty]
    rfl
  totals instrument := Std.ExtTreeMap.getElem?_empty
  proper := List.forall_mem_nil _
  ordered := List.Pairwise.nil

/-- An accepted command makes the projection stand for its trades too. -/
theorem Stands.apply (stands : Stands projection history) {sequence : Int} {events : List Event}
    (returns : applyCommand sequence events projection = (.ok (), after)) :
    Stands after (history ++ tradeEvents events) ∧ after.sequence = projection.sequence + 1 := by
  have fit : sequence = projection.sequence + 1 ∧
      Proper projection.commands sequence (-1) (tradeEvents events) := by
    by_contra unfit
    obtain ⟨_, refused⟩ := applyCommand_refuses unfit
    rw [refused] at returns
    cases (Prod.mk.inj returns).1
  obtain ⟨next, proper⟩ := fit
  obtain ⟨_, result, counted, totals, commands⟩ := applyCommand_ok next proper
  rw [returns] at result
  obtain rfl := (Prod.mk.inj result).2
  obtain ⟨each, rising⟩ := (proper_iff _ _).mp proper
  have positive := stands.counted
  refine ⟨⟨?_, ?_, ?_, ?_, ?_, ?_⟩, counted.trans next⟩
  · omega
  · intro instrument
    rw [← stands.known, Std.ExtTreeMap.mem_iff_isSome_getElem?,
      Std.ExtTreeMap.mem_iff_isSome_getElem?, commands, Option.isSome_map]
  · intro instrument bars found place
    rw [commands, Option.map_eq_some_iff] at found
    obtain ⟨before, held, rfl⟩ := found
    have old := stands.bars instrument before held place
    rw [tradesIn_append, barOf_append, ← old]
    by_cases own : place = sequence
    · subst own
      have none : before[place]? = none := by
        rw [old]
        have nothing : tradesIn instrument place place history = [] := by
          rw [tradesIn, within_single, List.filter_eq_nil_iff]
          intro trade inside same
          have bound := (stands.proper trade (List.mem_of_mem_filter inside)).2.1
          rw [decide_eq_true_eq] at same
          omega
        rw [nothing]
        rfl
      have whole : tradesIn instrument place place (tradeEvents events) =
          tradesOf instrument (tradeEvents events) := by
        refine within_all fun trade inside => ?_
        have same := (each trade (List.mem_of_mem_filter inside)).1
        rw [commandOf, same]
        exact ⟨Int.le_refl _, Int.le_refl _⟩
      rw [none, Option.merge_none_left, whole]
      cases barOf (tradesOf instrument (tradeEvents events)) with
      | none => exact none
      | some bar => exact Std.ExtTreeMap.getElem?_insert_self
    · have nothing : tradesIn instrument place place (tradeEvents events) = [] := by
        rw [tradesIn, within_single, List.filter_eq_nil_iff]
        intro trade inside same
        have command := (each trade (List.mem_of_mem_filter inside)).1
        rw [decide_eq_true_eq, commandOf, command] at same
        exact own same.symm
      rw [nothing, barOf_nil, Option.merge_none_right]
      cases barOf (tradesOf instrument (tradeEvents events)) with
      | none => rfl
      | some bar =>
        show (before.insert sequence bar)[place]? = before[place]?
        rw [Std.ExtTreeMap.getElem?_insert,
          if_neg (mt Std.LawfulEqOrd.compare_eq_iff_eq.mp (Ne.symm own))]
  · intro instrument
    rw [totals, stands.totals, tradesOf_append, barOf_append]
  · refine List.forall_mem_append.mpr ⟨fun trade inside => ?_, fun trade inside => ?_⟩
    · have old := stands.proper trade inside
      exact ⟨old.1, by omega, old.2.2⟩
    · have new := each trade inside
      rw [commandOf, new.1]
      exact ⟨by omega, by omega, new.2.1, (stands.known _).mp new.2.2.1, new.2.2.2⟩
  · refine List.pairwise_append.mpr ⟨stands.ordered, ?_, fun first before second inside => ?_⟩
    · refine rising.imp_of_mem fun {first second} firstIn secondIn less => Or.inr ⟨?_, less⟩
      rw [commandOf, commandOf, (each first firstIn).1, (each second secondIn).1]
    · have old := (stands.proper first before).2.1
      have new := (each second inside).1
      refine Or.inl ?_
      rw [commandOf, commandOf, new] at *
      omega

/-- Accepted calls make the projection stand for all their trades. -/
theorem Stands.calls {calls : List (Int × List Event)} (stands : Stands projection history)
    (accepted : Accepted projection calls after) :
    Stands after (history ++ rawTrades calls) ∧
      after.sequence = projection.sequence + calls.length := by
  induction accepted generalizing history with
  | none projection =>
    rw [rawTrades, List.flatMap_nil, List.append_nil, List.length_nil]
    exact ⟨stands, (Int.add_zero _).symm⟩
  | call returns later ih =>
    obtain ⟨next, counted⟩ := stands.apply returns
    obtain ⟨last, total⟩ := ih next
    rw [rawTrades, List.flatMap_cons, ← List.append_assoc, List.length_cons]
    refine ⟨last, ?_⟩
    rw [total, counted]
    push_cast
    ring

/-- A history and a number of commands determine the projection. -/
theorem Stands.unique {other : Projection} (stands : Stands projection history)
    (others : Stands other history) (same : projection.sequence = other.sequence) :
    projection = other := by
  have totals : projection.totals = other.totals := by
    apply Std.ExtTreeMap.ext_getElem?
    intro instrument
    rw [stands.totals, others.totals]
  have commands : projection.commands = other.commands := by
    apply Std.ExtTreeMap.ext_getElem?
    intro instrument
    have known : instrument ∈ projection.commands ↔ instrument ∈ other.commands :=
      (stands.known instrument).trans (others.known instrument).symm
    rw [Std.ExtTreeMap.mem_iff_isSome_getElem?, Std.ExtTreeMap.mem_iff_isSome_getElem?] at known
    cases first : projection.commands[instrument]? with
    | none =>
      cases second : other.commands[instrument]? with
      | none => rfl
      | some bars =>
        rw [first, second] at known
        cases known.mpr rfl
    | some left =>
      cases second : other.commands[instrument]? with
      | none =>
        rw [first, second] at known
        cases known.mp rfl
      | some right =>
        have equal : left = right := by
          apply Std.ExtTreeMap.ext_getElem?
          intro sequence
          rw [stands.bars instrument left first, others.bars instrument right second]
        rw [equal]
  cases projection
  cases other
  simp only at same totals commands
  rw [same, totals, commands]

end Histories

end AtlasLob.Charts
