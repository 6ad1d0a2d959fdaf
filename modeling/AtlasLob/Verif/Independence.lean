import AtlasLob.Spec.Isolation
import AtlasLob.Verif.Equivariance
import AtlasLob.Verif.Reports

/-!
# What a run does not depend on

Two more laws about two runs. Refused commands can be deleted, and the commands of other
instruments can be rearranged or deleted: what is left of the run is the same up to the numbering
of the commands, which increases strictly.
-/

namespace AtlasLob

open PriceLevel

/-- Whether an outcome is a refusal. -/
def EngineResult.rejected (result : EngineResult) : Bool := result.batch.any EventBatch.rejected

/-- A numbering that increases strictly on the sequences that a counter has issued. -/
def Renumbers (renumbering : Sequence → Sequence) (sequencer : CommandSequencer) : Prop :=
  ∀ first second : Sequence, 0 < first → first < second → second < sequencer.nextSequence →
    renumbering first < renumbering second

/-- A run of some commands from the initial engine has given outcomes and ends with given books of
an engine, up to a strictly increasing renumbering. -/
def Reruns (checks : Bool) (initial engine : MultiInstrumentEngine) (commands : List Command)
    (outcomes : List EngineResult) (books : EngineSnapshot → List InstrumentSnapshot) : Prop :=
  ∃ short results snapshot shortSnapshot, ∃ renumbering : Sequence → Sequence,
    initial.run checks commands = .ok (short, results) ∧
      Renumbers renumbering short.sequencer ∧
      outcomes.map EngineResult.reply =
        (results.map EngineResult.reply).map (Relabeling.renumber renumbering).reply ∧
      engine.snapshot = .ok snapshot ∧ short.snapshot = .ok shortSnapshot ∧
        books snapshot =
          (books shortSnapshot).map (Relabeling.renumber renumbering).instrumentSnapshot

/-- The commands of a run that were not refused. -/
def unrefused (commands : List Command) (results : List EngineResult) : List Command :=
  ((commands.zip results).filter fun entry => !entry.2.rejected).map Prod.fst

/-- Whether a reply is a refusal. -/
def Market.Reply.rejected : Market.Reply → Bool
  | .ok (event :: _) => event.payload.isRejected
  | .ok [] => false
  | .error _ => false

/-- An outcome and its reply are refusals together. -/
theorem EngineResult.reply_rejected (result : EngineResult) :
    Market.Reply.rejected result.reply = result.rejected := by
  cases result with
  | success batch =>
    cases events : batch.events <;>
      simp [reply, rejected, EngineResult.batch, EventBatch.rejected, events,
        Market.Reply.rejected]
  | failure error => rfl

namespace Market

/-- Whether a command is not refused. -/
def accepts (market : Market) (command : Command) : Bool :=
  !(market.step command).2.rejected

/-- A refusal leaves the books alone. -/
theorem Valid.step_refused {market : Market} (valid : market.Valid) {command : Command}
    (refused : market.accepts command = false) :
    (market.step command).1.books = market.books := by
  rw [accepts, Bool.not_eq_false'] at refused
  have outcome := valid.outcome command
  generalize (market.step command).1 = later at outcome ⊢
  generalize (market.step command).2 = reply at outcome refused
  cases outcome with
  | spent spent => rfl
  | refused unspent judged => rfl
  | overlong unspent found submits aggresses judged long => rfl
  | @aggressor desk order replaced opening unspent found submits aggresses fresh fits judged
      short =>
    obtain ⟨rest, opens⟩ := Stands.report_accepted submits desk.ladder market.sequencer.nextSequence
    rw [opens] at refused
    cases refused
  | withdrawal withdraws unspent found member named owned judged => cases refused

/-- The commands that are not refused, read off the replies. -/
theorem schedule_accepts (market : Market) (commands : List Command) :
    (market.schedule accepts commands).map Prod.snd =
      ((commands.zip (market.run commands).2).filter fun entry =>
        !Reply.rejected entry.2).map Prod.fst := by
  induction commands generalizing market with
  | nil => rfl
  | cons command rest ih =>
    simp only [schedule, List.map_append, ih, run, List.zip_cons_cons, List.filter_cons]
    cases rejected : (market.step command).2.rejected <;> simp [accepts, rejected]

/-- The replies to them. -/
theorem keptReplies_accepts (market : Market) (commands : List Command) :
    market.keptReplies accepts commands =
      (market.run commands).2.filter fun reply => !Reply.rejected reply := by
  induction commands generalizing market with
  | nil => rfl
  | cons command rest ih =>
    simp only [keptReplies, ih, run, List.filter_cons]
    cases rejected : (market.step command).2.rejected <;> simp [accepts, rejected]

end Market

variable (checks : Bool) {catalog : List InstrumentConfig} {config : MultiInstrumentEngineConfig}
  {initial engine : MultiInstrumentEngine} {commands : List Command} {results : List EngineResult}

/-- The commands of a run that were not refused, from the outcomes or from the replies. -/
theorem unrefused_replies (commands : List Command) (results : List EngineResult) :
    unrefused commands results =
      ((commands.zip (results.map EngineResult.reply)).filter fun entry =>
        !Market.Reply.rejected entry.2).map Prod.fst := by
  induction commands generalizing results with
  | nil => rfl
  | cons command rest ih =>
    cases results with
    | nil => rfl
    | cons result others =>
      have later := ih others
      simp only [unrefused, List.map_cons, List.zip_cons_cons, List.filter_cons,
        EngineResult.reply_rejected] at later ⊢
      cases result.rejected <;> simp [later]

/-- Refused commands do not matter: deleting them from a run that does not exhaust the sequences
leaves the outcome of every other command and the final books the same, up to a strictly
increasing renumbering. -/
theorem run_without_refused (created : MultiInstrumentEngine.create catalog config = .ok initial)
    (ran : initial.run checks commands = .ok (engine, results))
    (unspent : engine.sequencer.exhausted = false) :
    Reruns checks initial engine (unrefused commands results)
      (results.filter fun result => !result.rejected) EngineSnapshot.instruments := by
  have stands := create_stands created
  obtain ⟨next, outcomes, again, after, replies⟩ := stands.run checks commands
  rw [ran, Except.ok.injEq, Prod.mk.injEq] at again
  obtain ⟨rfl, rfl⟩ := again
  obtain ⟨short, shortResults, shortRan, shortAfter, shortReplies⟩ :=
    stands.run checks (unrefused commands results)
  have kept : unrefused commands results =
      ((Market.opening catalog config).schedule Market.accepts commands).map Prod.snd := by
    rw [unrefused_replies, replies, Market.schedule_accepts]
  obtain ⟨renumbering, increasing, images, answered⟩ :=
    @Market.run_part Market.accepts id (fun _ => rfl) (fun _ => rfl) Market.Valid commands
      (fun market valid command _ => ⟨fun _ => rfl, fun refused => valid.step_refused refused⟩)
      (fun market valid command _ => valid.step command) _ stands.valid stands.valid
      (by rw [← after.sequencer]; exact unspent)
  simp only [id_eq, ← kept] at increasing images answered
  refine ⟨short, shortResults, _, _, renumbering, shortRan, ?_, ?_,
    after.snapshot (by simp [Stands.Leases]), shortAfter.snapshot (by simp [Stands.Leases]),
    images.instruments⟩
  · intro first second positive ordered below
    rw [shortAfter.sequencer] at below
    exact increasing.mono first second (UInt64.lt_iff_toNat_lt.mp positive) ordered
      (UInt64.lt_iff_toNat_lt.mp below)
  · rw [shortReplies, ← answered, Market.keptReplies_accepts, ← replies, List.filter_map]
    congr 1
    exact List.filter_congr fun result _ => by simp [EngineResult.reply_rejected]

/-- A refused withdrawal is deleted before an order that rests. -/
theorem run_without_refused_single :
    ∃ engine results, (singleEngine ⟨1, ⟨100, 5, 3⟩⟩ ⟨2⟩).run true
        [.cancel ⟨1, 1, 1⟩, .newOrder ⟨1, 1, 1, .buy, .limit, .gtc, some 15, 7⟩] =
          .ok (engine, results) ∧
      unrefused [.cancel ⟨1, 1, 1⟩, .newOrder ⟨1, 1, 1, .buy, .limit, .gtc, some 15, 7⟩] results =
        [.newOrder ⟨1, 1, 1, .buy, .limit, .gtc, some 15, 7⟩] ∧
      Reruns true (singleEngine ⟨1, ⟨100, 5, 3⟩⟩ ⟨2⟩) engine
        (unrefused [.cancel ⟨1, 1, 1⟩, .newOrder ⟨1, 1, 1, .buy, .limit, .gtc, some 15, 7⟩]
          results) (results.filter fun result => !result.rejected) EngineSnapshot.instruments := by
  obtain ⟨engine, results, ran, after, replies⟩ := (create_stands session_created).run true
    [.cancel ⟨1, 1, 1⟩, .newOrder ⟨1, 1, 1, .buy, .limit, .gtc, some 15, 7⟩]
  refine ⟨engine, results, ran, ?_, run_without_refused true session_created ran ?_⟩
  · rw [unrefused_replies, replies]
    decide +kernel
  · rw [after.sequencer]
    decide +kernel

/-- The outcomes of the commands of an instrument. -/
def outcomesOf (instrument : InstrumentId) (commands : List Command)
    (results : List EngineResult) : List EngineResult :=
  ((commands.zip results).filter fun entry => entry.1.instrumentId = instrument).map Prod.snd

/-- The books of an instrument in a snapshot. -/
def EngineSnapshot.booksOf (instrument : InstrumentId) (snapshot : EngineSnapshot) :
    List InstrumentSnapshot :=
  snapshot.instruments.filter fun book => book.instrumentId = instrument

/-- The replies to the commands of an instrument. -/
theorem outcomesOf_replies (instrument : InstrumentId) (commands : List Command)
    (results : List EngineResult) :
    (outcomesOf instrument commands results).map EngineResult.reply =
      ((commands.zip (results.map EngineResult.reply)).filter fun entry =>
        entry.1.instrumentId = instrument).map Prod.snd := by
  induction commands generalizing results with
  | nil => rfl
  | cons command rest ih =>
    cases results with
    | nil => rfl
    | cons result others =>
      have later := ih others
      simp only [outcomesOf, List.map_cons, List.zip_cons_cons, List.filter_cons] at later ⊢
      by_cases own : command.instrumentId = instrument <;> simp [own, later]

/-- The books of an instrument are those of its own market. -/
theorem booksOf_snapshot (instrument : InstrumentId) (market : Market) :
    market.snapshot.booksOf instrument = (market.only instrument).snapshot.instruments := by
  simp only [EngineSnapshot.booksOf, Market.snapshot, Market.only, List.filter_map]
  rfl

/-- An accepted catalog opens an isolated market when its limits together stay within the limit of
the whole market. -/
theorem isolated_opening {home : OrderId → InstrumentId}
    (stands : Stands initial (Market.opening catalog config) false none)
    (roomy : (catalog.map fun instrument => instrument.matching.maxActiveOrders.toNat).sum ≤
      config.maxTotalActiveOrders.toNat) :
    (Market.opening catalog config).Isolated home := by
  have sums : ∀ (books : List (InstrumentId × Desk)),
      ((Market.openingBooks books catalog).map fun entry =>
        entry.2.config.matching.maxActiveOrders.toNat).sum =
      (books.map fun entry => entry.2.config.matching.maxActiveOrders.toNat).sum +
        (catalog.map fun instrument => instrument.matching.maxActiveOrders.toNat).sum := by
    clear stands roomy
    induction catalog with
    | nil => intro books; rfl
    | cons first rest ih =>
      intro books
      obtain ⟨front, back, split, inserted⟩ := SortedMap.insert_split instrumentBefore
        first.instrumentId (Desk.mk first .empty) books
      rw [Market.openingBooks, ih, inserted, split]
      simp only [List.map_append, List.map_cons, List.sum_append, List.sum_cons]
      omega
  refine ⟨stands.valid, ?_, ?_⟩
  · have total := sums []
    rw [Market.Roomy]
    show (List.map _ (Market.openingBooks [] catalog)).sum ≤ config.maxTotalActiveOrders.toNat
    rw [total]
    simpa using roomy
  · intro order member
    obtain ⟨named, desk, present, inside⟩ := Market.mem_orders.mp member
    rcases Relabeling.openingBooks_members present with absent | ⟨-, empty⟩
    · cases absent
    · rw [empty] at inside
      cases inside

/-- Instruments are isolated: where every nonzero order ID is used with one instrument and the
limit of the whole engine is at least the limits of its instruments together, the outcomes of the
commands of an instrument and its final book are those of a run of these commands alone, up to a
strictly increasing renumbering. -/
theorem run_isolated (created : MultiInstrumentEngine.create catalog config = .ok initial)
    (roomy : (catalog.map fun instrument => instrument.matching.maxActiveOrders.toNat).sum ≤
      config.maxTotalActiveOrders.toNat)
    (housed : ∃ home, ∀ command ∈ commands, command.Housed home)
    (ran : initial.run checks commands = .ok (engine, results))
    (unspent : engine.sequencer.exhausted = false) (instrument : InstrumentId) :
    Reruns checks initial engine
      (commands.filter fun command => command.instrumentId = instrument)
      (outcomesOf instrument commands results) (EngineSnapshot.booksOf instrument) := by
  obtain ⟨home, housed⟩ := housed
  have stands := create_stands created
  have isolated : (Market.opening catalog config).Isolated home := isolated_opening stands roomy
  obtain ⟨next, outcomes, again, after, replies⟩ := stands.run checks commands
  rw [ran, Except.ok.injEq, Prod.mk.injEq] at again
  obtain ⟨rfl, rfl⟩ := again
  obtain ⟨alone, aloneResults, aloneRan, aloneAfter, aloneReplies⟩ := stands.run checks
    (commands.filter fun command => command.instrumentId = instrument)
  have alike := @Market.Isolated.run_only _ instrument _ isolated
    (commands.filter fun command => command.instrumentId = instrument)
    (fun command member => housed command (List.mem_of_mem_filter member))
    (fun command member => of_decide_eq_true (List.mem_filter.mp member).2)
  obtain ⟨renumbering, increasing, images, answered⟩ :=
    @Market.run_part (fun _ command => command.instrumentId = instrument)
      (Market.only instrument) (fun _ => rfl) (fun _ => rfl) (Market.Isolated home) commands
      (fun market isolated command member => isolated.follows (housed command member) instrument)
      (fun market isolated command member => isolated.step (housed command member)) _ isolated
      (stands.valid.only instrument) (by rw [← after.sequencer]; exact unspent)
  rw [Market.schedule_only, alike] at increasing images answered
  refine ⟨alone, aloneResults, _, _, renumbering, aloneRan, ?_, ?_,
    after.snapshot (by simp [Stands.Leases]), aloneAfter.snapshot (by simp [Stands.Leases]), ?_⟩
  · intro first second positive ordered below
    rw [aloneAfter.sequencer] at below
    exact increasing.mono first second (UInt64.lt_iff_toNat_lt.mp positive) ordered
      (UInt64.lt_iff_toNat_lt.mp below)
  · rw [outcomesOf_replies, aloneReplies, replies, ← Market.keptReplies_only]
    exact answered
  · rw [booksOf_snapshot, booksOf_snapshot]
    exact images.instruments

/-- Two usable instruments make an accepted catalog. -/
theorem create_pair {first second : InstrumentConfig} (firstNamed : first.instrumentId ≠ 0)
    (firstUsable : first.matching.valid = true) (secondNamed : second.instrumentId ≠ 0)
    (secondUsable : second.matching.valid = true)
    (apart : first.instrumentId ≠ second.instrumentId) (config : MultiInstrumentEngineConfig) :
    ∃ engine, MultiInstrumentEngine.create [first, second] config = .ok engine := by
  rw [MultiInstrumentEngine.create]
  simp only [MultiInstrumentEngine.addInstruments, MultiInstrumentEngine.addInstrument,
    create_bookEntry firstNamed firstUsable, create_bookEntry secondNamed secondUsable, firstNamed,
    firstUsable, secondNamed, secondUsable, apart, Run.ok_bind, Run.pure_eq, List.isEmpty_cons,
    List.length_cons, List.length_nil, SortedMap.find?, SortedMap.insert, Option.isSome_none,
    Bool.not_true, Bool.false_eq_true, ↓reduceIte]
  exact ⟨_, rfl⟩

/-- An order of the second instrument behind one of the first. -/
theorem run_isolated_pair :
    ∃ initial engine results,
      MultiInstrumentEngine.create [⟨1, ⟨100, 5, 3⟩⟩, ⟨2, ⟨100, 5, 3⟩⟩] ⟨6⟩ = .ok initial ∧
        initial.run true [.newOrder ⟨1, 1, 1, .buy, .limit, .gtc, some 15, 7⟩,
          .newOrder ⟨1, 2, 2, .sell, .limit, .gtc, some 10, 3⟩] = .ok (engine, results) ∧
        Reruns true initial engine [.newOrder ⟨1, 2, 2, .sell, .limit, .gtc, some 10, 3⟩]
          (outcomesOf 2 [.newOrder ⟨1, 1, 1, .buy, .limit, .gtc, some 15, 7⟩,
            .newOrder ⟨1, 2, 2, .sell, .limit, .gtc, some 10, 3⟩] results)
          (EngineSnapshot.booksOf 2) := by
  obtain ⟨initial, created⟩ := @create_pair ⟨1, ⟨100, 5, 3⟩⟩ ⟨2, ⟨100, 5, 3⟩⟩ (by decide)
    (by decide) (by decide) (by decide) (by decide) ⟨6⟩
  obtain ⟨engine, results, ran, after, -⟩ := (create_stands created).run true
    [.newOrder ⟨1, 1, 1, .buy, .limit, .gtc, some 15, 7⟩,
      .newOrder ⟨1, 2, 2, .sell, .limit, .gtc, some 10, 3⟩]
  refine ⟨initial, engine, results, created, ran,
    run_isolated true created (by decide) ⟨fun orderId => orderId.toUInt32, ?_⟩ ran ?_ 2⟩
  · intro command member orderId named nonzero
    simp only [List.mem_cons, List.not_mem_nil, or_false] at member
    rcases member with rfl | rfl
    · rw [List.mem_singleton.mp named]
      rfl
    · rw [List.mem_singleton.mp named]
      rfl
  · rw [after.sequencer]
    decide +kernel

end AtlasLob
