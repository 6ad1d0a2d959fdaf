import AtlasLob.Verif.Identities

/-!
# Publishing a command

Committing what a command prepared ends in the market after the command, with the reply of the
market. A refusal only moves the counter.
-/

namespace AtlasLob

open PriceLevel Index

/-- An outcome as a market replies. -/
def EngineResult.reply : EngineResult → Market.Reply
  | success batch => .ok batch.events
  | failure error => .error error

namespace Stands

variable {engine : MultiInstrumentEngine} {market : Market} {active : Bool}
  {lease : Option (InstrumentId × Option Pending)} {prepared : PreparedMultiInstrumentCommand}
  {batch : EventBatch} {instrument : InstrumentId} {desk : Desk} {entry : BookEntry}
  (checks : Bool)

/-- An engine after the last steps of a publication. -/
def closed (engine : MultiInstrumentEngine) (market : Market) : MultiInstrumentEngine :=
  { engine with sequencer := market.sequencer.issue.1, preparationActive := false }

/-- The last steps of a publication succeed. -/
theorem publish (settled : MultiInstrumentEngine) (prepared : PreparedMultiInstrumentCommand)
    (batch : EventBatch) {after : Market} (sequencer : settled.sequencer = market.sequencer)
    (unspent : market.sequencer.exhausted = false) (live : settled.preparationActive = true)
    (owned : prepared.owned = true) (reserved : prepared.sequence = market.sequencer.nextSequence)
    (stands : Stands (closed settled market) after false none) :
    settled.publish checks prepared batch =
      .ok (closed settled market, prepared.consume, .success batch) := by
  have issued : settled.sequencer.issue =
      (market.sequencer.issue.1, some market.sequencer.nextSequence) := by
    rw [sequencer, ← CommandSequencer.issue_next unspent]
  have checked := stands.validateInvariants (by simp [Leases])
  rw [closed] at checked ⊢
  rw [MultiInstrumentEngine.publish, MultiInstrumentEngine.publishSequence, issued]
  simp only [reserved, ↓reduceIte, Run.ok_bind]
  rw [MultiInstrumentEngine.releaseOwner]
  simp only [owned, live, Bool.not_true, Bool.false_eq_true, ↓reduceIte]
  cases checks with
  | true => simp only [↓reduceIte, checked, Run.ok_bind, Run.pure_eq, Bool.not_true,
      Bool.false_eq_true]
  | false => simp only [Bool.false_eq_true, ↓reduceIte, Run.ok_bind, Run.pure_eq, Bool.not_true]

/-- The counter moves and the lease of the engine ends. -/
theorem advance (stands : Stands engine market active none)
    (unspent : market.sequencer.exhausted = false) :
    Stands (closed engine market) market.advance false none :=
  ⟨stands.valid.advance unspent, stands.config, rfl, rfl, stands.books, stands.owners,
    stands.ranks⟩

/-- A published command leads to the market after it. -/
theorem settled {pending : Option Pending} {book : InstrumentBook} {after : Ladder}
    {owners : ActiveOrderDirectory} {ranks : ActivePriorityDirectory}
    (stands : Stands engine market active (some (instrument, pending)))
    (agrees : BookAgrees instrument entry desk (some pending))
    (represents : Represents instrument book after none)
    (valid : (market.setLadder instrument desk after).advance.Valid)
    (owned : ∀ orderId, owners[orderId]? =
      ((market.setLadder instrument desk after).advance.find orderId).map identityOf)
    (ranked : ∀ sequence, ranks[sequence]? =
      ((market.setLadder instrument desk after).advance.holder sequence).map
        OrderNodeSpec.orderId) :
    Stands (closed (MultiInstrumentEngine.setExecutor
        { engine with activeOrders := owners, activePriorities := ranks } instrument entry
        { entry.executor with book := book, preparationActive := false }) market)
      (market.setLadder instrument desk after).advance false none where
  valid := valid
  config := stands.config
  sequencer := rfl
  active := rfl
  books := by
    refine stands.books.set_other stands.keys_nodup (fun key value image apart related => ?_) ?_
    · have free : leaseAt (some (instrument, pending)) key = none := if_neg (Ne.symm apart)
      rwa [free] at related
    · exact ⟨agrees.config, agrees.placed, agrees.policy, agrees.counter, rfl, represents,
        by simp [leaseAt]⟩
  owners := owned
  ranks := ranked

variable {pending : Option Pending} {staged : PreparedCommandExecution} {after : Ladder}
  {change : OrderNodeSpec → Option OrderNodeSpec} {added : Option OrderNodeSpec}
  {leavers : List OrderNodeSpec} {command : Command}

/-- A command that its book prepared at the next sequence, with the identities it changes. -/
def stagedCommand (market : Market) (command : Command) (staged : PreparedCommandExecution)
    (leavers : List OrderNodeSpec) (added : Option OrderNodeSpec) :
    PreparedMultiInstrumentCommand :=
  .staged command market.sequencer.nextSequence command.instrumentId staged
    (leavers.map identityRemoval) (added.map fun order => (order.orderId, identityOf order))
    (added.map fun order => (order.prioritySequence, order.orderId))

@[simp] theorem stagedCommand_command (market : Market) (command : Command)
    (staged : PreparedCommandExecution) (leavers : List OrderNodeSpec)
    (added : Option OrderNodeSpec) :
    (stagedCommand market command staged leavers added).command = command := rfl

@[simp] theorem stagedCommand_removals (market : Market) (command : Command)
    (staged : PreparedCommandExecution) (leavers : List OrderNodeSpec)
    (added : Option OrderNodeSpec) :
    (stagedCommand market command staged leavers added).removals = leavers.map identityRemoval :=
  rfl

@[simp] theorem stagedCommand_addition (market : Market) (command : Command)
    (staged : PreparedCommandExecution) (leavers : List OrderNodeSpec)
    (added : Option OrderNodeSpec) :
    (stagedCommand market command staged leavers added).addition =
      added.map fun order => (order.orderId, identityOf order) := rfl

@[simp] theorem stagedCommand_priorityAddition (market : Market) (command : Command)
    (staged : PreparedCommandExecution) (leavers : List OrderNodeSpec)
    (added : Option OrderNodeSpec) :
    (stagedCommand market command staged leavers added).priorityAddition =
      added.map fun order => (order.prioritySequence, order.orderId) := rfl

/-- Publishing what an accepted command staged. -/
theorem commitStaged_accepted
    (stands : Stands engine market true (some (command.instrumentId, pending)))
    (unspent : market.sequencer.exhausted = false)
    (found : market.desk command.instrumentId = some desk)
    (commits : ∀ entry, BookAgrees command.instrumentId entry desk (some pending) →
      ∃ book, entry.executor.commit checks staged =
          .ok ({ entry.executor with book := book, preparationActive := false }, staged.consume,
            .ok batch) ∧
        Represents command.instrumentId book after none)
    (accepted : batch.rejected = false) (result : staged.batch = some batch)
    (delta : engine.identityDeltaValid (stagedCommand market command staged leavers added) batch =
      true)
    (shrinks : Shrinks change)
    (changed : after.orders.Perm (added.toList ++ desk.ladder.orders.filterMap change))
    (gone : ∀ order ∈ desk.ladder.orders, change order = none ↔ order.orderId ∈ ids leavers)
    (inside : ∀ leaver ∈ leavers, leaver ∈ desk.ladder.orders) (apart : (ids leavers).Nodup)
    (fresh : ∀ order ∈ added, order.orderId ∉ ids market.orders)
    (latest : ∀ order ∈ added, order.prioritySequence = market.sequencer.nextSequence)
    (valid : (market.setLadder command.instrumentId desk after).advance.Valid) :
    ∃ next, engine.commit checks (stagedCommand market command staged leavers added) =
        .ok (next, (stagedCommand market command staged leavers added).consume,
          .success batch) ∧
      Stands next (market.setLadder command.instrumentId desk after).advance false none := by
  obtain ⟨first, second, owners, ranks, adds, removes, ownersAfter, ranksAfter⟩ :=
    stands.exchangeIdentities unspent found shrinks changed gone inside apart fresh latest valid
  obtain ⟨entry, book, agrees⟩ := stands.findBook found
  rw [leaseAt, if_pos rfl] at agrees
  obtain ⟨next, committed, represents⟩ := commits entry agrees
  have located : MultiInstrumentEngine.findBook
      { engine with activeOrders := owners, activePriorities := ranks } command.instrumentId =
        some entry := book
  have done := stands.settled agrees represents valid ownersAfter ranksAfter
  have publishes := Stands.publish checks (MultiInstrumentEngine.setExecutor
      { engine with activeOrders := owners, activePriorities := ranks } command.instrumentId entry
      { entry.executor with book := next, preparationActive := false })
    (stagedCommand market command staged leavers added) batch stands.sequencer unspent
    stands.active rfl rfl done
  refine ⟨_, ?_, done⟩
  rw [← publishes]
  rw [MultiInstrumentEngine.commit]
  simp only [stagedCommand, PreparedMultiInstrumentCommand.staged, result,
    MultiInstrumentEngine.commitStaged] at delta ⊢
  simp only [accepted, delta, adds, removes,
    MultiInstrumentEngine.commitBook, located, committed, Run.ok_bind, Run.pure_eq, Bool.not_true,
    Bool.false_eq_true, ↓reduceIte]

/-- Publishing a refusal that the book staged. -/
theorem commitStaged_refused
    (stands : Stands engine market true (some (command.instrumentId, none)))
    (unspent : market.sequencer.exhausted = false)
    (found : market.desk command.instrumentId = some desk) (rejected : batch.rejected = true) :
    ∃ next, engine.commit checks (stagedCommand market command
        { PreparedCommandExecution.immediate (.ok batch) with leased := true } [] none) =
          .ok (next, (stagedCommand market command
            { PreparedCommandExecution.immediate (.ok batch) with leased := true } []
            none).consume, .success batch) ∧
      Stands next market.advance false none := by
  obtain ⟨entry, book, agrees⟩ := stands.findBook found
  rw [leaseAt, if_pos rfl] at agrees
  have released := stands.release found agrees agrees.represents
  have done := released.advance unspent
  have publishes := Stands.publish checks (engine.setExecutor command.instrumentId entry
      { entry.executor with preparationActive := false })
    (stagedCommand market command
      { PreparedCommandExecution.immediate (.ok batch) with leased := true } [] none) batch
    stands.sequencer unspent stands.active rfl rfl done
  refine ⟨_, ?_, done⟩
  rw [← publishes]
  rw [MultiInstrumentEngine.commit]
  simp only [stagedCommand, PreparedMultiInstrumentCommand.staged,
    MultiInstrumentEngine.commitStaged, rejected,
    show PreparedCommandExecution.batch { PreparedCommandExecution.immediate (.ok batch) with
      leased := true } = some batch from rfl,
    MultiInstrumentEngine.commitBook, book, Represents.commit_immediate checks agrees.leased,
    Run.ok_bind, Run.pure_eq, Bool.not_true, Bool.false_eq_true, ↓reduceIte, List.map_nil,
    List.isEmpty_nil, Option.map_none, Option.isSome_none, Bool.or_self]

/-- What a desk does with a command the market accepts. -/
theorem judgeAdmitted_of_judge {ladder : Ladder} {report : List EventPayload}
    (found : market.desk command.instrumentId = some desk)
    (judged : market.judge command = .accept ladder report) :
    market.judgeAdmitted command desk = .accept ladder report := by
  rw [Market.judge] at judged
  split_ifs at judged
  rw [found] at judged
  simp only [Market.judgeAt] at judged
  split_ifs at judged
  exact judged

variable {order : NewOrder} {replaced : Option OrderNodeSpec} {opening : List EventPayload}

/-- Publishing an aggressor. -/
theorem commit_aggressor
    (stands : Stands engine market true (some (command.instrumentId,
      Aggresses.pending desk.ladder order replaced market.sequencer.nextSequence)))
    (unspent : market.sequencer.exhausted = false)
    (found : market.desk command.instrumentId = some desk)
    (admitted : Admitted market desk command)
    (submits : Submits command order replaced opening)
    (aggresses : Aggresses command.instrumentId desk.ladder order replaced
      market.sequencer.nextSequence)
    (fresh : order.orderId ∉ ids market.orders)
    (judged : market.judge command = .accept
      (desk.ladder.after order replaced market.sequencer.nextSequence)
      (desk.ladder.report order replaced market.sequencer.nextSequence opening))
    (fits : desk.ladder.overflows order replaced = false)
    (events : batch.events = numberEvents market.sequencer.nextSequence command.instrumentId 0
      (desk.ladder.report order replaced market.sequencer.nextSequence opening))
    (staged : PreparedCommandExecution)
    (execution : staged = { stagedExecution command.instrumentId.toNat desk.ladder order replaced
      market.sequencer.nextSequence batch with leased := true })
    (prepared : PreparedMultiInstrumentCommand)
    (holds : prepared = stagedCommand market command staged (desk.ladder.leavers order replaced)
      (Aggresses.newcomer desk.ladder order market.sequencer.nextSequence)) :
    ∃ next, engine.commit checks prepared = .ok (next, prepared.consume, .success batch) ∧
      Stands next (market.setLadder command.instrumentId desk
        (desk.ladder.after order replaced market.sequencer.nextSequence)).advance false none := by
  have commits : ∀ entry, BookAgrees command.instrumentId entry desk
      (some (Aggresses.pending desk.ladder order replaced market.sequencer.nextSequence)) →
        ∃ book, entry.executor.commit checks staged =
          .ok ({ entry.executor with book := book, preparationActive := false }, staged.consume,
            .ok batch) ∧
        Represents command.instrumentId book
          (desk.ladder.after order replaced market.sequencer.nextSequence) none := by
    intro entry agrees
    have represents := agrees.represents
    rw [Option.join_some] at represents
    obtain ⟨book, rest, mutated, settled, after⟩ :=
      represents.mutate_staged checks command.instrumentId.toNat aggresses fits batch true
    rw [← execution] at mutated
    rw [← agrees.placed] at mutated
    refine ⟨book, Represents.commit_ok checks ?_ ?_ ?_ agrees.leased ?_ mutated settled after ?_,
      after⟩
    all_goals rw [execution]
    · rfl
    · cases replaced <;> simp [stagedExecution]
    · rfl
    · rfl
  have result : staged.batch = some batch := by
    rw [execution]
    rfl
  obtain ⟨rest, opens⟩ := report_accepted submits desk.ladder market.sequencer.nextSequence
  have accepted := (accepted_of_events (events.trans (by rw [opens]))).2
  have delta : engine.identityDeltaValid prepared batch = true := by
    rw [holds]
    exact stands.identityDeltaValid_aggressor unspent found submits aggresses fresh events
      (stagedCommand_command ..) (stagedCommand_removals ..) (stagedCommand_addition ..)
      (stagedCommand_priorityAddition ..)
  rw [holds] at delta ⊢
  refine stands.commitStaged_accepted checks unspent found commits accepted result delta
    (settle_shrinks _) (Aggresses.after_perm desk.ladder order replaced _)
    (fun resting member => aggresses.executable_all.settle_eq_none_iff aggresses.valid member)
    (fun leaver leaves => aggresses.mem_leavers leaves) aggresses.leavers_distinct ?_ ?_
    (stands.valid.accepted unspent found admitted (judgeAdmitted_of_judge found judged))
  · intro rested rests
    rw [(Market.Valid.newcomer_orderId rests).1]
    exact fresh
  · intro rested rests
    exact (Market.Valid.newcomer_orderId rests).2

/-- Publishing a withdrawal. -/
theorem commit_withdrawal {order : CancelOrder} {old : OrderNodeSpec}
    (stands : Stands engine market true (some (order.instrumentId, none)))
    (unspent : market.sequencer.exhausted = false)
    (found : market.desk order.instrumentId = some desk)
    (admitted : Admitted market desk (.cancel order)) (member : old ∈ desk.ladder.orders)
    (named : old.orderId = order.orderId) (owned : old.clientId = order.clientId)
    (judged : market.judge (.cancel order) = .accept (desk.ladder.without old)
      (desk.ladder.withdrawalReport old))
    (events : batch.events = numberEvents market.sequencer.nextSequence order.instrumentId 0
      (desk.ladder.withdrawalReport old))
    (staged : PreparedCommandExecution)
    (execution : staged = { withdrawnExecution desk.ladder old batch with leased := true })
    (prepared : PreparedMultiInstrumentCommand)
    (holds : prepared = stagedCommand market (.cancel order) staged [old] none) :
    ∃ next, engine.commit checks prepared = .ok (next, prepared.consume, .success batch) ∧
      Stands next (market.setLadder order.instrumentId desk (desk.ladder.without old)).advance
        false none := by
  have commits : ∀ entry, BookAgrees order.instrumentId entry desk (some none) →
      ∃ book, entry.executor.commit checks staged =
          .ok ({ entry.executor with book := book, preparationActive := false }, staged.consume,
            .ok batch) ∧
        Represents order.instrumentId book (desk.ladder.without old) none := by
    intro entry agrees
    obtain ⟨book, mutated, after⟩ := agrees.represents.mutate_withdrawn checks
      entry.executor.address member batch true
    rw [← execution] at mutated
    refine ⟨book, Represents.commit_ok checks ?_ ?_ ?_ agrees.leased ?_ mutated (Or.inl rfl) after
      ?_, after⟩
    all_goals rw [execution]
    · rfl
    · simp [withdrawnExecution]
    · rfl
    · rfl
  have result : staged.batch = some batch := by
    rw [execution]
    rfl
  have accepted := (accepted_of_events events).2
  have delta : engine.identityDeltaValid prepared batch = true := by
    rw [holds]
    exact stands.identityDeltaValid_withdrawal unspent found member named owned events
      (stagedCommand_command ..) (stagedCommand_removals ..) (stagedCommand_addition ..)
      (stagedCommand_priorityAddition ..)
  have valid := (stands.valid.desk_valid found).ladder
  have executable := Represents.executable_removalOf valid member
  have changed : (desk.ladder.without old).orders.Perm ((none : Option OrderNodeSpec).toList ++
      desk.ladder.orders.filterMap (settle [removalOf old])) := by
    rw [Ladder.without, Ladder.orders_revise]
    exact List.Perm.refl _
  rw [holds] at delta ⊢
  have judgedHere : market.judgeAdmitted (.cancel order) desk =
      .accept (desk.ladder.without old) (desk.ladder.withdrawalReport old) :=
    judgeAdmitted_of_judge found judged
  have here : market.desk (Command.cancel order).instrumentId = some desk := found
  have after : (market.setLadder order.instrumentId desk (desk.ladder.without old)).advance.Valid :=
    stands.valid.accepted unspent here admitted judgedHere
  refine stands.commitStaged_accepted checks unspent found commits accepted result delta
    (settle_shrinks _) changed ?_ ?_ ?_ (by simp) (by simp) after
  · intro resting inside
    have gone := executable.settle_eq_none_iff valid inside
    simpa [exhausted, removalOf] using gone
  · intro leaver leaves
    rw [List.mem_singleton.mp leaves]
    exact member
  · simp [ids]

end Stands

namespace Prepares

variable {market : Market} {command : Command} {engine : MultiInstrumentEngine}
  {prepared : PreparedMultiInstrumentCommand} (checks : Bool)

/-- A prepared command is committed to the market after it. -/
theorem commit (prepares : Prepares market command engine prepared) :
    ∃ next result, engine.commit checks prepared = .ok (next, prepared.consume, result) ∧
      Stands next (market.step command).1 false none ∧
      result.reply = (market.step command).2 := by
  cases prepares with
  | @failed error stands replied =>
    refine ⟨engine, .failure error, rfl, ?_, ?_⟩
    · rw [replied]
      exact stands
    · rw [replied]
      rfl
  | @refused batch decision stands unspent judged events =>
    have stepped : market.step command =
        (market.advance, .ok (Market.refusal market.sequencer.nextSequence command decision)) := by
      simp only [Market.step, unspent, judged, Bool.false_eq_true, ↓reduceIte]
    have next := stands.advance unspent
    refine ⟨_, .success batch, Stands.publish checks engine (.refused command
      market.sequencer.nextSequence batch) batch stands.sequencer unspent stands.active rfl rfl
      next, ?_, ?_⟩
    · rw [stepped]
      exact next
    · rw [stepped, EngineResult.reply, events]
  | @overflowed batch desk decision stands unspent found judged events =>
    have stepped : market.step command =
        (market.advance, .ok (Market.refusal market.sequencer.nextSequence command decision)) := by
      simp only [Market.step, unspent, judged, Bool.false_eq_true, ↓reduceIte]
    obtain ⟨next, committed, done⟩ := stands.commitStaged_refused checks unspent found
      (Stands.rejected_of_events events)
    refine ⟨next, .success batch, committed, ?_, ?_⟩
    · rw [stepped]
      exact done
    · rw [stepped, EngineResult.reply, events]
  | @aggressor batch desk order replaced opening stands unspent found admitted submits aggresses
      fresh judged fits short events =>
    have stepped : market.step command = ((market.setLadder command.instrumentId desk
        (desk.ladder.after order replaced market.sequencer.nextSequence)).advance,
          .ok (numberEvents market.sequencer.nextSequence command.instrumentId 0
            (desk.ladder.report order replaced market.sequencer.nextSequence opening))) := by
      simp only [Market.step, unspent, judged, Bool.false_eq_true, ↓reduceIte, if_neg short,
        Market.withLadder_of_desk found]
    obtain ⟨next, committed, done⟩ := stands.commit_aggressor checks unspent found admitted submits
      aggresses fresh judged fits events _ rfl _ rfl
    refine ⟨next, .success batch, committed, ?_, ?_⟩
    · rw [stepped]
      exact done
    · rw [stepped, EngineResult.reply, events]
  | @withdrawal batch desk old stands unspent found admitted member withdraws judged events =>
    obtain ⟨order, rfl, named, owned⟩ := withdraws
    have short : ¬ 2 ^ 32 < (desk.ladder.withdrawalReport old).length := by
      rw [Ladder.withdrawalReport, Ladder.changeEvents]
      split_ifs <;> simp
    have stepped : market.step (.cancel order) =
        ((market.setLadder order.instrumentId desk (desk.ladder.without old)).advance,
          .ok (numberEvents market.sequencer.nextSequence order.instrumentId 0
            (desk.ladder.withdrawalReport old))) := by
      simp only [Market.step, unspent, judged, Bool.false_eq_true, ↓reduceIte, if_neg short,
        Market.withLadder_of_desk found]
      rfl
    obtain ⟨next, committed, done⟩ := stands.commit_withdrawal checks unspent found admitted member
      named owned judged events _ rfl _ rfl
    refine ⟨next, .success batch, committed, ?_, ?_⟩
    · rw [stepped]
      exact done
    · rw [stepped, EngineResult.reply, events]
      rfl

end Prepares

end AtlasLob
