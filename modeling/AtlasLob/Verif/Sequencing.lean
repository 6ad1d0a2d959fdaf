import AtlasLob.Verif.Independence
import AtlasLob.Verif.Reports

/-!
# Sequences over whole runs

Every reply with events takes the next sequence and nothing else takes one. So the batches of a
run are numbered without a gap, a refusal changes nothing but the counter, and once the last
sequence is taken every command reports that and changes nothing.
-/

namespace AtlasLob

namespace Market

variable {market : Market}

/-- How many sequences a market has issued. -/
def issuedCount (market : Market) : Nat := (snapshotLastSequence market.sequencer).toNat

/-- The next sequence is the one after the last. -/
theorem Valid.next_issued (valid : market.Valid) (unspent : market.sequencer.exhausted = false) :
    market.sequencer.nextSequence.toNat = market.issuedCount + 1 := by
  have positive := Word.toNat_pos (valid.next_ne_zero unspent)
  have one : (1 : UInt64).toNat = 1 := rfl
  have before := Word.toNat_sub_of_toNat_le
    (show (1 : UInt64).toNat ≤ market.sequencer.nextSequence.toNat by omega)
  rw [issuedCount, snapshotLastSequence, unspent, if_neg Bool.false_ne_true, before]
  omega

/-- Issuing takes one sequence. -/
theorem Valid.advance_issued (valid : market.Valid)
    (unspent : market.sequencer.exhausted = false) :
    market.advance.issuedCount = market.issuedCount + 1 := by
  show (snapshotLastSequence market.sequencer.issue.1).toNat = _
  rw [CommandSequencer.snapshotLastSequence_issue unspent, valid.next_issued unspent]

/-- A counter is exhausted when it has issued the last sequence. -/
theorem Valid.exhausted_iff (valid : market.Valid) :
    market.sequencer.exhausted = true ↔ snapshotLastSequence market.sequencer = Word.max64 := by
  cases spent : market.sequencer.exhausted with
  | true => exact ⟨fun _ => by rw [snapshotLastSequence, if_pos spent], fun _ => rfl⟩
  | false =>
    have next := valid.next_issued spent
    have bound := market.sequencer.nextSequence.toNat_lt
    refine ⟨fun never => absurd never Bool.false_ne_true, fun last => ?_⟩
    rw [issuedCount, last] at next
    have maximum : Word.max64.toNat = 2 ^ 64 - 1 := rfl
    omega

/-- A command that replies with events takes the next sequence; any other changes nothing. -/
theorem Valid.step_issues (valid : market.Valid) (command : Command) :
    (∃ payloads, (market.step command).2 = .ok (numberEvents market.sequencer.nextSequence
        command.instrumentId 0 payloads) ∧ payloads.length ≤ 2 ^ 32 ∧
      market.sequencer.exhausted = false ∧
      (market.step command).1.sequencer = market.sequencer.issue.1) ∨
    ((∃ error, (market.step command).2 = .error error) ∧ (market.step command).1 = market) := by
  have outcome := valid.outcome command
  generalize (market.step command).1 = later at outcome ⊢
  generalize (market.step command).2 = reply at outcome ⊢
  cases outcome with
  | spent spent => exact .inr ⟨⟨_, rfl⟩, rfl⟩
  | refused unspent judged => exact .inl ⟨_, rfl, Nat.one_le_two_pow, unspent, rfl⟩
  | overlong unspent found submits aggresses judged long => exact .inr ⟨⟨_, rfl⟩, rfl⟩
  | aggressor unspent found submits aggresses fresh fits judged short =>
    exact .inl ⟨_, rfl, short, unspent, rfl⟩
  | @withdrawal desk order old withdraws unspent found member named owned judged =>
    have short := withdrawalReport_length desk.ladder old
    exact .inl ⟨_, rfl, by omega, unspent, rfl⟩

/-- The replies of a run with events. -/
def batches (market : Market) (commands : List Command) : List (List Event) :=
  (market.run commands).2.filterMap Except.toOption

/-- The events of a run carry the sequences after the last one, without a gap, and their
positions. -/
theorem Valid.run_issues (valid : market.Valid) (commands : List Command) :
    (market.run commands).1.issuedCount = market.issuedCount + (market.batches commands).length ∧
    ∀ (index : Nat) (events : List Event), (market.batches commands)[index]? = some events →
      ∀ (position : Nat) (event : Event), events[position]? = some event →
        event.header.commandSequence.toNat = market.issuedCount + index + 1 ∧
          event.header.eventIndex.toNat = position := by
  unfold batches
  induction commands generalizing market with
  | nil =>
    refine ⟨rfl, ?_⟩
    intro index events found
    cases found
  | cons command rest ih =>
    obtain ⟨count, numbered⟩ := ih (valid.step command)
    simp only [Market.run]
    rcases valid.step_issues command with ⟨payloads, replied, short, unspent, counter⟩ |
      ⟨⟨error, replied⟩, still⟩
    · have later : (market.step command).1.issuedCount = market.issuedCount + 1 := by
        have next := valid.advance_issued unspent
        unfold issuedCount at next ⊢
        rw [counter]
        exact next
      have here := valid.next_issued unspent
      rw [replied, List.filterMap_cons_some (f := Except.toOption) rfl, List.length_cons, count,
        later]
      refine ⟨by omega, ?_⟩
      intro index events found position event member
      cases index with
      | zero =>
        rw [List.getElem?_cons_zero, Option.some.injEq] at found
        subst found
        obtain ⟨sequence, -, placed⟩ := numberEvents_header (by omega) member
        rw [sequence]
        omega
      | succ index =>
        rw [List.getElem?_cons_succ] at found
        have carried := numbered index events found position event member
        omega
    · rw [still] at count numbered
      rw [replied, List.filterMap_cons_none (f := Except.toOption) rfl, still]
      exact ⟨count, numbered⟩

/-- A refusal changes nothing but the counter. -/
theorem Valid.step_rejected (valid : market.Valid) {command : Command}
    (rejected : (market.step command).2.rejected = true) :
    (market.step command).1 = market.advance ∧ market.sequencer.exhausted = false := by
  have outcome := valid.outcome command
  generalize (market.step command).1 = later at outcome ⊢
  generalize (market.step command).2 = reply at outcome rejected
  cases outcome with
  | spent spent => cases rejected
  | refused unspent judged => exact ⟨rfl, unspent⟩
  | overlong unspent found submits aggresses judged long => cases rejected
  | @aggressor desk order replaced opening unspent found submits aggresses fresh fits judged
      short =>
    obtain ⟨rest, opens⟩ := Stands.report_accepted submits desk.ladder market.sequencer.nextSequence
    rw [opens] at rejected
    cases rejected
  | withdrawal withdraws unspent found member named owned judged => cases rejected

/-- Without a sequence left every command reports that and changes nothing. -/
theorem run_exhausted (spent : market.sequencer.exhausted = true) (commands : List Command) :
    market.run commands = (market, commands.map fun _ => .error .sequenceExhausted) := by
  induction commands with
  | nil => rfl
  | cons command rest ih =>
    have still : market.step command = (market, .error .sequenceExhausted) := by
      rw [step, if_pos spent]
    simp only [run, still, ih, List.map_cons]

end Market

/-- An outcome is known by its reply. -/
theorem EngineResult.reply_injective : Function.Injective EngineResult.reply := by
  intro left right same
  cases left with
  | success batch =>
    cases right with
    | success other => rw [EventBatch.ext_events (Except.ok.inj same)]
    | failure error => cases same
  | failure error =>
    cases right with
    | success other => cases same
    | failure other => rw [Except.error.inj same]

/-- The batches of results are the replies with events. -/
theorem batches_of_results {market : Market} {commands : List Command}
    {results : List EngineResult}
    (replies : results.map EngineResult.reply = (market.run commands).2) :
    (results.filterMap EngineResult.batch).map EventBatch.events = market.batches commands := by
  rw [Market.batches, ← replies, List.filterMap_map, List.map_filterMap]
  congr 1
  funext result
  cases result <;> rfl

section Runs

variable (checks : Bool) {engine last : MultiInstrumentEngine} {market : Market}
  {commands : List Command} {results : List EngineResult}

/-- Sequences over whole runs, from every engine that stands for a market. The batches of a run are
numbered from the sequence after the last one on without a gap, and their events by their
positions; nothing but a batch takes a sequence. After the run a command that is refused changes
nothing but the counter, and if the largest sequence has been taken every further command reports
exhaustion and changes nothing, forever. -/
theorem run_sequenced (stands : Stands engine market false none)
    (ran : engine.run checks commands = .ok (last, results)) :
    ∃ before after, engine.snapshot = .ok before ∧ last.snapshot = .ok after ∧
      after.lastSequence.toNat =
        before.lastSequence.toNat + (results.filterMap EngineResult.batch).length ∧
      (∀ (index : Nat) (batch : EventBatch),
        (results.filterMap EngineResult.batch)[index]? = some batch →
        ∀ (position : Nat) (event : Event), batch.events[position]? = some event →
          event.header.commandSequence.toNat = before.lastSequence.toNat + index + 1 ∧
            event.header.eventIndex.toNat = position) ∧
      (∀ command, ∃ next result, last.execute checks command = .ok (next, result) ∧
        (result.rejected = true → ∃ settled, next.snapshot = .ok settled ∧
          settled.lastSequence.toNat = after.lastSequence.toNat + 1 ∧
          settled = { after with
            lastSequence := settled.lastSequence
            sequenceExhausted := settled.sequenceExhausted })) ∧
      (after.sequenceExhausted = true ↔ after.lastSequence = Word.max64) ∧
      (after.sequenceExhausted = true → ∀ later, ∃ final,
        last.run checks later =
          .ok (final, later.map fun _ => .failure .sequenceExhausted) ∧
        final.snapshot = .ok after) := by
  obtain ⟨next, outcomes, again, stays, replies⟩ := stands.run checks commands
  rw [ran, Except.ok.injEq, Prod.mk.injEq] at again
  obtain ⟨rfl, rfl⟩ := again
  have leases : Stands.Leases false none := by simp [Stands.Leases]
  obtain ⟨count, numbered⟩ := stands.valid.run_issues commands
  rw [← batches_of_results replies, List.length_map] at count
  refine ⟨_, _, stands.snapshot leases, stays.snapshot leases, count, ?_, ?_,
    stays.valid.exhausted_iff, ?_⟩
  · intro index batch found
    apply numbered index
    rw [← batches_of_results replies, List.getElem?_map, found]
    rfl
  · intro command
    obtain ⟨next, result, executed, settles, replied⟩ := stays.execute checks command
    refine ⟨next, result, executed, ?_⟩
    intro rejected
    rw [← EngineResult.reply_rejected, replied] at rejected
    obtain ⟨advanced, unspent⟩ := stays.valid.step_rejected rejected
    rw [advanced] at settles
    exact ⟨_, settles.snapshot leases, stays.valid.advance_issued unspent, rfl⟩
  · intro spent later
    obtain ⟨final, refusals, ran, still, answers⟩ := stays.run checks later
    rw [Market.run_exhausted spent] at still answers
    refine ⟨final, ?_, still.snapshot leases⟩
    have all : refusals = later.map fun _ => .failure .sequenceExhausted := by
      apply List.map_injective_iff.mpr EngineResult.reply_injective
      rw [answers, List.map_map]
      rfl
    rw [ran, all]

end Runs

/-- A refusal and an order take the first two sequences. -/
theorem run_sequenced_single :
    ∃ last results after, (singleEngine ⟨1, ⟨100, 5, 3⟩⟩ ⟨2⟩).run true
        [.cancel ⟨1, 1, 1⟩, .newOrder ⟨1, 1, 1, .buy, .limit, .gtc, some 15, 7⟩] =
          .ok (last, results) ∧
      last.snapshot = .ok after ∧ after.lastSequence.toNat = 2 := by
  have stands := create_stands session_created
  obtain ⟨last, results, ran, stays, replies⟩ := stands.run true
    [.cancel ⟨1, 1, 1⟩, .newOrder ⟨1, 1, 1, .buy, .limit, .gtc, some 15, 7⟩]
  obtain ⟨before, after, first, taken, count, _⟩ := run_sequenced true stands ran
  refine ⟨last, results, after, ran, taken, ?_⟩
  rw [stands.snapshot (by simp [Stands.Leases]), Except.ok.injEq] at first
  rw [count, ← first, ← List.length_map EventBatch.events, batches_of_results replies]
  decide +kernel

end AtlasLob
