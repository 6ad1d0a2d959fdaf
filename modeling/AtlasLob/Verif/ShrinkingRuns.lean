import AtlasLob.Verif.ShrinkingCosts

/-!
# Runs of the reducers

A run of either reducer ends, keeps its budget, hands only proper candidates to its evaluator and
returns a sequence that shows the failure. It returns the last candidate it confirmed exactly when
its limits do not end between the first confirmation of a pass and the end of that pass.
-/

namespace AtlasLob.Oracle

open Interruptible

section Samples

/-- The withdrawal of an order. -/
def sampleCancel (orderId : Int) : Command := .cancel ⟨1, orderId, 7⟩

/-- A failure that needs the withdrawals of orders 3 and 4, within some limits. -/
def sampleWithin (budget : ShrinkBudget) (expired : Nat → Bool) :
    CandidateEvaluator (List Char) Unit where
  evaluator commands := if sampleCancel 3 ∈ commands ∧ sampleCancel 4 ∈ commands then some ()
    else none
  signature := ()
  budget := budget
  expired := expired
  sha256 := id

/-- The failure with two evaluations to spend and no deadline. -/
def sampleReduction : CandidateEvaluator (List Char) Unit :=
  sampleWithin ⟨2, by decide⟩ fun _ => false

/-- The context of the sample. -/
def sampleContext : ShrinkContext := ⟨7, 1, 1000, by decide, by decide, by decide⟩

/-- The catalog of the sample. -/
def sampleInstruments : List InstrumentConfig :=
  [⟨7, ⟨1000, 1, 100, rfl⟩, by decide⟩]

/-- Four withdrawals. -/
def sampleSequence : List Command :=
  [sampleCancel 1, sampleCancel 2, sampleCancel 3, sampleCancel 4]

end Samples

section Runs

variable {Key Signature : Type} [DecidableEq Key] [DecidableEq Signature]
  (checked : CandidateEvaluator Key Signature)

/-- A sequence is the last candidate that was accepted, and the last that was confirmed. -/
def LastKept (state : EvaluatorState Key Signature) (current : List Command) : Prop :=
  state.accepted.getLast? = some current ∧ state.confirmed.getLast? = some current

omit [DecidableEq Signature] in
/-- The stages end at an admissible sequence that was accepted. It is the last one confirmed
exactly when the limits spare the passes. -/
theorem runStages_holds {original : List Command}
    {stages : List (Stage (EvaluatorState Key Signature))}
    {full : List (Stage (Tally Key Signature))}
    (keeps : ∀ stage ∈ stages, PassKeeps checked original stage.pass)
    (short : StagesCutShort (InStep checked) (CutBehind checked) stages full)
    {current : List Command} (admissible : Admissible original current) (completed : List String)
    {state : EvaluatorState Key Signature} {tally : Tally Key Signature}
    (step : InStep checked state tally) (coherent : Coherent checked state)
    (confirmed : state.confirmed = state.accepted)
    (last : state.accepted.getLast? = some current) :
    ∃ reduction after, runStages stages current completed state = (.ok reduction, after) ∧
      Coherent checked after ∧ Admissible original reduction.current ∧
      (reduction.current ∈ after.accepted ∧ reduction.current ∈ after.confirmed) ∧
      (LastKept after reduction.current ↔
        LimitsSparePasses checked (passCosts full current tally)) := by
  induction short generalizing current completed state tally with
  | nil =>
    have kept := List.mem_of_getLast? last
    exact ⟨_, _, rfl, coherent, admissible, ⟨kept, confirmed ▸ kept⟩,
      iff_of_true ⟨last, confirmed ▸ last⟩ fun pass inside => absurd inside List.not_mem_nil⟩
  | @cons stage whole rest fullRest pass shortRest ih =>
    obtain ⟨below, moves, holds⟩ :=
      keeps stage List.mem_cons_self current state.accepted admissible
    have post := holds state ⟨coherent, rfl, confirmed⟩
    have together := (pass current).together state tally step
    unfold runStages passCosts
    cases run : stage.pass current state with
    | mk outcome after =>
      rw [run] at post together
      cases outcome with
      | ok next =>
        have arrived : Reached checked original below current state.accepted next after := post
        obtain ⟨returned, stepped⟩ := together
        have grown : after.accepted.getLast? = some next := by
          rcases arrived.progress with ⟨unchanged, rfl⟩ | ⟨_, earlier, accepted⟩
          · rw [unchanged, last]
          · rw [accepted, List.getLast?_append, List.getLast?_singleton]
            rfl
        obtain ⟨reduction, final, ran, kept⟩ :=
          ih (fun other inside => keeps other (List.mem_cons_of_mem _ inside))
            arrived.admissible (completed ++ stage.completes) stepped arrived.coherent
            arrived.confirmed grown
        refine ⟨reduction, final, ran, kept.1, kept.2.1, kept.2.2.1, kept.2.2.2.trans ?_⟩
        simp only [returned]
        -- The limits left room for the whole pass.
        refine ⟨fun spared => List.forall_mem_cons.mpr ⟨fun _ _ _ => stepped.affords, spared⟩,
          fun spared => (List.forall_mem_cons.mp spared).2⟩
      | error reason =>
        have cut : CutSearch checked below current state.accepted reason after := post
        obtain ⟨rfl, coherentAfter, accepted, confirmedAfter, confirmedFirst⟩ := cut
        have beyond : Beyond checked after (whole.pass current tally).2 := together rfl
        have counted : state.accepted.length = tally.confirmations.length := by
          rw [← confirmed, step.confirmations]
        have kept : current ∈ after.accepted := by
          rcases accepted with same | ⟨earlier, reached, _, grown⟩
          · rw [same]
            exact List.mem_of_getLast? last
          · rw [grown, List.append_assoc]
            exact List.mem_append_left _ (List.mem_of_getLast? last)
        refine ⟨_, _, rfl, coherentAfter, admissible, ⟨kept, confirmedFirst.subset kept⟩, ?_⟩
        rcases confirmedAfter with same | ⟨earlier, reached, lower, grown⟩
        · -- The pass had confirmed nothing, and neither does what follows within the limits.
          have acceptedSame : after.accepted = state.accepted := by
            rcases accepted with unchanged | ⟨earlier, reached, _, grown⟩
            · exact unchanged
            · have longer := confirmedFirst.length_le
              rw [same, grown, List.length_append, List.length_append,
                List.length_singleton] at longer
              omega
          refine iff_of_true ⟨acceptedSame ▸ last, same ▸ last⟩ ?_
          refine List.forall_mem_cons.mpr ⟨?_, ?_⟩
          · intro first found affords
            exact absurd affords (beyond.expensive (by rw [same, counted]) found)
          · intro later inside
            split at inside
            · exact beyond.spares shortRest _ later inside
            · exact absurd inside List.not_mem_nil
        · -- The pass had confirmed a sequence below the one that comes back.
          refine iff_of_false ?_ ?_
          · rintro ⟨_, lastConfirmed⟩
            rw [grown, List.getLast?_append, List.getLast?_singleton] at lastConfirmed
            exact moves reached lower (Option.some.inj lastConfirmed)
          · intro spared
            have early : tally.confirmations.length < after.confirmed.length := by
              rw [grown, List.length_append, List.length_append, List.length_singleton, counted]
              omega
            obtain ⟨first, found, affords⟩ := beyond.affordable early
            exact beyond.exceeds
              ((List.forall_mem_cons.mp spared).1 first found affords)

omit [DecidableEq Signature] in
/-- The evaluator of a new run. -/
theorem ready_initial : Ready checked [] {} := by
  refine ⟨⟨Nat.zero_le _, rfl, ?_, ?_, ?_⟩, rfl, rfl⟩
  · exact fun candidate inside => absurd inside List.not_mem_nil
  · exact fun key result found => absurd found (by simp)
  · exact fun candidate inside => absurd inside List.not_mem_nil

omit [DecidableEq Key] [DecidableEq Signature] in
/-- Nothing is spent at the start. -/
theorem inStep_initial : InStep checked {} {} := by
  refine ⟨rfl, rfl, rfl, rfl, ?_, Nat.zero_le _, ?_⟩
  · exact fun cost inside => absurd inside List.not_mem_nil
  · exact fun look before => absurd before (Nat.not_lt_zero look)

/-- The first evaluation returns no verdict because it exhausts the budget. -/
def FirstExhausts (original : List Command) : Prop :=
  (preserves checked original {}).1 = .error .budgetExhausted

/-- No two candidates of a run have the same key. -/
def CollisionFree (state : EvaluatorState Key Signature) : Prop :=
  ∀ left ∈ state.asked, ∀ right ∈ state.asked,
    checked.sha256 (textOf left) = checked.sha256 (textOf right) → left = right

/-- What a run promises: it ends with a result, or refuses an original that does not show the
failure; a returned sequence shows the failure; the budget is kept; only nonempty sequences of
representable commands are evaluated. -/
structure SoundRun (original : List Command)
    (run : Except PythonError (ShrinkResult Signature) × EvaluatorState Key Signature) : Prop where
  ends : (∃ result, run.1 = .ok result) ∨
    run.1 = .error (.valueError
      "the original command sequence does not reproduce the signature") ∧
    checked.evaluator original ≠ some checked.signature
  returned : ¬FirstExhausts checked original → ∀ result, run.1 = .ok result →
    result.commands ≠ [] ∧ result.commands.length ≤ original.length ∧
      checked.evaluator result.commands = some checked.signature
  evaluations : run.2.evaluated.length = run.2.evaluations ∧
    run.2.evaluations ≤ checked.budget.maxEvaluations
  handed : ∀ candidate ∈ run.2.evaluated,
    candidate ≠ [] ∧ ∀ command ∈ candidate, command.Representable

variable {checked}

omit [DecidableEq Key] [DecidableEq Signature] in
/-- Without collisions an answer is that of the evaluator. -/
theorem Vouched.evaluated {state : EvaluatorState Key Signature} {candidate : List Command}
    {result : Option Signature} (vouched : Vouched checked state candidate result)
    (collisionFree : CollisionFree checked state) : checked.evaluator candidate = result := by
  obtain ⟨asked, earlier, inside, same, evaluated⟩ := vouched
  rw [← collisionFree earlier inside candidate asked same]
  exact evaluated

/-- A run of stages that keep the failure is sound. -/
theorem shrinkWith_sound {original : List Command} (proposable : Proposable original)
    {stages : List (Stage (EvaluatorState Key Signature))}
    {full : List (Stage (Tally Key Signature))}
    (keeps : ∀ stage ∈ stages, PassKeeps checked original stage.pass)
    (short : StagesCutShort (InStep checked) (CutBehind checked) stages full)
    (collisionFree : CollisionFree checked (shrinkWith checked stages original).2) :
    SoundRun checked original (shrinkWith checked stages original) := by
  have post := preserves_proposable checked proposable {} (ready_initial checked)
  have together := (preserves_cutShort checked original).together {} {} (inStep_initial checked)
  unfold shrinkWith at collisionFree ⊢
  cases first : preserves checked original {} with
  | mk outcome state =>
    rw [first] at post together collisionFree
    cases outcome with
    | error reason =>
      obtain ⟨rfl, interrupted⟩ : CutWith (Interrupted checked [] original) reason state := post
      have coherent := interrupted.coherent
      refine ⟨Or.inl ⟨_, rfl⟩, ?_, ⟨coherent.evaluated_length, coherent.evaluations_le⟩,
        coherent.handed⟩
      intro verdict
      exact absurd (by rw [FirstExhausts, first]) verdict
    | ok answer =>
      cases answer with
      | false =>
        obtain ⟨ready, result, other, vouched⟩ : Ready checked [] state ∧ _ := post
        have refused : checked.evaluator original ≠ some checked.signature :=
          (vouched.evaluated collisionFree).symm ▸ other
        refine ⟨Or.inr ⟨rfl, refused⟩, ?_,
          ⟨ready.coherent.evaluated_length, ready.coherent.evaluations_le⟩, ready.coherent.handed⟩
        intro _ result same
        cases same
      | true =>
        have ready : Ready checked ([] ++ [original]) state := post
        obtain ⟨reduction, after, run, coherent, admissible, kept, _⟩ := runStages_holds checked
          keeps short ⟨proposable, le_refl _⟩ [] together.2 ready.coherent
          (ready.confirmed.trans ready.accepted.symm) (by rw [ready.accepted]; rfl)
        simp only [run] at collisionFree ⊢
        refine ⟨Or.inl ⟨_, rfl⟩, ?_, ⟨coherent.evaluated_length, coherent.evaluations_le⟩,
          coherent.handed⟩
        intro _ result same
        rw [← Except.ok.inj same]
        exact ⟨admissible.proposable.1, admissible.length_le,
          (coherent.vouched _ kept.1).evaluated collisionFree⟩

variable (checked)

/-- The passes of `shrink_failure` are its passes without limits, cut short. -/
theorem shrinkFailure_cutShort (context : ShrinkContext) :
    StagesCutShort (InStep checked) (CutBehind checked)
      (shrinkStages (preserves checked) context) (shrinkStages checked.asks context) :=
  shrinkStages_cutShort context (fun _ _ _ budget => Interruption.noConfusion budget)
    (preserves_cutShort checked)

/-- The passes of `shrink_multi_failure` are its passes without limits, cut short. -/
theorem shrinkMultiFailure_cutShort (catalog : List InstrumentConfig) :
    StagesCutShort (InStep checked) (CutBehind checked)
      (shrinkMultiStages (preserves checked) catalog) (shrinkMultiStages checked.asks catalog) :=
  shrinkMultiStages_cutShort catalog (fun _ _ _ budget => Interruption.noConfusion budget)
    (preserves_cutShort checked)

/-- The checks of `shrink_failure` pass on a sequence that is not empty. -/
theorem shrinkFailure_runs (context : ShrinkContext) {commands : List Command}
    (nonempty : commands ≠ []) : shrinkFailure checked context commands =
      shrinkWith checked (shrinkStages (preserves checked) context) commands := by
  unfold shrinkFailure
  rw [if_neg nonempty]

/-- The checks of `shrink_multi_failure` pass on such a sequence and a catalog of different
instruments. -/
theorem shrinkMultiFailure_runs {catalog : List InstrumentConfig}
    (configured : catalog ≠ [] ∧ (catalog.map InstrumentConfig.instrumentId).Nodup)
    {commands : List Command} (nonempty : commands ≠ []) :
    shrinkMultiFailure checked catalog commands =
      shrinkWith checked (shrinkMultiStages (preserves checked) catalog) commands := by
  unfold shrinkMultiFailure
  rw [if_neg nonempty, if_neg]
  rintro (empty | repeated)
  · exact configured.1 empty
  · exact repeated configured.2

/-- Both reducers are sound on every nonempty sequence of representable commands, as long as no
two candidates of the run have the same key. -/
theorem shrinking_sound (context : ShrinkContext) (catalog : List InstrumentConfig)
    (configured : catalog ≠ [] ∧ (catalog.map InstrumentConfig.instrumentId).Nodup)
    (commands : List Command) (nonempty : commands ≠ [])
    (representable : ∀ command ∈ commands, command.Representable) :
    (CollisionFree checked (shrinkFailure checked context commands).2 →
      SoundRun checked commands (shrinkFailure checked context commands)) ∧
    (CollisionFree checked (shrinkMultiFailure checked catalog commands).2 →
      SoundRun checked commands (shrinkMultiFailure checked catalog commands)) := by
  rw [shrinkFailure_runs checked context nonempty,
    shrinkMultiFailure_runs checked configured nonempty]
  exact ⟨shrinkWith_sound ⟨nonempty, representable⟩ (shrinkStages_keep context)
      (shrinkFailure_cutShort checked context),
    shrinkWith_sound ⟨nonempty, representable⟩ (shrinkMultiStages_keep catalog)
      (shrinkMultiFailure_cutShort checked catalog)⟩

/-- Soundness at the sample. -/
theorem shrinking_sound_sample :
    SoundRun sampleReduction sampleSequence
        (shrinkFailure sampleReduction sampleContext sampleSequence) ∧
      SoundRun sampleReduction sampleSequence
        (shrinkMultiFailure sampleReduction sampleInstruments sampleSequence) := by
  have injective : ∀ state, CollisionFree sampleReduction state :=
    fun _ _ _ _ _ same => textOf_injective same
  have sound := shrinking_sound sampleReduction sampleContext sampleInstruments
    ⟨by decide, by decide⟩ sampleSequence (by decide) (by
      intro command inside
      simp only [sampleSequence, List.mem_cons, List.not_mem_nil, or_false] at inside
      rcases inside with rfl | rfl | rfl | rfl <;> exact ⟨by decide, by decide, by decide⟩)
  exact ⟨sound.1 (injective _), sound.2 (injective _)⟩

/-- A returned sequence is the last candidate the run accepted, and the last one the evaluator
confirmed; it is the original where no candidate was. -/
def KeepsProgress (original : List Command)
    (run : Except PythonError (ShrinkResult Signature) × EvaluatorState Key Signature) : Prop :=
  ∀ result, run.1 = .ok result →
    result.commands = (run.2.accepted.getLast?).getD original ∧
      result.commands = (run.2.confirmed.getLast?).getD original

variable {checked}

/-- The last value of a list that is not empty. -/
theorem eq_getLast_iff {Value : Type} {value current default : Value} {values : List Value}
    (inside : value ∈ values) :
    current = (values.getLast?).getD default ↔ values.getLast? = some current := by
  cases last : values.getLast? with
  | none =>
    rw [List.getLast?_eq_none_iff] at last
    rw [last] at inside
    exact absurd inside List.not_mem_nil
  | some final =>
    exact ⟨fun same => congrArg some same.symm, fun same => (Option.some.inj same).symm⟩

/-- A run keeps its progress exactly when its limits spare the passes. -/
theorem shrinkWith_keepsProgress_iff {original : List Command} (nonempty : original ≠ [])
    {stages : List (Stage (EvaluatorState Key Signature))}
    {full : List (Stage (Tally Key Signature))}
    (keeps : ∀ stage ∈ stages, PassKeeps checked original stage.pass)
    (short : StagesCutShort (InStep checked) (CutBehind checked) stages full) :
    KeepsProgress original (shrinkWith checked stages original) ↔
      LimitsSparePasses checked (checked.costs full original) := by
  have post := preserves_holds checked nonempty {} (ready_initial checked)
  have together := (preserves_cutShort checked original).together {} {} (inStep_initial checked)
  have answer : (checked.asks original {}).1 =
      .ok (decide (checked.evaluator original = some checked.signature)) :=
    congrArg Prod.fst (asks_fresh checked (rfl : ([] : List (Key × Option Signature)).lookup
      (checked.sha256 (textOf original)) = none))
  have unstarted : ¬((∀ command ∈ original, command.Representable) ∧
      checked.evaluator original = some checked.signature) →
      LimitsSparePasses checked (checked.costs full original) := by
    intro refused
    rw [costs_refused refused]
    exact fun pass inside => absurd inside List.not_mem_nil
  unfold KeepsProgress shrinkWith
  cases first : preserves checked original {} with
  | mk outcome state =>
    rw [first] at post together
    cases outcome with
    | error reason =>
      obtain ⟨budget, interrupted⟩ : StoppedWith original (Interrupted checked [] original)
        reason state := post
      cases reason with
      | budgetExhausted =>
        have beyond : Beyond checked state (checked.asks original {}).2 := together rfl
        refine iff_of_true ?_ (beyond.spares_all short)
        intro result same
        rw [← Except.ok.inj same]
        refine ⟨by rw [interrupted.accepted]; rfl, ?_⟩
        rcases interrupted.confirmed with none | once
        · rw [none]
          rfl
        · rw [once]
          rfl
      | raised error =>
        have outside := budget.resolve_left Interruption.noConfusion
        refine iff_of_true ?_ (unstarted fun started => outside started.1)
        intro result same
        cases same
    | ok accepted =>
      rw [answer] at together
      have verdict := Except.ok.inj together.1
      cases accepted with
      | false =>
        refine iff_of_true ?_ (unstarted fun started => of_decide_eq_false verdict started.2)
        intro result same
        cases same
      | true =>
        obtain ⟨proposable, ready⟩ :
          Proposable original ∧ Ready checked ([] ++ [original]) state := post
        obtain ⟨reduction, after, run, _, _, inside, kept⟩ := runStages_holds checked keeps short
          ⟨proposable, le_refl _⟩ [] together.2 ready.coherent
          (ready.confirmed.trans ready.accepted.symm) (by rw [ready.accepted]; rfl)
        rw [costs_started proposable.2 (of_decide_eq_true verdict), ← kept]
        simp only [run]
        unfold LastKept
        rw [← eq_getLast_iff inside.1, ← eq_getLast_iff inside.2]
        constructor
        · exact fun progress => progress _ rfl
        · intro last result returned
          rw [← Except.ok.inj returned]
          exact last

variable (checked)

/-- Both reducers return the last candidate they confirmed exactly when their limits, where they
leave room for the first candidate a pass confirms, leave room for the whole pass. -/
theorem shrinking_keepsProgress_iff (context : ShrinkContext) (catalog : List InstrumentConfig)
    (configured : catalog ≠ [] ∧ (catalog.map InstrumentConfig.instrumentId).Nodup)
    (commands : List Command) (nonempty : commands ≠ []) :
    (KeepsProgress commands (shrinkFailure checked context commands) ↔
        LimitsSparePasses checked (checked.costs (shrinkStages checked.asks context) commands)) ∧
      (KeepsProgress commands (shrinkMultiFailure checked catalog commands) ↔
        LimitsSparePasses checked
          (checked.costs (shrinkMultiStages checked.asks catalog) commands)) := by
  rw [shrinkFailure_runs checked context nonempty,
    shrinkMultiFailure_runs checked configured nonempty]
  exact ⟨shrinkWith_keepsProgress_iff nonempty (shrinkStages_keep context)
      (shrinkFailure_cutShort checked context),
    shrinkWith_keepsProgress_iff nonempty (shrinkMultiStages_keep catalog)
      (shrinkMultiFailure_cutShort checked catalog)⟩

/-- The first pass of the sample confirms its first candidate with the second evaluation, between
the ninth and the tenth look at the clock, and ends with the fourth. Four evaluations keep the
progress and three lose it; so does a deadline that passes during the second evaluation, but not
one that passes before it. -/
theorem shrinking_keepsProgress_iff_sample :
    KeepsProgress sampleSequence
        (shrinkFailure (sampleWithin ⟨4, by decide⟩ fun _ => false) sampleContext sampleSequence) ∧
      ¬KeepsProgress sampleSequence
        (shrinkFailure (sampleWithin ⟨3, by decide⟩ fun _ => false) sampleContext sampleSequence) ∧
      ¬KeepsProgress sampleSequence (shrinkMultiFailure
        (sampleWithin ⟨9, by decide⟩ fun look => decide (9 ≤ look)) sampleInstruments
        sampleSequence) ∧
      KeepsProgress sampleSequence (shrinkMultiFailure
        (sampleWithin ⟨9, by decide⟩ fun look => decide (8 ≤ look)) sampleInstruments
        sampleSequence) := by
  have exactly := fun budget expired => shrinking_keepsProgress_iff (sampleWithin budget expired)
    sampleContext sampleInstruments ⟨by decide, by decide⟩ sampleSequence (by decide)
  refine ⟨(exactly _ _).1.mpr ?_, fun keeps => ?_, fun keeps => ?_, (exactly _ _).2.mpr ?_⟩
  · decide +kernel
  · exact absurd ((exactly _ _).1.mp keeps) (by decide +kernel)
  · exact absurd ((exactly _ _).2.mp keeps) (by decide +kernel)
  · decide +kernel

/-- The first chunk is deleted and the second evaluation accepts what is left; then the budget
ends inside the same pass and the original comes back. -/
theorem shrinkFailure_loses_accepted :
    sampleReduction.evaluator sampleSequence = some sampleReduction.signature ∧
      (shrinkFailure sampleReduction sampleContext sampleSequence).2.accepted.getLast? =
        some [sampleCancel 3, sampleCancel 4] ∧
      ¬KeepsProgress sampleSequence
        (shrinkFailure sampleReduction sampleContext sampleSequence) := by
  have original : (shrinkFailure sampleReduction sampleContext sampleSequence).1.toOption.map
      ShrinkResult.commands = some sampleSequence := by decide +kernel
  have accepted : (shrinkFailure sampleReduction sampleContext sampleSequence).2.accepted.getLast? =
      some [sampleCancel 3, sampleCancel 4] := by decide +kernel
  refine ⟨by decide +kernel, accepted, fun keeps => ?_⟩
  cases run : (shrinkFailure sampleReduction sampleContext sampleSequence).1 with
  | error error =>
    rw [run] at original
    exact absurd original (by simp [Except.toOption])
  | ok result =>
    rw [run] at original
    have same : result.commands = sampleSequence := Option.some.inj original
    have last := (keeps result run).1
    rw [accepted, same] at last
    exact absurd last (by decide +kernel)

end Runs

end AtlasLob.Oracle
