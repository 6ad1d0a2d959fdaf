import AtlasLob.Core.Shrinking

/-!
# Reductions without limits

What a reduction would spend if nothing cut it. Its passes ask the same candidates and remember
the same results, but only count the evaluations and the looks at the clock. The costs of its
passes are a matter of the sequence, the evaluator and the signature alone; limits are compared
with them afterwards.
-/

namespace AtlasLob.Oracle

/-- The text of a sequence of representable commands. -/
def textOf (commands : List Command) : List Char :=
  (commands.map fun command => List.intercalate [' '] command.fields).flatMap (· ++ ['\n'])

/-- What a reduction has spent of its limits. -/
structure Cost where
  /-- The evaluations made. -/
  evaluations : Nat := 0
  /-- The looks at the clock. -/
  looks : Nat := 0
  deriving DecidableEq, Repr

/-- Where a reduction without limits stands. -/
structure Tally (Key Signature : Type) where
  /-- The results it remembers. -/
  cache : List (Key × Option Signature) := []
  /-- What it has spent. -/
  spent : Cost := {}
  /-- What it had spent whenever a candidate was confirmed, in order. -/
  confirmations : List Cost := []

/-- What a pass spends: up to the first candidate it confirms, if any, and up to its end. -/
structure PassCost where
  firstConfirmed : Option Cost
  finished : Cost
  deriving DecidableEq, Repr

section Tallies

variable {Key Signature : Type} [DecidableEq Key] [DecidableEq Signature]
  (evaluator : List Command → Option Signature) (signature : Signature)
  (sha256 : List Char → Key)

/-- The tally after a candidate has its result, at the cost of finding it out and in all. -/
def Tally.settle (tally : Tally Key Signature) (cache : List (Key × Option Signature))
    (result : Option Signature) (told spent : Cost) : Tally Key Signature where
  cache := cache
  spent := spent
  confirmations :=
    if result = some signature then tally.confirmations ++ [told] else tally.confirmations

/-- A candidate asked without limits. Every command is a look at the clock, and an evaluation is
one before and one after it. -/
def weigh (commands : List Command) : Cuttable (Tally Key Signature) Bool := fun tally =>
  let key := sha256 (textOf commands)
  let keyed : Cost := ⟨tally.spent.evaluations, tally.spent.looks + commands.length⟩
  match tally.cache.lookup key with
  | some result => (.ok (result = some signature),
      tally.settle signature tally.cache result keyed keyed)
  | none =>
    let result := evaluator commands
    (.ok (result = some signature),
      tally.settle signature ((key, result) :: tally.cache) result
        ⟨keyed.evaluations + 1, keyed.looks + 1⟩ ⟨keyed.evaluations + 1, keyed.looks + 2⟩)

/-- What each of some passes spends, one after another. -/
def passCosts : List (Stage (Tally Key Signature)) → List Command → Tally Key Signature →
    List PassCost
  | [], _, _ => []
  | stage :: rest, current, tally =>
    let ended := stage.pass current tally
    ⟨ended.2.confirmations[tally.confirmations.length]?, ended.2.spent⟩ ::
      match ended.1 with
      | .ok next => passCosts rest next ended.2
      | .error _ => []

end Tallies

section Limits

variable {Key Signature : Type} [DecidableEq Key] [DecidableEq Signature]
  (checked : CandidateEvaluator Key Signature)

/-- The limits leave room for a cost: the budget has the evaluations, and no look at the clock
finds the deadline passed. -/
def CandidateEvaluator.Affords (cost : Cost) : Prop :=
  cost.evaluations ≤ checked.budget.maxEvaluations ∧
    ∀ look < cost.looks, checked.expired look = false

instance (cost : Cost) : Decidable (checked.Affords cost) :=
  inferInstanceAs (Decidable (_ ∧ _))

/-- A candidate asked of the evaluator without its limits. -/
def CandidateEvaluator.asks : List Command → Cuttable (Tally Key Signature) Bool :=
  weigh checked.evaluator checked.signature checked.sha256

/-- What the passes of a reduction spend without the limits, from the evaluation of the original
on. No pass follows an original that has no encoding or does not show the failure. -/
def CandidateEvaluator.costs (stages : List (Stage (Tally Key Signature)))
    (original : List Command) : List PassCost :=
  if (original.all fun command => (encodeCommand command).isOk) = true ∧
      checked.evaluator original = some checked.signature then
    passCosts stages original (checked.asks original {}).2
  else []

/-- The costs of a reduction do not depend on its limits. -/
theorem CandidateEvaluator.costs_limits (context : ShrinkContext) (original : List Command)
    (budget : ShrinkBudget) (expired : Nat → Bool) :
    CandidateEvaluator.costs { checked with budget, expired }
        (shrinkStages (CandidateEvaluator.asks { checked with budget, expired }) context) original =
      checked.costs (shrinkStages checked.asks context) original := rfl

/-- The limits end between two passes or before the pass they end in confirms anything: where
they leave room for the first candidate a pass confirms, they leave room for the whole pass. -/
def LimitsSparePasses (costs : List PassCost) : Prop :=
  ∀ pass ∈ costs, ∀ first ∈ pass.firstConfirmed,
    checked.Affords first → checked.Affords pass.finished

instance (costs : List PassCost) : Decidable (LimitsSparePasses checked costs) :=
  inferInstanceAs (Decidable (∀ pass ∈ costs, ∀ first ∈ pass.firstConfirmed,
    checked.Affords first → checked.Affords pass.finished))

end Limits

end AtlasLob.Oracle
