import AtlasLob.Verif.ShrinkingPasses

/-!
# What the limits cut off

Every pass with limits is the pass without them cut short: both ask the same candidates, get the
same answers and spend the same, until a limit stops the one while the other goes on at costs the
limits leave no room for.
-/

namespace AtlasLob.Oracle

open Interruptible

section Passes

variable {Limited Full : Type} {related : Limited → Full → Prop}
  {behind : Interruption → Limited → Full → Prop}
  {left : List Command → Cuttable Limited Bool} {right : List Command → Cuttable Full Bool}

/-- A divergence on both sides is no matter of limits. -/
def DivergesBehind (related : Limited → Full → Prop)
    (behind : Interruption → Limited → Full → Prop) : Prop :=
  ∀ first second, related first second → behind (.raised .divergence) first second

/-- `_delete_chunks` is cut short where its candidates are. -/
theorem deleteChunks_cutShort (diverges : DivergesBehind related behind)
    (answers : ∀ candidate, CutShort related behind (left candidate) (right candidate))
    (commands : List Command) :
    CutShort related behind (deleteChunks left commands) (deleteChunks right commands) := by
  have loop : ∀ rounds granularity current,
      CutShort related behind (deleteChunksLoop left rounds granularity current)
        (deleteChunksLoop right rounds granularity current) := by
    intro rounds
    induction rounds with
    | zero => exact fun _ _ => CutShort.stop diverges
    | succ rounds ih =>
      intro granularity current
      unfold deleteChunksLoop
      refine CutShort.ite (CutShort.pure current) ?_
      refine (CutShort.firstThat _ answers).bind fun found => ?_
      cases found with
      | some candidate => exact ih (max 2 (granularity - 1)) candidate
      | none =>
        exact CutShort.ite (CutShort.pure current)
          (ih (min current.length (granularity * 2)) current)
  exact loop _ 2 commands

/-- `_delete_individual` is cut short where its candidates are. -/
theorem deleteIndividual_cutShort
    (answers : ∀ candidate, CutShort related behind (left candidate) (right candidate))
    (commands : List Command) :
    CutShort related behind (deleteIndividual left commands) (deleteIndividual right commands) := by
  have loop : ∀ rest kept, CutShort related behind (deleteIndividualLoop left kept rest)
      (deleteIndividualLoop right kept rest) := by
    intro rest
    induction rest with
    | nil => exact fun kept => CutShort.pure kept
    | cons command rest ih =>
      intro kept
      unfold deleteIndividualLoop
      refine CutShort.ite (ih (kept ++ [command])) ?_
      exact (answers (kept ++ rest)).bind fun answer =>
        CutShort.ite (ih kept) (ih (kept ++ [command]))
  exact loop commands []

/-- The stage around `_remap_identifiers` is cut short where its candidate is. -/
theorem remapStage_cutShort (remap : List Command → List Command)
    (answers : ∀ candidate, CutShort related behind (left candidate) (right candidate))
    (commands : List Command) :
    CutShort related behind (remapStage left remap commands) (remapStage right remap commands) := by
  unfold remapStage
  refine CutShort.ite (CutShort.pure commands) ?_
  exact (answers (remap commands)).bind fun answer =>
    CutShort.ite (CutShort.pure _) (CutShort.pure _)

/-- A pass over the positions is cut short where its candidates are. -/
theorem simplifyEach_cutShort
    (alternatives : List Command → Command → List Command → List Command)
    (answers : ∀ candidate, CutShort related behind (left candidate) (right candidate))
    (commands : List Command) :
    CutShort related behind (simplifyEach left alternatives commands)
      (simplifyEach right alternatives commands) := by
  refine CutShort.eachPosition commands (fun kept command rest => ?_) []
  unfold firstAt
  exact (CutShort.firstThat _ fun candidate => answers (kept ++ candidate :: rest)).bind
    fun _ => CutShort.pure _

/-- `_simplify_prices` is cut short where its candidates are. -/
theorem simplifyPrices_cutShort (context : ShrinkContext)
    (answers : ∀ candidate, CutShort related behind (left candidate) (right candidate))
    (commands : List Command) :
    CutShort related behind (simplifyPrices left context commands)
      (simplifyPrices right context commands) :=
  (CutShort.firstThat _ answers).bind fun _ => simplifyEach_cutShort _ answers _

/-- `_normalize_side_and_tif` is cut short where its candidates are. -/
theorem normalizeSideAndTif_cutShort
    (answers : ∀ candidate, CutShort related behind (left candidate) (right candidate))
    (commands : List Command) :
    CutShort related behind (normalizeSideAndTif left commands)
      (normalizeSideAndTif right commands) := by
  refine CutShort.eachPosition commands (fun kept command rest => ?_) []
  refine CutShort.carry _ (fun chosen alternative => ?_) command
  exact (answers (kept ++ alternative :: rest)).bind fun answer =>
    CutShort.ite (CutShort.pure alternative) (CutShort.pure chosen)

/-- The stages of one list are those of the other cut short. -/
def StagesCutShort (related : Limited → Full → Prop)
    (behind : Interruption → Limited → Full → Prop) :
    List (Stage Limited) → List (Stage Full) → Prop :=
  List.Forall₂ fun limited full =>
    ∀ current, CutShort related behind (limited.pass current) (full.pass current)

/-- The stages of `shrink_failure` are cut short where their candidates are. -/
theorem shrinkStages_cutShort (context : ShrinkContext) (diverges : DivergesBehind related behind)
    (answers : ∀ candidate, CutShort related behind (left candidate) (right candidate)) :
    StagesCutShort related behind (shrinkStages left context) (shrinkStages right context) := by
  refine .cons (deleteChunks_cutShort diverges answers) ?_
  refine .cons (deleteIndividual_cutShort answers) ?_
  refine .cons (remapStage_cutShort _ answers) ?_
  refine .cons (simplifyPrices_cutShort context answers) ?_
  refine .cons (simplifyEach_cutShort _ answers ·) ?_
  refine .cons (simplifyEach_cutShort _ answers) ?_
  refine .cons (normalizeSideAndTif_cutShort answers) ?_
  refine .cons (simplifyPrices_cutShort context answers) ?_
  refine .cons (simplifyEach_cutShort _ answers ·) ?_
  exact .cons (deleteIndividual_cutShort answers) .nil

/-- The stages of `shrink_multi_failure` are cut short where their candidates are. -/
theorem shrinkMultiStages_cutShort (catalog : List InstrumentConfig)
    (diverges : DivergesBehind related behind)
    (answers : ∀ candidate, CutShort related behind (left candidate) (right candidate)) :
    StagesCutShort related behind (shrinkMultiStages left catalog)
      (shrinkMultiStages right catalog) := by
  refine .cons (deleteChunks_cutShort diverges answers) ?_
  refine .cons (deleteIndividual_cutShort answers) ?_
  refine .cons (remapStage_cutShort _ answers) ?_
  refine .cons (simplifyEach_cutShort _ answers) ?_
  refine .cons (simplifyEach_cutShort _ answers) ?_
  exact .cons (deleteIndividual_cutShort answers) .nil

end Passes

section Answers

variable {Key Signature : Type} (checked : CandidateEvaluator Key Signature)

/-- The limits that leave room for a cost leave room for less. -/
theorem CandidateEvaluator.Affords.less {cost lower : Cost} (affords : checked.Affords cost)
    (fewer : lower.evaluations ≤ cost.evaluations) (earlier : lower.looks ≤ cost.looks) :
    checked.Affords lower :=
  ⟨Nat.le_trans fewer affords.1,
    fun look before => affords.2 look (Nat.lt_of_lt_of_le before earlier)⟩

/-- An evaluator within its limits and a reduction without limits that have done the same. -/
structure InStep (state : EvaluatorState Key Signature) (tally : Tally Key Signature) : Prop where
  cache : state.cache = tally.cache
  evaluations : state.evaluations = tally.spent.evaluations
  looks : state.looks = tally.spent.looks
  confirmations : state.confirmed.length = tally.confirmations.length
  /-- The limits left room for every confirmation. -/
  afforded : ∀ cost ∈ tally.confirmations, checked.Affords cost
  /-- The limits leave room for all that was spent. -/
  affords : checked.Affords tally.spent

/-- A reduction without limits that has gone beyond those that stopped the evaluator. -/
structure Beyond (state : EvaluatorState Key Signature) (tally : Tally Key Signature) : Prop where
  exceeds : ¬checked.Affords tally.spent
  /-- The limits left room for exactly the confirmations the evaluator made. -/
  confirmations : ∃ paid unpaid, tally.confirmations = paid ++ unpaid ∧
    state.confirmed.length = paid.length ∧ (∀ cost ∈ paid, checked.Affords cost) ∧
      ∀ cost ∈ unpaid, ¬checked.Affords cost

/-- Only the limits put an evaluator behind. -/
def CutBehind (reason : Interruption) (state : EvaluatorState Key Signature)
    (tally : Tally Key Signature) : Prop :=
  reason = .budgetExhausted → Beyond checked state tally

/-- Spending more stays beyond the limits. -/
theorem Beyond.more {state : EvaluatorState Key Signature} {tally : Tally Key Signature}
    (beyond : Beyond checked state tally) {after : Tally Key Signature}
    (spent : ¬checked.Affords after.spent)
    (confirmations : after.confirmations = tally.confirmations ∨
      ∃ told, ¬checked.Affords told ∧ after.confirmations = tally.confirmations ++ [told]) :
    Beyond checked state after := by
  obtain ⟨paid, unpaid, split, counted, afforded, exceeding⟩ := beyond.confirmations
  rcases confirmations with same | ⟨told, expensive, grown⟩
  · exact ⟨spent, paid, unpaid, same.trans split, counted, afforded, exceeding⟩
  · refine ⟨spent, paid, unpaid ++ [told], ?_, counted, afforded, ?_⟩
    · rw [grown, split, List.append_assoc]
    · intro cost inside
      cases List.mem_append.mp inside with
      | inl before => exact exceeding cost before
      | inr last => exact List.mem_singleton.mp last ▸ expensive

variable [DecidableEq Signature]

/-- What a settled tally has confirmed. -/
theorem Tally.settle_confirmations (signature : Signature) (tally : Tally Key Signature)
    (cache : List (Key × Option Signature)) (result : Option Signature) (told spent : Cost) :
    (tally.settle signature cache result told spent).confirmations = tally.confirmations ∨
      (tally.settle signature cache result told spent).confirmations =
        tally.confirmations ++ [told] := by
  unfold Tally.settle
  by_cases same : result = some signature
  · simp only [if_pos same]
    exact Or.inr trivial
  · simp only [if_neg same]
    exact Or.inl trivial

/-- A reduction without limits that stands beyond them is beyond them after a candidate. -/
theorem Beyond.settle {state : EvaluatorState Key Signature} {tally : Tally Key Signature}
    (beyond : Beyond checked state tally) (cache : List (Key × Option Signature))
    (result : Option Signature) {told spent : Cost} (expensive : ¬checked.Affords told)
    (exceeds : ¬checked.Affords spent) :
    Beyond checked state (tally.settle checked.signature cache result told spent) := by
  refine beyond.more checked exceeds ?_
  rcases tally.settle_confirmations checked.signature cache result told spent with same | grown
  · exact Or.inl same
  · exact Or.inr ⟨told, expensive, grown⟩

/-- A confirmation the limits leave room for keeps both in step. -/
theorem InStep.settle {state after : EvaluatorState Key Signature} {tally : Tally Key Signature}
    (step : InStep checked state tally) {candidate : List Command} {result : Option Signature}
    {cache : List (Key × Option Signature)} {told spent : Cost} (cached : after.cache = cache)
    (counted : after.evaluations = spent.evaluations) (looked : after.looks = spent.looks)
    (affordable : checked.Affords told) (affords : checked.Affords spent)
    (confirmed : after.confirmed = confirming checked candidate result state.confirmed) :
    InStep checked after (tally.settle checked.signature cache result told spent) := by
  refine ⟨cached, counted, looked, ?_, ?_, affords⟩
  · rw [confirmed]
    unfold Tally.settle confirming
    by_cases same : result = some checked.signature
    · simp only [if_pos same, List.length_append, step.confirmations]
      rfl
    · simp only [if_neg same, step.confirmations]
  · intro cost inside
    rcases tally.settle_confirmations checked.signature cache result told spent with same | grown
    · exact step.afforded cost (same ▸ inside)
    · rw [grown] at inside
      cases List.mem_append.mp inside with
      | inl before => exact step.afforded cost before
      | inr last => exact List.mem_singleton.mp last ▸ affordable

/-- A stop before the result leaves the evaluator behind. -/
theorem InStep.stopped {state after : EvaluatorState Key Signature} {tally : Tally Key Signature}
    (step : InStep checked state tally) (cache : List (Key × Option Signature))
    (result : Option Signature) {told spent : Cost} (expensive : ¬checked.Affords told)
    (exceeds : ¬checked.Affords spent) (confirmed : after.confirmed = state.confirmed) :
    Beyond checked after (tally.settle checked.signature cache result told spent) := by
  have counted : after.confirmed.length = tally.confirmations.length := by
    rw [confirmed, step.confirmations]
  rcases tally.settle_confirmations checked.signature cache result told spent with same | grown
  · exact ⟨exceeds, tally.confirmations, [], by rw [same, List.append_nil], counted,
      step.afforded, fun cost inside => absurd inside List.not_mem_nil⟩
  · refine ⟨exceeds, tally.confirmations, [told], grown, counted, step.afforded, ?_⟩
    intro cost inside
    exact List.mem_singleton.mp inside ▸ expensive

/-- A stop after the result leaves the evaluator behind with the candidate confirmed. -/
theorem InStep.overtaken {state after : EvaluatorState Key Signature} {tally : Tally Key Signature}
    (step : InStep checked state tally) {candidate : List Command} {result : Option Signature}
    {told spent : Cost} (cache : List (Key × Option Signature))
    (affordable : checked.Affords told) (exceeds : ¬checked.Affords spent)
    (confirmed : after.confirmed = confirming checked candidate result state.confirmed) :
    Beyond checked after (tally.settle checked.signature cache result told spent) := by
  refine ⟨exceeds, _, [], (List.append_nil _).symm, ?_, ?_,
    fun cost inside => absurd inside List.not_mem_nil⟩
  · rw [confirmed]
    unfold Tally.settle confirming
    by_cases same : result = some checked.signature
    · simp only [if_pos same, List.length_append, step.confirmations]
      rfl
    · simp only [if_neg same, step.confirmations]
  · intro cost inside
    rcases tally.settle_confirmations checked.signature cache result told spent with same | grown
    · exact step.afforded cost (same ▸ inside)
    · rw [grown] at inside
      cases List.mem_append.mp inside with
      | inl before => exact step.afforded cost before
      | inr last => exact List.mem_singleton.mp last ▸ affordable

/-- An evaluator that has only looked at the clock since a state. -/
structure Looking (start : EvaluatorState Key Signature) (looks : Nat)
    (state : EvaluatorState Key Signature) : Prop where
  cache : state.cache = start.cache
  evaluations : state.evaluations = start.evaluations
  confirmed : state.confirmed = start.confirmed
  looks : state.looks = looks

omit [DecidableEq Signature] in
/-- A look at the clock. -/
theorem remaining_looks (start : EvaluatorState Key Signature) (looks : Nat) :
    Holds (Looking start looks) (remaining checked)
      (fun _ state => Looking start (looks + 1) state ∧ checked.expired looks = false)
      (fun _ state => Looking start (looks + 1) state ∧ checked.expired looks = true) := by
  unfold remaining
  refine Holds.read_bind fun current looking => ?_
  refine (Holds.change (Looking start (looks + 1)) ?_).bind fun _ => ?_
  · rintro state rfl
    exact ⟨looking.cache, looking.evaluations, looking.confirmed, congrArg (· + 1) looking.looks⟩
  · rw [looking.looks]
    refine Holds.ite (fun expired => Holds.stop fun state post => ⟨post, expired⟩) fun early => ?_
    exact Holds.pure fun state post => ⟨post, Bool.eq_false_iff.mpr early⟩

omit [DecidableEq Signature] in
/-- The text of a candidate takes a look at the clock for every command. -/
theorem candidateText_looks (start : EvaluatorState Key Signature) (looks : Nat)
    (commands : List Command) :
    Holds (Looking start looks) (candidateText checked commands)
      (fun text state => text = textOf commands ∧ Looking start (looks + commands.length) state ∧
        ∀ look, looks ≤ look → look < looks + commands.length → checked.expired look = false)
      (fun reason state => reason = .budgetExhausted → state.confirmed = start.confirmed ∧
        ∃ look < looks + commands.length, checked.expired look = true) := by
  induction commands generalizing looks with
  | nil =>
    refine Holds.pure fun state looking => ⟨rfl, looking, ?_⟩
    intro look from_ before
    rw [List.length_nil] at before
    omega
  | cons command rest ih =>
    unfold candidateText
    have looked := (remaining_looks checked start looks).weaken (fun _ pre => pre)
      (fun _ _ post => post) (fun _ state post _ => ⟨post.1.confirmed, looks, by
        rw [List.length_cons]
        omega, post.2⟩ : ∀ reason state, _ → reason = Interruption.budgetExhausted →
          state.confirmed = start.confirmed ∧
            ∃ look < looks + (command :: rest).length, checked.expired look = true)
    refine looked.bind fun _ => ?_
    by_cases representable : command.Representable
    · rw [encodeCommand_ok representable]
      intro state post
      have later := ih (looks + 1)
      have length : looks + 1 + rest.length = looks + (command :: rest).length := by
        rw [List.length_cons]
        omega
      rw [length] at later
      refine Holds.bind later (fun lines => Holds.pure fun next tail => ?_) state post.1
      refine ⟨?_, tail.2.1, ?_⟩
      · have text : textOf (command :: rest) =
            List.intercalate [' '] command.fields ++ ['\n'] ++ textOf rest := rfl
        rw [tail.1, text, List.append_assoc]
        rfl
      · intro look after before
        rcases Nat.eq_or_lt_of_le after with now | later
        · exact now ▸ post.2
        · exact tail.2.2 look later before
    · cases encoded : encodeCommand command with
      | ok line => exact absurd (encodeCommand_representable encoded) representable
      | error error => exact Holds.stop fun _ _ budget => Interruption.noConfusion budget

variable [DecidableEq Key]

/-- A remembered result costs the looks of its key. -/
theorem asks_cached {candidate : List Command} {tally : Tally Key Signature}
    {result : Option Signature}
    (found : tally.cache.lookup (checked.sha256 (textOf candidate)) = some result) :
    checked.asks candidate tally = (.ok (decide (result = some checked.signature)),
      tally.settle checked.signature tally.cache result
        ⟨tally.spent.evaluations, tally.spent.looks + candidate.length⟩
        ⟨tally.spent.evaluations, tally.spent.looks + candidate.length⟩) := by
  unfold CandidateEvaluator.asks weigh
  simp only [found]

/-- A new result costs an evaluation and two looks more. -/
theorem asks_fresh {candidate : List Command} {tally : Tally Key Signature}
    (missing : tally.cache.lookup (checked.sha256 (textOf candidate)) = none) :
    checked.asks candidate tally =
      (.ok (decide (checked.evaluator candidate = some checked.signature)),
        tally.settle checked.signature
          ((checked.sha256 (textOf candidate), checked.evaluator candidate) :: tally.cache)
          (checked.evaluator candidate)
          ⟨tally.spent.evaluations + 1, tally.spent.looks + candidate.length + 1⟩
          ⟨tally.spent.evaluations + 1, tally.spent.looks + candidate.length + 2⟩) := by
  unfold CandidateEvaluator.asks weigh
  simp only [missing]

/-- Without limits a candidate gets a result, at a cost of a look for each of its commands at
least. -/
theorem asks_settles (candidate : List Command) (tally : Tally Key Signature) :
    ∃ cache result told spent,
      checked.asks candidate tally = (.ok (decide (result = some checked.signature)),
        tally.settle checked.signature cache result told spent) ∧
      tally.spent.evaluations ≤ told.evaluations ∧
      tally.spent.looks + candidate.length ≤ told.looks ∧
      told.evaluations ≤ spent.evaluations ∧ told.looks ≤ spent.looks := by
  cases found : tally.cache.lookup (checked.sha256 (textOf candidate)) with
  | some result =>
    exact ⟨_, _, ⟨_, _⟩, ⟨_, _⟩, asks_cached checked found,
      le_refl _, le_refl _, le_refl _, le_refl _⟩
  | none =>
    exact ⟨_, _, ⟨_, _⟩, ⟨_, _⟩, asks_fresh checked found,
      Nat.le_succ _, Nat.le_succ _, le_refl _, Nat.le_succ _⟩

/-- Beyond the limits, a candidate stays beyond them. -/
theorem asks_beyond {state : EvaluatorState Key Signature} {tally : Tally Key Signature}
    (beyond : Beyond checked state tally) (candidate : List Command) :
    Beyond checked state (checked.asks candidate tally).2 := by
  obtain ⟨cache, result, told, spent, settled, fewer, looks, more, later⟩ :=
    asks_settles checked candidate tally
  have expensive : ¬checked.Affords told := fun affords =>
    beyond.exceeds (affords.less checked fewer (Nat.le_of_add_right_le looks))
  rw [settled]
  exact beyond.settle checked cache result expensive fun affords =>
    expensive (affords.less checked more later)

omit [DecidableEq Key] [DecidableEq Signature] in
/-- A look that found the deadline leaves no room. -/
theorem CandidateEvaluator.not_affords_of_expired {cost : Cost} {look : Nat}
    (before : look < cost.looks) (expired : checked.expired look = true) :
    ¬checked.Affords cost := by
  intro affords
  rw [affords.2 look before] at expired
  exact Bool.noConfusion expired

omit [DecidableEq Key] in
/-- The comparison with the signature spends nothing. -/
theorem verdict_inStep {candidate : List Command} {result : Option Signature}
    {settled : Tally Key Signature}
    {stopped : Interruption → EvaluatorState Key Signature → Prop} :
    Holds (fun state => InStep checked state settled) (verdict checked candidate result)
      (fun answer state => answer = decide (result = some checked.signature) ∧
        InStep checked state settled) stopped := by
  unfold verdict
  refine Holds.ite (fun same => ?_) fun other =>
    Holds.pure fun _ step => ⟨(decide_eq_false other).symm, step⟩
  refine (Holds.change (fun state => InStep checked state settled) ?_).bind fun _ =>
    Holds.pure fun _ step => ⟨(decide_eq_true same).symm, step⟩
  intro state step
  exact ⟨step.cache, step.evaluations, step.looks, step.confirmations, step.afforded,
    step.affords⟩

omit [DecidableEq Key] in
/-- A fresh evaluation spends what it does without limits, or is cut where they end. -/
theorem evaluateFresh_cutShort {start : EvaluatorState Key Signature}
    {tally : Tally Key Signature} (step : InStep checked start tally) {candidate : List Command}
    {looks : Nat} (unexpired : ∀ look < looks, checked.expired look = false)
    (below : start.evaluations < checked.budget.maxEvaluations) {settled : Tally Key Signature}
    (same : settled = tally.settle checked.signature
      ((checked.sha256 (textOf candidate), checked.evaluator candidate) :: start.cache)
      (checked.evaluator candidate) ⟨start.evaluations + 1, looks + 1⟩
      ⟨start.evaluations + 1, looks + 2⟩) :
    Holds (Looking start looks)
      (evaluateFresh checked (checked.sha256 (textOf candidate)) candidate)
      (fun answer state =>
        answer = decide (checked.evaluator candidate = some checked.signature) ∧
          InStep checked state settled)
      (fun _ state => Beyond checked state settled) := by
  have stopped : ∀ after : EvaluatorState Key Signature, after.confirmed = start.confirmed →
      checked.expired looks = true → Beyond checked after settled := by
    intro after confirmed expired
    rw [same]
    exact step.stopped checked _ _
      (checked.not_affords_of_expired (Nat.lt_succ_self looks) expired)
      (checked.not_affords_of_expired (show looks < looks + 2 by omega) expired) confirmed
  let evaluated : EvaluatorState Key Signature := { start with
    evaluations := start.evaluations + 1
    confirmed := confirming checked candidate (checked.evaluator candidate) start.confirmed }
  unfold evaluateFresh
  refine Holds.bind ((remaining_looks checked start looks).weaken (fun _ pre => pre)
    (fun _ _ post => post) (fun _ state post => stopped state post.1.confirmed post.2)) fun _ => ?_
  refine (Holds.change (fun state => checked.expired looks = false ∧
    Looking evaluated (looks + 1) state) ?_).bind fun _ => ?_
  · rintro state ⟨looking, early⟩
    exact ⟨early, looking.cache, congrArg (· + 1) looking.evaluations,
      congrArg (confirming checked candidate _) looking.confirmed, looking.looks⟩
  refine Holds.withFact fun early => ?_
  have affordable : checked.Affords ⟨start.evaluations + 1, looks + 1⟩ := by
    refine ⟨below, fun look before => ?_⟩
    rcases Nat.lt_succ_iff_lt_or_eq.mp before with earlier | now
    · exact unexpired look earlier
    · exact now ▸ early
  refine Holds.bind ((remaining_looks checked evaluated (looks + 1)).weaken (fun _ pre => pre)
    (fun _ _ post => post) (fun _ state post => ?_)) fun _ => ?_
  · rw [same]
    exact step.overtaken checked _ affordable
      (checked.not_affords_of_expired (Nat.lt_succ_self _) post.2) post.1.confirmed
  refine (Holds.change (fun state => InStep checked state settled) ?_).bind fun _ =>
    verdict_inStep checked
  rintro state ⟨looking, late⟩
  have affords : checked.Affords ⟨start.evaluations + 1, looks + 2⟩ := by
    refine ⟨below, fun look before => ?_⟩
    rcases Nat.lt_succ_iff_lt_or_eq.mp before with earlier | now
    · exact affordable.2 look earlier
    · exact now ▸ late
  obtain ⟨cache, evaluations, confirmed, looked⟩ := looking
  rw [same]
  exact step.settle checked (congrArg (_ :: ·) cache) evaluations looked affordable affords
    confirmed

/-- The key of a candidate is found as without limits, or the deadline cuts it. -/
theorem candidateKey_looks {start : EvaluatorState Key Signature} {tally : Tally Key Signature}
    (step : InStep checked start tally) (candidate : List Command) :
    Holds (Looking start start.looks) (candidateKey checked candidate)
      (fun key state => key = checked.sha256 (textOf candidate) ∧
        Looking start (start.looks + candidate.length) state ∧
          ∀ look < start.looks + candidate.length, checked.expired look = false)
      (fun reason state => CutBehind checked reason state (checked.asks candidate tally).2) := by
  obtain ⟨_, _, _, _, settles, fewer, looks, more, later⟩ := asks_settles checked candidate tally
  unfold candidateKey
  refine Holds.bind ((candidateText_looks checked start start.looks candidate).weaken
    (fun _ pre => pre) (fun _ _ post => post) (fun reason state cut budget => ?_)) fun text =>
      Holds.pure fun state post => ⟨congrArg checked.sha256 post.1, post.2.1, fun look before => ?_⟩
  · obtain ⟨confirmed, look, before, expired⟩ := cut budget
    rw [settles]
    have expensive := checked.not_affords_of_expired
      (Nat.lt_of_lt_of_le (step.looks ▸ before) looks) expired
    exact step.stopped checked _ _ expensive
      (fun affords => expensive (affords.less checked more later)) confirmed
  · rcases Nat.lt_or_ge look start.looks with earlier | after
    · exact step.affords.2 look (step.looks ▸ earlier)
    · exact post.2.2 look after before

/-- A candidate is answered as without limits, or cut where they end. -/
theorem preserves_cutShort (candidate : List Command) :
    CutShort (InStep checked) (CutBehind checked) (preserves checked candidate)
      (checked.asks candidate) := by
  constructor
  · intro start tally step
    have spends : Holds (fun state => state = start) (preserves checked candidate)
        (fun answer state => (checked.asks candidate tally).1 = .ok answer ∧
          InStep checked state (checked.asks candidate tally).2)
        (fun reason state => CutBehind checked reason state (checked.asks candidate tally).2) := by
      unfold preserves
      refine (Holds.change (Looking start start.looks) ?_).bind fun _ => ?_
      · rintro state rfl
        exact ⟨rfl, rfl, rfl, rfl⟩
      refine (candidateKey_looks checked step candidate).bind fun key => ?_
      refine Holds.read_bind fun current pre => ?_
      obtain ⟨rfl, looking, unexpired⟩ := pre
      rw [looking.cache, step.cache]
      cases found : tally.cache.lookup (checked.sha256 (textOf candidate)) with
      | some result =>
        have affords : checked.Affords
            ⟨tally.spent.evaluations, tally.spent.looks + candidate.length⟩ :=
          ⟨step.affords.1, step.looks ▸ unexpired⟩
        rw [asks_cached checked found]
        refine (Holds.change (fun state => InStep checked state
          (tally.settle checked.signature tally.cache result
            ⟨tally.spent.evaluations, tally.spent.looks + candidate.length⟩
            ⟨tally.spent.evaluations, tally.spent.looks + candidate.length⟩)) ?_).bind
          fun _ => (verdict_inStep checked).returning fun answer _ post =>
            ⟨congrArg Except.ok post.1.symm, post.2⟩
        rintro state rfl
        exact step.settle checked (looking.cache.trans step.cache)
          (looking.evaluations.trans step.evaluations)
          (looking.looks.trans (congrArg (· + candidate.length) step.looks)) affords affords
          (congrArg (confirming checked candidate result) looking.confirmed)
      | none =>
        have settled := congrArg Prod.snd (asks_fresh checked found)
        rw [← step.cache, ← step.evaluations, ← step.looks] at settled
        refine Holds.ite (fun exhausted => Holds.stop ?_) fun below => ?_
        · rintro state rfl _
          rw [asks_fresh checked found]
          have spentAll : ¬checked.Affords ⟨tally.spent.evaluations + 1,
              tally.spent.looks + candidate.length + 1⟩ := by
            intro affords
            have within := affords.1
            rw [looking.evaluations, step.evaluations] at exhausted
            exact absurd exhausted (Nat.not_le_of_lt within)
          exact step.stopped checked _ _ spentAll
            (fun affords => spentAll (affords.less checked (le_refl _) (Nat.le_succ _)))
            looking.confirmed
        · rw [looking.evaluations] at below
          refine (evaluateFresh_cutShort checked step unexpired (Nat.lt_of_not_le below)
            settled).weaken ?_ (fun answer _ post => ⟨?_, post.2⟩) (fun _ _ cut _ => cut)
          · rintro state rfl
            exact looking
          · rw [asks_fresh checked found, post.1]
    exact spends start rfl
  · intro reason state tally late budget
    exact asks_beyond checked (late budget) candidate

end Answers

section Costs

variable {Key Signature : Type} [DecidableEq Key] [DecidableEq Signature]
  {checked : CandidateEvaluator Key Signature} {state : EvaluatorState Key Signature}
  {tally : Tally Key Signature}

omit [DecidableEq Key] [DecidableEq Signature] in
/-- The limits leave room for what the evaluator confirmed. -/
theorem Beyond.affordable (beyond : Beyond checked state tally) {index : Nat}
    (early : index < state.confirmed.length) :
    ∃ cost, tally.confirmations[index]? = some cost ∧ checked.Affords cost := by
  obtain ⟨paid, unpaid, split, counted, afforded, _⟩ := beyond.confirmations
  rw [counted] at early
  refine ⟨paid[index], ?_, afforded _ (List.getElem_mem early)⟩
  rw [split, List.getElem?_append_left early, List.getElem?_eq_getElem early]

omit [DecidableEq Key] [DecidableEq Signature] in
/-- The limits leave no room for what is confirmed beyond them. -/
theorem Beyond.expensive (beyond : Beyond checked state tally) {index : Nat} {cost : Cost}
    (late : state.confirmed.length ≤ index) (found : tally.confirmations[index]? = some cost) :
    ¬checked.Affords cost := by
  obtain ⟨paid, unpaid, split, counted, _, exceeding⟩ := beyond.confirmations
  rw [counted] at late
  rw [split, List.getElem?_append_right late] at found
  exact exceeding cost (List.mem_of_getElem? found)

omit [DecidableEq Key] [DecidableEq Signature] in
/-- The evaluator confirmed no more than the reduction beyond its limits. -/
theorem Beyond.length_le (beyond : Beyond checked state tally) :
    state.confirmed.length ≤ tally.confirmations.length := by
  obtain ⟨paid, unpaid, split, counted, _⟩ := beyond.confirmations
  rw [counted, split, List.length_append]
  exact Nat.le_add_right _ _

omit [DecidableEq Key] [DecidableEq Signature] in
/-- Passes that begin beyond the limits are spared by them. -/
theorem Beyond.spares {limited : List (Stage (EvaluatorState Key Signature))}
    {full : List (Stage (Tally Key Signature))}
    (short : StagesCutShort (InStep checked) (CutBehind checked) limited full)
    (beyond : Beyond checked state tally) (current : List Command) :
    LimitsSparePasses checked (passCosts full current tally) := by
  induction short generalizing current tally with
  | nil => exact fun pass inside => absurd inside List.not_mem_nil
  | cons pass _ ih =>
    have after := (pass current).onward .budgetExhausted state tally (fun _ => beyond) rfl
    unfold passCosts
    refine List.forall_mem_cons.mpr ⟨?_, ?_⟩
    · intro first found affords
      exact absurd affords (after.expensive beyond.length_le found)
    · intro later inside
      split at inside
      · exact ih after _ later inside
      · exact absurd inside List.not_mem_nil

/-- A sequence has encodings exactly when its commands are representable. -/
theorem encodable_iff {commands : List Command} :
    (commands.all fun command => (encodeCommand command).isOk) = true ↔
      ∀ command ∈ commands, command.Representable := by
  rw [List.all_eq_true]
  refine forall₂_congr fun command _ => ?_
  constructor
  · intro encoded
    cases result : encodeCommand command with
    | ok line => exact encodeCommand_representable result
    | error error =>
      rw [result] at encoded
      exact Bool.noConfusion encoded
  · intro representable
    rw [encodeCommand_ok representable]
    rfl

/-- An original that is refused has no passes. -/
theorem costs_refused {full : List (Stage (Tally Key Signature))} {original : List Command}
    (refused : ¬((∀ command ∈ original, command.Representable) ∧
      checked.evaluator original = some checked.signature)) :
    checked.costs full original = [] := by
  unfold CandidateEvaluator.costs
  rw [if_neg]
  rintro ⟨encodable, reproduces⟩
  exact refused ⟨encodable_iff.mp encodable, reproduces⟩

/-- The passes follow the evaluation of an original that shows the failure. -/
theorem costs_started {full : List (Stage (Tally Key Signature))} {original : List Command}
    (representable : ∀ command ∈ original, command.Representable)
    (reproduces : checked.evaluator original = some checked.signature) :
    checked.costs full original = passCosts full original (checked.asks original {}).2 := by
  unfold CandidateEvaluator.costs
  rw [if_pos ⟨encodable_iff.mpr representable, reproduces⟩]

/-- An original that is cut has no pass within the limits. -/
theorem Beyond.spares_all {limited : List (Stage (EvaluatorState Key Signature))}
    {full : List (Stage (Tally Key Signature))}
    (short : StagesCutShort (InStep checked) (CutBehind checked) limited full)
    {original : List Command} (beyond : Beyond checked state (checked.asks original {}).2) :
    LimitsSparePasses checked (checked.costs full original) := by
  by_cases started : (∀ command ∈ original, command.Representable) ∧
      checked.evaluator original = some checked.signature
  · rw [costs_started started.1 started.2]
    exact beyond.spares short original
  · rw [costs_refused started]
    exact fun pass inside => absurd inside List.not_mem_nil

end Costs

end AtlasLob.Oracle
