import AtlasLob.Spec.Reduction

/-!
# What the reducers keep

Every candidate a reducer hands to its evaluator is a nonempty sequence of representable
commands, the cache answers as the evaluator did to a candidate with the same key, and a pass
moves from the sequence it is given to the last candidate it adopted. What a cut pass adopted is
lost, and so is a candidate that is confirmed while the deadline passes.
-/

namespace AtlasLob.Oracle

open Interruptible

/-- A sequence that can be handed to the evaluator. -/
def Proposable (candidate : List Command) : Prop :=
  candidate ≠ [] ∧ ∀ command ∈ candidate, command.Representable

/-- A line does not contain the end of a line. -/
theorem line_clear (command : Command) :
    '\n' ∉ List.intercalate [' '] command.fields := by
  intro inside
  cases Decimal.mem_intercalate inside with
  | inl space => exact absurd space (by decide)
  | inr found =>
    obtain ⟨field, present, member⟩ := found
    exact absurd (command.fields_characters present member) (by decide)

/-- Different sequences have different texts. -/
theorem textOf_injective {left right : List Command} (same : textOf left = textOf right) :
    left = right := by
  have clear : ∀ commands : List Command, ∀ line ∈ commands.map fun command =>
      List.intercalate [' '] command.fields, '\n' ∉ line := by
    intro commands line inside
    obtain ⟨command, _, rfl⟩ := List.mem_map.mp inside
    exact line_clear command
  have spaceless : ∀ command : Command, ∀ field ∈ command.fields, ' ' ∉ field := by
    intro command field inside member
    exact absurd (command.fields_characters inside member) (by decide)
  have filled : ∀ command : Command, command.fields ≠ [] := by
    intro command
    cases command <;> exact List.cons_ne_nil _ _
  have line_injective : Function.Injective fun command : Command =>
      List.intercalate [' '] command.fields := by
    intro first second fields
    exact Command.fields_injective (Decimal.intercalate_injective (spaceless first)
      (spaceless second) (filled first) (filled second) fields)
  exact List.map_injective_iff.mpr line_injective
    (Decimal.lines_injective (clear left) (clear right) same)

section Evaluator

variable {Key Signature : Type} (checked : CandidateEvaluator Key Signature)

/-- What a look at the clock does not change. -/
def Timeless (condition : EvaluatorState Key Signature → Prop) : Prop :=
  ∀ state looks, condition state → condition { state with looks }

/-- Only the budget cut the computation, and the condition still holds. -/
def CutWith (condition : EvaluatorState Key Signature → Prop) (reason : Interruption)
    (state : EvaluatorState Key Signature) : Prop :=
  reason = .budgetExhausted ∧ condition state

section Key

variable {condition : EvaluatorState Key Signature → Prop}

/-- A look at the clock returns or cuts. -/
theorem remaining_holds (timeless : Timeless condition) :
    Holds condition (remaining checked) (fun _ => condition) (CutWith condition) := by
  unfold remaining
  refine Holds.read_bind fun current holds => ?_
  refine (Holds.change (condition) ?_).bind fun _ => ?_
  · rintro state rfl
    exact timeless state _ holds
  · refine Holds.ite (fun _ => Holds.stop fun state pre => ⟨rfl, pre⟩) fun _ => ?_
    exact Holds.pure fun _ pre => pre

/-- Only the budget or a command beyond its widths stopped the computation. -/
def StoppedWith (commands : List Command) (condition : EvaluatorState Key Signature → Prop)
    (reason : Interruption) (state : EvaluatorState Key Signature) : Prop :=
  (reason = .budgetExhausted ∨ ¬∀ command ∈ commands, command.Representable) ∧ condition state

/-- The text is made for representable commands only. -/
theorem candidateText_holds (timeless : Timeless condition) (commands : List Command) :
    Holds condition (candidateText checked commands)
      (fun text state =>
        (text = textOf commands ∧ ∀ command ∈ commands, command.Representable) ∧ condition state)
      (StoppedWith commands condition) := by
  induction commands with
  | nil => exact Holds.pure fun _ pre => ⟨⟨rfl, nofun⟩, pre⟩
  | cons command rest ih =>
    have looked : Holds condition (remaining checked) (fun _ => condition)
        (StoppedWith (command :: rest) condition) :=
      (remaining_holds checked timeless).weaken (fun _ pre => pre) (fun _ _ post => post)
        (fun _ _ cut => ⟨Or.inl cut.1, cut.2⟩)
    unfold candidateText
    refine looked.bind fun _ => ?_
    by_cases representable : command.Representable
    · rw [encodeCommand_ok representable]
      have later : Holds condition (candidateText checked rest) _
          (StoppedWith (command :: rest) condition) :=
        ih.weaken (fun _ pre => pre) (fun _ _ post => post) fun _ _ stopped =>
          ⟨stopped.1.imp id fun outside all => outside fun other inside =>
            all other (List.mem_cons_of_mem _ inside), stopped.2⟩
      refine later.bind fun lines => Holds.pure fun state post => ⟨⟨?_, ?_⟩, post.2⟩
      · have text : textOf (command :: rest) =
            List.intercalate [' '] command.fields ++ ['\n'] ++ textOf rest := rfl
        rw [post.1.1, text, List.append_assoc]
        rfl
      · exact List.forall_mem_cons.mpr ⟨representable, post.1.2⟩
    · cases encoded : encodeCommand command with
      | ok line => exact absurd (encodeCommand_representable encoded) representable
      | error error =>
        exact Holds.stop fun _ pre =>
          ⟨Or.inr fun all => representable (all command List.mem_cons_self), pre⟩

/-- The key of representable commands is the digest of their text. -/
theorem candidateKey_holds (timeless : Timeless condition) (commands : List Command) :
    Holds condition (candidateKey checked commands)
      (fun key state => (key = checked.sha256 (textOf commands) ∧
        ∀ command ∈ commands, command.Representable) ∧ condition state)
      (StoppedWith commands condition) := by
  unfold candidateKey
  refine (candidateText_holds checked timeless commands).bind fun text => ?_
  exact Holds.pure fun _ post => ⟨⟨by rw [post.1.1], post.1.2⟩, post.2⟩

end Key

/-- What the answer to a candidate rests on: it was asked, and so was a candidate with the same key
and this result. -/
def Vouched (state : EvaluatorState Key Signature) (candidate : List Command)
    (result : Option Signature) : Prop :=
  candidate ∈ state.asked ∧ ∃ earlier ∈ state.asked,
    checked.sha256 (textOf earlier) = checked.sha256 (textOf candidate) ∧
      checked.evaluator earlier = result

variable [DecidableEq Key]

/-- What holds of the evaluator at any time. -/
structure Coherent (state : EvaluatorState Key Signature) : Prop where
  /-- The budget is kept. -/
  evaluations_le : state.evaluations ≤ checked.budget.maxEvaluations
  /-- Every evaluation is counted. -/
  evaluated_length : state.evaluated.length = state.evaluations
  /-- Only proper candidates are evaluated. -/
  handed : ∀ candidate ∈ state.evaluated, Proposable candidate
  /-- The cache holds what the evaluator answered to a candidate with the key. -/
  cached : ∀ key result, state.cache.lookup key = some result → ∃ earlier ∈ state.asked,
    checked.sha256 (textOf earlier) = key ∧ checked.evaluator earlier = result
  /-- What was accepted showed the failure, as far as keys tell. -/
  vouched : ∀ candidate ∈ state.accepted, Vouched checked state candidate (some checked.signature)

/-- The evaluator is coherent and has accepted these candidates and confirmed no others. -/
structure Ready (log : List (List Command)) (state : EvaluatorState Key Signature) : Prop where
  coherent : Coherent checked state
  accepted : state.accepted = log
  confirmed : state.confirmed = log

/-- The evaluator was stopped on a candidate, which it may have confirmed. -/
structure Interrupted (log : List (List Command)) (candidate : List Command)
    (state : EvaluatorState Key Signature) : Prop where
  coherent : Coherent checked state
  accepted : state.accepted = log
  confirmed : state.confirmed = log ∨ state.confirmed = log ++ [candidate]

/-- The evaluator has been asked for a candidate. -/
def Asked (log : List (List Command)) (candidate : List Command)
    (state : EvaluatorState Key Signature) : Prop :=
  Ready checked log state ∧ candidate ∈ state.asked

omit [DecidableEq Key] in
/-- What was vouched for stays so when more is asked. -/
theorem Vouched.more {state after : EvaluatorState Key Signature} {candidate : List Command}
    {result : Option Signature} (vouched : Vouched checked state candidate result)
    (more : ∀ other ∈ state.asked, other ∈ after.asked) :
    Vouched checked after candidate result := by
  obtain ⟨asked, earlier, inside, same, evaluated⟩ := vouched
  exact ⟨more candidate asked, earlier, more earlier inside, same, evaluated⟩

/-- Asking keeps the evaluator ready. -/
theorem Ready.ask {log : List (List Command)} {state : EvaluatorState Key Signature}
    (ready : Ready checked log state) (candidate : List Command) :
    Asked checked log candidate { state with asked := state.asked ++ [candidate] } := by
  have more : ∀ other ∈ state.asked, other ∈ state.asked ++ [candidate] :=
    fun other inside => List.mem_append_left _ inside
  obtain ⟨coherent, accepted, confirmed⟩ := ready
  refine ⟨⟨⟨coherent.evaluations_le, coherent.evaluated_length, coherent.handed, ?_, ?_⟩,
    accepted, confirmed⟩, List.mem_append_right _ List.mem_cons_self⟩
  · intro key result found
    obtain ⟨earlier, inside, same⟩ := coherent.cached key result found
    exact ⟨earlier, more earlier inside, same⟩
  · intro other inside
    exact (coherent.vouched other inside).more checked more

/-- The clock does not matter to the evaluator. -/
theorem Asked.timeless (log : List (List Command)) (candidate : List Command) :
    Timeless (Asked checked log candidate) := by
  rintro state looks ⟨⟨coherent, accepted, confirmed⟩, asked⟩
  exact ⟨⟨⟨coherent.evaluations_le, coherent.evaluated_length, coherent.handed, coherent.cached,
    coherent.vouched⟩, accepted, confirmed⟩, asked⟩

/-- A stop before any answer leaves the candidate open. -/
theorem Asked.interrupted {log : List (List Command)} {candidate : List Command}
    {state : EvaluatorState Key Signature} (asked : Asked checked log candidate state) :
    Interrupted checked log candidate state :=
  ⟨asked.1.coherent, asked.1.accepted, Or.inl asked.1.confirmed⟩

variable [DecidableEq Signature]

/-- A candidate has its result, which the confirmed candidates already include. -/
structure Told (log : List (List Command)) (candidate : List Command) (result : Option Signature)
    (state : EvaluatorState Key Signature) : Prop where
  coherent : Coherent checked state
  accepted : state.accepted = log
  confirmed : state.confirmed = confirming checked candidate result log
  vouched : Vouched checked state candidate result

/-- The clock does not matter to a result. -/
theorem Told.timeless (log : List (List Command)) (candidate : List Command)
    (result : Option Signature) : Timeless (Told checked log candidate result) := by
  rintro state looks ⟨coherent, accepted, confirmed, vouched⟩
  exact ⟨⟨coherent.evaluations_le, coherent.evaluated_length, coherent.handed, coherent.cached,
    coherent.vouched⟩, accepted, confirmed, vouched⟩

/-- A stop after the result may leave a candidate confirmed and not accepted. -/
theorem Told.interrupted {log : List (List Command)} {candidate : List Command}
    {result : Option Signature} {state : EvaluatorState Key Signature}
    (told : Told checked log candidate result state) :
    Interrupted checked log candidate state := by
  refine ⟨told.coherent, told.accepted, ?_⟩
  rw [told.confirmed]
  unfold confirming
  by_cases same : result = some checked.signature
  · rw [if_pos same]
    exact Or.inr rfl
  · rw [if_neg same]
    exact Or.inl rfl

/-- What the answer to a candidate leaves behind. -/
def Answered (log : List (List Command)) (candidate : List Command) (answer : Bool)
    (state : EvaluatorState Key Signature) : Prop :=
  if answer then Ready checked (log ++ [candidate]) state
  else Ready checked log state ∧
    ∃ result ≠ some checked.signature, Vouched checked state candidate result

/-- The comparison with the signature accepts or refuses. -/
theorem verdict_holds {log : List (List Command)} {candidate : List Command}
    {result : Option Signature} {stopped : Interruption → EvaluatorState Key Signature → Prop} :
    Holds (Told checked log candidate result) (verdict checked candidate result)
      (Answered checked log candidate) stopped := by
  unfold verdict
  refine Holds.ite (fun same => ?_) fun other => Holds.pure ?_
  · refine (Holds.change (Ready checked (log ++ [candidate])) ?_).bind fun _ =>
      Holds.pure fun _ ready => ready
    rintro state ⟨coherent, accepted, confirmed, vouched⟩
    rw [same] at vouched
    unfold confirming at confirmed
    rw [if_pos same] at confirmed
    refine ⟨⟨coherent.evaluations_le, coherent.evaluated_length, coherent.handed, coherent.cached,
      ?_⟩, congrArg (· ++ [candidate]) accepted, confirmed⟩
    intro earlier inside
    cases List.mem_append.mp inside with
    | inl before => exact coherent.vouched earlier before
    | inr last =>
      rw [List.mem_singleton.mp last]
      exact vouched
  · rintro state ⟨coherent, accepted, confirmed, vouched⟩
    unfold confirming at confirmed
    rw [if_neg other] at confirmed
    exact ⟨⟨coherent, accepted, confirmed⟩, result, other, vouched⟩

/-- A fresh evaluation is counted, handed over and remembered. -/
theorem evaluateFresh_holds {log : List (List Command)} {candidate : List Command}
    (proposable : Proposable candidate) :
    Holds (fun state => Asked checked log candidate state ∧
        state.evaluations < checked.budget.maxEvaluations)
      (evaluateFresh checked (checked.sha256 (textOf candidate)) candidate)
      (Answered checked log candidate) (CutWith (Interrupted checked log candidate)) := by
  unfold evaluateFresh
  have timeless : Timeless fun state => Asked checked log candidate state ∧
      state.evaluations < checked.budget.maxEvaluations :=
    fun state looks pre => ⟨Asked.timeless checked log candidate state looks pre.1, pre.2⟩
  refine Holds.bind ((remaining_holds checked timeless).weaken (fun _ pre => pre)
    (fun _ _ post => post) (fun _ _ cut => ⟨cut.1, cut.2.1.interrupted⟩)) fun _ => ?_
  refine (Holds.change (Told checked log candidate (checked.evaluator candidate)) ?_).bind
    fun _ => ?_
  · rintro state ⟨⟨⟨coherent, accepted, confirmed⟩, asked⟩, below⟩
    refine ⟨⟨below, ?_, ?_, coherent.cached, coherent.vouched⟩, accepted,
      congrArg (confirming checked candidate _) confirmed, asked, candidate, asked, rfl, rfl⟩
    · show (state.evaluated ++ [candidate]).length = state.evaluations + 1
      rw [List.length_append, coherent.evaluated_length]
      rfl
    · intro other inside
      cases List.mem_append.mp inside with
      | inl earlier => exact coherent.handed other earlier
      | inr last => exact List.mem_singleton.mp last ▸ proposable
  refine Holds.bind ((remaining_holds checked (Told.timeless checked log candidate _)).weaken
    (fun _ pre => pre) (fun _ _ post => post) (fun _ _ cut => ⟨cut.1, cut.2.interrupted⟩))
    fun _ => ?_
  refine (Holds.change (Told checked log candidate (checked.evaluator candidate)) ?_).bind
    fun _ => verdict_holds checked
  rintro state ⟨coherent, accepted, confirmed, vouched⟩
  refine ⟨⟨coherent.evaluations_le, coherent.evaluated_length, coherent.handed, ?_,
    coherent.vouched⟩, accepted, confirmed, vouched⟩
  intro key result found
  rw [List.lookup_cons] at found
  by_cases same : key = checked.sha256 (textOf candidate)
  · rw [beq_iff_eq.mpr same] at found
    exact ⟨candidate, vouched.1, same.symm, Option.some.inj found⟩
  · rw [beq_eq_false_iff_ne.mpr same] at found
    exact coherent.cached key result found

/-- The answer to a candidate. -/
theorem preserves_holds {log : List (List Command)} {candidate : List Command}
    (filled : candidate ≠ []) :
    Holds (Ready checked log) (preserves checked candidate)
      (fun answer state => Proposable candidate ∧ Answered checked log candidate answer state)
      (StoppedWith candidate (Interrupted checked log candidate)) := by
  unfold preserves
  refine (Holds.change (Asked checked log candidate)
    fun _ ready => ready.ask checked candidate).bind fun _ => ?_
  have keyed := (candidateKey_holds checked (Asked.timeless checked log candidate) candidate).weaken
    (fun _ pre => pre) (fun _ _ post => post) (fun _ _ stopped => ⟨stopped.1,
      stopped.2.interrupted⟩ : ∀ reason state, StoppedWith candidate _ reason state →
        StoppedWith candidate (Interrupted checked log candidate) reason state)
  refine keyed.bind fun key => ?_
  refine Holds.read_bind fun current pre => ?_
  have proposable : Proposable candidate := ⟨filled, pre.1.2⟩
  obtain ⟨⟨coherent, accepted, confirmed⟩, asked⟩ := pre.2
  rw [pre.1.1]
  cases found : current.cache.lookup (checked.sha256 (textOf candidate)) with
  | some result =>
    refine (Holds.change (Told checked log candidate result) ?_).bind fun _ =>
      (verdict_holds checked).returning fun _ _ answered => ⟨proposable, answered⟩
    rintro state rfl
    obtain ⟨earlier, inside, same, evaluated⟩ := coherent.cached _ _ found
    exact ⟨⟨coherent.evaluations_le, coherent.evaluated_length, coherent.handed, coherent.cached,
      coherent.vouched⟩, accepted, congrArg (confirming checked candidate result) confirmed,
      asked, earlier, inside, same, evaluated⟩
  | none =>
    refine Holds.ite (fun _ => Holds.stop ?_) fun below => ?_
    · rintro state rfl
      exact ⟨Or.inl rfl, pre.2.interrupted⟩
    · refine (evaluateFresh_holds checked proposable).weaken ?_
        (fun _ _ post => ⟨proposable, post⟩) (fun _ _ cut => ⟨Or.inl cut.1, cut.2⟩)
      rintro state rfl
      exact ⟨pre.2, Nat.lt_of_not_le below⟩

/-- The answer to a proper candidate: nothing but the budget can cut it. -/
theorem preserves_proposable {log : List (List Command)} {candidate : List Command}
    (proposable : Proposable candidate) :
    Holds (Ready checked log) (preserves checked candidate) (Answered checked log candidate)
      (CutWith (Interrupted checked log candidate)) :=
  (preserves_holds checked proposable.1).weaken (fun _ ready => ready) (fun _ _ post => post.2)
    fun _ _ stopped =>
      ⟨stopped.1.resolve_right fun outside => outside proposable.2, stopped.2⟩

section Passes

variable (original : List Command)

/-- A sequence the reducer may return. -/
structure Admissible (current : List Command) : Prop where
  /-- It can be handed to the evaluator. -/
  proposable : Proposable current
  /-- It is not longer than the original. -/
  length_le : current.length ≤ original.length

/-- Where a search that started from a sequence stands: nothing was accepted yet, or the current
sequence is the last one accepted and lies below the start. -/
structure Reached (below : List Command → List Command → Prop) (origin : List Command)
    (log : List (List Command)) (current : List Command)
    (state : EvaluatorState Key Signature) : Prop where
  coherent : Coherent checked state
  admissible : Admissible original current
  confirmed : state.confirmed = state.accepted
  progress : state.accepted = log ∧ current = origin ∨
    below current origin ∧ ∃ earlier, state.accepted = log ++ earlier ++ [current]

/-- A log has not grown, or its last sequence lies below the start. -/
def Advanced (below : List Command → List Command → Prop) (origin : List Command)
    (log grown : List (List Command)) : Prop :=
  grown = log ∨ ∃ earlier current, below current origin ∧ grown = log ++ earlier ++ [current]

/-- A search that was cut had accepted and confirmed only what lies below its start. -/
structure CutSearch (below : List Command → List Command → Prop) (origin : List Command)
    (log : List (List Command)) (reason : Interruption)
    (state : EvaluatorState Key Signature) : Prop where
  budget : reason = .budgetExhausted
  coherent : Coherent checked state
  accepted : Advanced below origin log state.accepted
  confirmed : Advanced below origin log state.confirmed
  /-- What was accepted was confirmed first. -/
  confirmedFirst : state.accepted <+: state.confirmed

/-- An order on sequences in which a search descends. -/
structure Descending (below : List Command → List Command → Prop) : Prop where
  irreflexive : ∀ current, ¬below current current
  transitive : ∀ first second third, below first second → below second third → below first third

/-- A pass moves from the sequence it is given to the last candidate it adopted, which is another
sequence, whether it returns or is cut. -/
def PassKeeps (pass : List Command → Reducer Key Signature (List Command)) : Prop :=
  ∀ origin log, Admissible original origin →
    ∃ below, (∀ current, below current origin → current ≠ origin) ∧
      Holds (Ready checked log) (pass origin) (Reached checked original below origin log)
        (CutSearch checked below origin log)

section Search

variable {checked original} {below : List Command → List Command → Prop} {origin : List Command}
  {log : List (List Command)}

omit [DecidableEq Signature] in
/-- What a search has accepted has advanced. -/
theorem Reached.advanced {current : List Command} {state : EvaluatorState Key Signature}
    (reached : Reached checked original below origin log current state) :
    Advanced below origin log state.accepted := by
  rcases reached.progress with ⟨start, _⟩ | ⟨lower, earlier, accepted⟩
  · exact Or.inl start
  · exact Or.inr ⟨earlier, current, lower, accepted⟩

omit [DecidableEq Signature] in
/-- A candidate below the current sequence advances what the search has accepted. -/
theorem Reached.advance (descending : Descending below) {current candidate : List Command}
    {state : EvaluatorState Key Signature}
    (reached : Reached checked original below origin log current state)
    (lower : below candidate current) :
    below candidate origin ∧
      ∃ earlier, state.accepted ++ [candidate] = log ++ earlier ++ [candidate] := by
  rcases reached.progress with ⟨start, rfl⟩ | ⟨moved, earlier, accepted⟩
  · exact ⟨lower, [], by rw [start, List.append_nil]⟩
  · refine ⟨descending.transitive _ _ _ lower moved, earlier ++ [current], ?_⟩
    rw [accepted, List.append_assoc log]

/-- A candidate below the current sequence moves the search when it is accepted. -/
theorem Reached.test (descending : Descending below) {current candidate : List Command}
    (proposable : Proposable candidate) (shorter : candidate.length ≤ current.length)
    (lower : below candidate current) :
    Holds (Reached checked original below origin log current) (preserves checked candidate)
      (fun answer state => if answer then Reached checked original below origin log candidate state
        else Reached checked original below origin log current state)
      (CutSearch checked below origin log) := by
  intro state reached
  have answered := (preserves_proposable checked proposable :
    Holds (Ready checked state.accepted) _ _ _) state ⟨reached.coherent, rfl, reached.confirmed⟩
  obtain ⟨moved, earlier, extended⟩ := reached.advance descending lower
  cases run : preserves checked candidate state with
  | mk outcome next =>
    rw [run] at answered
    cases outcome with
    | error reason =>
      obtain ⟨budget, coherent, accepted, confirmed⟩ := answered
      rcases confirmed with before | overtaken
      · refine ⟨budget, coherent, accepted ▸ reached.advanced, before ▸ reached.advanced, ?_⟩
        rw [accepted, before]
      · refine ⟨budget, coherent, accepted ▸ reached.advanced,
          Or.inr ⟨earlier, candidate, moved, overtaken.trans extended⟩, ?_⟩
        rw [accepted, overtaken]
        exact List.prefix_append _ _
    | ok answer =>
      cases answer with
      | false =>
        obtain ⟨⟨coherent, accepted, confirmed⟩, _⟩ : Ready checked state.accepted next ∧ _ :=
          answered
        refine ⟨coherent, reached.admissible, confirmed.trans accepted.symm, ?_⟩
        rw [accepted]
        exact reached.progress
      | true =>
        have ready : Ready checked (state.accepted ++ [candidate]) next := answered
        exact ⟨ready.coherent,
          ⟨proposable, Nat.le_trans shorter reached.admissible.length_le⟩,
          ready.confirmed.trans ready.accepted.symm,
          Or.inr ⟨moved, earlier, ready.accepted.trans extended⟩⟩

omit [DecidableEq Signature] in
/-- A search begins where it stands. -/
theorem Reached.start (admissible : Admissible original origin)
    {state : EvaluatorState Key Signature} (ready : Ready checked log state) :
    Reached checked original below origin log origin state :=
  ⟨ready.coherent, admissible, ready.confirmed.trans ready.accepted.symm,
    Or.inl ⟨ready.accepted, rfl⟩⟩

/-- The first accepted of some candidates below the current sequence. -/
theorem Reached.first (descending : Descending below) {current : List Command}
    (candidates : List (List Command))
    (each : ∀ candidate ∈ candidates, Proposable candidate ∧
      candidate.length ≤ current.length ∧ below candidate current) :
    Holds (Reached checked original below origin log current)
      (firstThat (preserves checked) candidates)
      (fun found state =>
        Reached checked original below origin log (found.getD current) state ∧
          ∀ candidate ∈ found, candidate ∈ candidates)
      (CutSearch checked below origin log) := by
  refine (Holds.firstThat candidates fun candidate inside =>
    Reached.test descending (each candidate inside).1 (each candidate inside).2.1
      (each candidate inside).2.2).returning fun found state post => ?_
  cases found with
  | none => exact ⟨post, nofun⟩
  | some candidate =>
    refine ⟨post.2, fun other same => ?_⟩
    rw [← Option.mem_some.mp same]
    exact post.1

/-- A search that keeps to commands at one position. -/
theorem Reached.position (descending : Descending below) {kept rest : List Command}
    {command : Command} (alternatives : List Command)
    (each : ∀ candidate ∈ alternatives, Proposable (kept ++ command :: rest) →
      candidate.Representable ∧ below (kept ++ candidate :: rest) (kept ++ command :: rest)) :
    Holds (Reached checked original below origin log (kept ++ command :: rest))
      (firstAt (preserves checked) kept rest alternatives command)
      (fun chosen => Reached checked original below origin log (kept ++ chosen :: rest))
      (CutSearch checked below origin log) := by
  intro state reached
  have proposable := reached.admissible.proposable
  have steps : Holds (Reached checked original below origin log (kept ++ command :: rest))
      (firstAt (preserves checked) kept rest alternatives command)
      (fun chosen => Reached checked original below origin log (kept ++ chosen :: rest))
      (CutSearch checked below origin log) := by
    have tests : ∀ candidate ∈ alternatives,
        Holds (Reached checked original below origin log (kept ++ command :: rest))
          (preserves checked (kept ++ candidate :: rest))
          (fun answer state => if answer
            then Reached checked original below origin log (kept ++ candidate :: rest) state
            else Reached checked original below origin log (kept ++ command :: rest) state)
          (CutSearch checked below origin log) := by
      intro candidate inside
      obtain ⟨representable, lower⟩ := each candidate inside proposable
      refine Reached.test descending ⟨by simp, ?_⟩ (by simp) lower
      intro other member
      rcases List.mem_append.mp member with before | after
      · exact proposable.2 other (List.mem_append_left _ before)
      · cases List.mem_cons.mp after with
        | inl same => exact same ▸ representable
        | inr later =>
          exact proposable.2 other (List.mem_append_right _ (List.mem_cons_of_mem _ later))
    unfold firstAt
    refine (Holds.firstThat alternatives tests).bind fun found => ?_
    refine Holds.pure fun next post => ?_
    cases found with
    | none => exact post
    | some candidate => exact post.2
  exact steps state reached

end Search

end Passes

end Evaluator

end AtlasLob.Oracle
