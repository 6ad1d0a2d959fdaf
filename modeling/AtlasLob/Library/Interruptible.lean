/-!
# Computations that may stop

A computation reads and writes a state and returns a value, or stops for a reason; the state
survives the stop. A triple says what holds when a computation returns and what holds when it
stops, and has a rule for every way of building a computation, the two loops over a list among
them. Two computations are alike when they end in the same way from related states, and one is
the other cut short when it does the same until it stops, with the same rules.
-/

namespace AtlasLob

/-- A computation over a state that returns a value or stops for a reason. -/
def Interruptible (State Stop Value : Type) : Type := State → Except Stop Value × State

namespace Interruptible

variable {State Stop Value Next Item : Type}

/-- The computation that returns at once. -/
def done (value : Value) : Interruptible State Stop Value := fun state => (.ok value, state)

/-- The computation that stops at once. -/
def stop (reason : Stop) : Interruptible State Stop Value := fun state => (.error reason, state)

/-- One computation after another; a stop of the first is a stop of both. -/
def andThen (first : Interruptible State Stop Value)
    (second : Value → Interruptible State Stop Next) : Interruptible State Stop Next :=
  fun state =>
    match first state with
    | (.ok value, next) => second value next
    | (.error reason, next) => (.error reason, next)

instance : Monad (Interruptible State Stop) where
  pure := done
  bind := andThen

/-- The state as a value. -/
def read : Interruptible State Stop State := fun state => (.ok state, state)

/-- A change of the state. -/
def change (update : State → State) : Interruptible State Stop Unit :=
  fun state => (.ok (), update state)

/-- The first item of a list that passes a test. -/
def firstThat (test : Item → Interruptible State Stop Bool) :
    List Item → Interruptible State Stop (Option Item)
  | [] => pure none
  | item :: rest => do
    if ← test item then pure (some item) else firstThat test rest

/-- A value carried along a list. -/
def carry (body : Value → Item → Interruptible State Stop Value) :
    Value → List Item → Interruptible State Stop Value
  | value, [] => pure value
  | value, item :: rest => do
    let next ← body value item
    carry body next rest

/-- A list rewritten position by position: the body sees what it has rewritten so far, the item
at the position and the items still to come. -/
def eachPosition (body : List Item → Item → List Item → Interruptible State Stop Item) :
    List Item → List Item → Interruptible State Stop (List Item)
  | kept, [] => pure kept
  | kept, item :: rest => do
    let chosen ← body kept item rest
    eachPosition body (kept ++ [chosen]) rest

/-- From a state that meets the precondition, the computation returns as the second predicate
says or stops as the third one says. -/
def Holds (before : State → Prop) (program : Interruptible State Stop Value)
    (after : Value → State → Prop) (stopped : Stop → State → Prop) : Prop :=
  ∀ state, before state →
    match program state with
    | (.ok value, next) => after value next
    | (.error reason, next) => stopped reason next

namespace Holds

variable {before before' : State → Prop} {after : Value → State → Prop}
  {stopped stopped' : Stop → State → Prop} {program : Interruptible State Stop Value}

/-- A triple gives up what is not asked for. -/
theorem weaken {after' : Value → State → Prop} (holds : Holds before program after stopped)
    (strengthened : ∀ state, before' state → before state)
    (returns : ∀ value state, after value state → after' value state)
    (stops : ∀ reason state, stopped reason state → stopped' reason state) :
    Holds before' program after' stopped' := by
  intro state pre
  have post := holds state (strengthened state pre)
  cases run : program state with
  | mk outcome next =>
    rw [run] at post
    cases outcome with
    | ok value => exact returns value next post
    | error reason => exact stops reason next post

/-- A triple asks for less when it returns. -/
theorem returning {after' : Value → State → Prop} (holds : Holds before program after stopped)
    (returns : ∀ value state, after value state → after' value state) :
    Holds before program after' stopped :=
  holds.weaken (fun _ pre => pre) returns (fun _ _ post => post)

/-- A triple from a stronger precondition. -/
theorem from_stronger (holds : Holds before program after stopped)
    (strengthened : ∀ state, before' state → before state) :
    Holds before' program after stopped :=
  holds.weaken strengthened (fun _ _ post => post) (fun _ _ post => post)

/-- What is known of the state but does not change is a fact. -/
theorem withFact {fact : Prop} (holds : fact → Holds before program after stopped) :
    Holds (fun state => fact ∧ before state) program after stopped :=
  fun state pre => holds pre.1 state pre.2

/-- A computation that cannot stop returns. -/
theorem returns (holds : Holds before program after fun _ _ => False) (state : State)
    (pre : before state) :
    ∃ value next, program state = (.ok value, next) ∧ after value next := by
  have post := holds state pre
  cases run : program state with
  | mk outcome next =>
    rw [run] at post
    cases outcome with
    | error reason => exact absurd post id
    | ok value => exact ⟨value, next, rfl, post⟩

/-- Returning at once. -/
theorem pure {value : Value} (post : ∀ state, before state → after value state) :
    Holds before (Pure.pure value : Interruptible State Stop Value) after stopped :=
  fun state pre => post state pre

/-- Stopping at once. -/
theorem stop {reason : Stop} (post : ∀ state, before state → stopped reason state) :
    Holds before (Interruptible.stop reason : Interruptible State Stop Value) after stopped :=
  fun state pre => post state pre

/-- Changing the state. -/
theorem change {update : State → State} (changed : State → Prop)
    (post : ∀ state, before state → changed (update state)) :
    Holds before (Interruptible.change update : Interruptible State Stop Unit) (fun _ => changed)
      stopped :=
  fun state pre => post state pre

/-- Reading the state fixes it for what follows. -/
theorem read_bind {rest : State → Interruptible State Stop Value}
    (holds : ∀ current, before current →
      Holds (fun state => state = current) (rest current) after stopped) :
    Holds before (Interruptible.read >>= rest) after stopped :=
  fun state pre => holds state pre state rfl

/-- One computation after another. -/
theorem bind {middle : Value → State → Prop} {final : Next → State → Prop}
    {second : Value → Interruptible State Stop Next} (first : Holds before program middle stopped)
    (rest : ∀ value, Holds (middle value) (second value) final stopped) :
    Holds before (program >>= second) final stopped := by
  intro state pre
  have post := first state pre
  show match andThen program second state with
    | (.ok value, next) => final value next
    | (.error reason, next) => stopped reason next
  unfold andThen
  cases run : program state with
  | mk outcome next =>
    rw [run] at post
    cases outcome with
    | ok value => exact rest value next post
    | error reason => exact post

/-- One computation after another, with what holds between them. -/
theorem through (middle : Value → State → Prop) {final : Next → State → Prop}
    {second : Value → Interruptible State Stop Next} (first : Holds before program middle stopped)
    (rest : ∀ value, Holds (middle value) (second value) final stopped) :
    Holds before (program >>= second) final stopped :=
  first.bind rest

/-- A condition known before the run decides the branch. -/
theorem ite {condition : Prop} [Decidable condition] {left right : Interruptible State Stop Value}
    (yes : condition → Holds before left after stopped)
    (no : ¬condition → Holds before right after stopped) :
    Holds before (if condition then left else right) after stopped := by
  by_cases holds : condition
  · rw [if_pos holds]
    exact yes holds
  · rw [if_neg holds]
    exact no holds

/-- The first item that passes: it comes with what its test established. -/
theorem firstThat {test : Item → Interruptible State Stop Bool} {accepted : Item → State → Prop}
    (items : List Item)
    (each : ∀ item ∈ items, Holds before (test item)
      (fun verdict state => if verdict then accepted item state else before state) stopped) :
    Holds before (Interruptible.firstThat test items)
      (fun found state => match found with
        | some item => item ∈ items ∧ accepted item state
        | none => before state) stopped := by
  induction items with
  | nil => exact Holds.pure fun _ pre => pre
  | cons item rest ih =>
    have later := ih fun other inside => each other (List.mem_cons_of_mem item inside)
    unfold Interruptible.firstThat
    refine (each item List.mem_cons_self).bind fun verdict => ?_
    cases verdict with
    | true => exact Holds.pure fun _ pre => ⟨List.mem_cons_self, pre⟩
    | false =>
      refine later.returning fun found state post => ?_
      cases found with
      | none => exact post
      | some other => exact ⟨List.mem_cons_of_mem item post.1, post.2⟩

/-- What every step of a loop keeps, the loop keeps. -/
theorem carry {body : Value → Item → Interruptible State Stop Value}
    {invariant : Value → State → Prop} (items : List Item) (value : Value)
    (each : ∀ item ∈ items, ∀ value, Holds (invariant value) (body value item) invariant stopped) :
    Holds (invariant value) (Interruptible.carry body value items) invariant stopped := by
  induction items generalizing value with
  | nil => exact Holds.pure fun _ pre => pre
  | cons item rest ih =>
    have later := fun next => ih next fun other inside =>
      each other (List.mem_cons_of_mem item inside)
    unfold Interruptible.carry
    exact (each item List.mem_cons_self value).bind later

/-- What every position of a rewriting keeps of the whole list, the rewriting keeps. -/
theorem eachPosition {body : List Item → Item → List Item → Interruptible State Stop Item}
    {invariant : List Item → State → Prop} (kept items : List Item)
    (each : ∀ kept item rest, Holds (invariant (kept ++ item :: rest)) (body kept item rest)
      (fun chosen => invariant (kept ++ chosen :: rest)) stopped) :
    Holds (invariant (kept ++ items)) (Interruptible.eachPosition body kept items) invariant
      stopped := by
  induction items generalizing kept with
  | nil =>
    rw [List.append_nil]
    exact Holds.pure fun _ pre => pre
  | cons item rest ih =>
    unfold Interruptible.eachPosition
    refine (each kept item rest).bind fun chosen => ?_
    have later := ih (kept ++ [chosen])
    rwa [List.append_assoc, List.singleton_append] at later

end Holds

/-- From related states, two computations end alike and leave related states. -/
def Alike (related : State → State → Prop) (left right : Interruptible State Stop Value) : Prop :=
  ∀ first second, related first second →
    (left first).1 = (right second).1 ∧ related (left first).2 (right second).2

namespace Alike

variable {related : State → State → Prop} {left right : Interruptible State Stop Value}

/-- Returning the same value at once. -/
theorem pure (value : Value) :
    Alike related (Pure.pure value : Interruptible State Stop Value) (Pure.pure value) :=
  fun _ _ same => ⟨rfl, same⟩

/-- Stopping for the same reason at once. -/
theorem stop (reason : Stop) :
    Alike related (Interruptible.stop reason : Interruptible State Stop Value)
      (Interruptible.stop reason) :=
  fun _ _ same => ⟨rfl, same⟩

/-- Changing both states in the same way. -/
theorem change {update : State → State}
    (kept : ∀ first second, related first second → related (update first) (update second)) :
    Alike related (Interruptible.change update : Interruptible State Stop Unit)
      (Interruptible.change update) :=
  fun first second same => ⟨rfl, kept first second same⟩

/-- One computation after another on both sides, with what is known of the value between. -/
theorem bind_knowing {known : Value → Prop}
    {leftRest rightRest : Value → Interruptible State Stop Next}
    (alike : Alike related left right)
    (returned : ∀ state value, (left state).1 = .ok value → known value)
    (rest : ∀ value, known value → Alike related (leftRest value) (rightRest value)) :
    Alike related (left >>= leftRest) (right >>= rightRest) := by
  intro first second same
  have ended := alike first second same
  have knowing := returned first
  show (andThen left leftRest first).1 = (andThen right rightRest second).1 ∧
    related (andThen left leftRest first).2 (andThen right rightRest second).2
  unfold andThen
  cases leftRun : left first with
  | mk leftOutcome leftNext =>
    cases rightRun : right second with
    | mk rightOutcome rightNext =>
      rw [leftRun, rightRun] at ended
      rw [leftRun] at knowing
      obtain ⟨outcome, states⟩ := ended
      cases outcome
      cases leftOutcome with
      | ok value => exact rest value (knowing value rfl) leftNext rightNext states
      | error reason => exact ⟨rfl, states⟩

/-- One computation after another on both sides. -/
theorem bind {leftRest rightRest : Value → Interruptible State Stop Next}
    (alike : Alike related left right)
    (rest : ∀ value, Alike related (leftRest value) (rightRest value)) :
    Alike related (left >>= leftRest) (right >>= rightRest) := by
  have known : ∀ state value, (left state).1 = .ok value → True := fun _ _ _ => trivial
  exact alike.bind_knowing known fun value _ => rest value

/-- The same branch on both sides. -/
theorem ite {condition : Prop} [Decidable condition]
    {leftYes rightYes leftNo rightNo : Interruptible State Stop Value}
    (yes : condition → Alike related leftYes rightYes)
    (no : ¬condition → Alike related leftNo rightNo) :
    Alike related (if condition then leftYes else leftNo)
      (if condition then rightYes else rightNo) := by
  by_cases holds : condition
  · rw [if_pos holds, if_pos holds]
    exact yes holds
  · rw [if_neg holds, if_neg holds]
    exact no holds

end Alike

/-- The left computation is the right one cut short: from related states both return alike, and
where the left one stops, the right one goes on behind it. -/
structure CutShort {Full : Type} (related : State → Full → Prop)
    (behind : Stop → State → Full → Prop) (left : Interruptible State Stop Value)
    (right : Interruptible Full Stop Value) : Prop where
  /-- Both return alike until the left one stops. -/
  together : ∀ first second, related first second →
    match left first with
    | (.ok value, next) => (right second).1 = .ok value ∧ related next (right second).2
    | (.error reason, next) => behind reason next (right second).2
  /-- What goes on behind stays behind. -/
  onward : ∀ reason first second, behind reason first second →
    behind reason first (right second).2

namespace CutShort

variable {Full : Type} {related : State → Full → Prop} {behind : Stop → State → Full → Prop}
  {left : Interruptible State Stop Value} {right : Interruptible Full Stop Value}

/-- Returning the same value at once. -/
theorem pure (value : Value) :
    CutShort related behind (Pure.pure value : Interruptible State Stop Value)
      (Pure.pure value) where
  together _ _ same := ⟨rfl, same⟩
  onward _ _ _ late := late

/-- Stopping for the same reason at once. -/
theorem stop {reason : Stop}
    (stopped : ∀ first second, related first second → behind reason first second) :
    CutShort related behind (Interruptible.stop reason : Interruptible State Stop Value)
      (Interruptible.stop reason) where
  together first second same := stopped first second same
  onward _ _ _ late := late

/-- One computation after another on both sides. -/
theorem bind {leftRest : Value → Interruptible State Stop Next}
    {rightRest : Value → Interruptible Full Stop Next} (short : CutShort related behind left right)
    (rest : ∀ value, CutShort related behind (leftRest value) (rightRest value)) :
    CutShort related behind (left >>= leftRest) (right >>= rightRest) := by
  have later : ∀ reason first second, behind reason first (right second).2 →
      behind reason first (andThen right rightRest second).2 := by
    intro reason first second late
    unfold andThen
    cases run : right second with
    | mk outcome next =>
      rw [run] at late
      cases outcome with
      | ok value => exact (rest value).onward reason first next late
      | error other => exact late
  constructor
  · intro first second same
    have ended := short.together first second same
    show match andThen left leftRest first with
      | (.ok value, next) => (andThen right rightRest second).1 = .ok value ∧
          related next (andThen right rightRest second).2
      | (.error reason, next) => behind reason next (andThen right rightRest second).2
    cases run : left first with
    | mk outcome next =>
      rw [run] at ended
      unfold andThen
      rw [run]
      cases outcome with
      | error reason => exact later reason next second ended
      | ok value =>
        have returned : right second = (.ok value, (right second).2) := Prod.ext ended.1 rfl
        rw [returned]
        exact (rest value).together next (right second).2 ended.2
  · intro reason first second late
    exact later reason first second (short.onward reason first second late)

/-- The same branch on both sides. -/
theorem ite {condition : Prop} [Decidable condition] {leftNo : Interruptible State Stop Value}
    {rightNo : Interruptible Full Stop Value} (yes : CutShort related behind left right)
    (no : CutShort related behind leftNo rightNo) :
    CutShort related behind (if condition then left else leftNo)
      (if condition then right else rightNo) := by
  by_cases holds : condition
  · rw [if_pos holds, if_pos holds]
    exact yes
  · rw [if_neg holds, if_neg holds]
    exact no

/-- The first item that passes tests cut short. -/
theorem firstThat {leftTest : Item → Interruptible State Stop Bool}
    {rightTest : Item → Interruptible Full Stop Bool} (items : List Item)
    (each : ∀ item, CutShort related behind (leftTest item) (rightTest item)) :
    CutShort related behind (Interruptible.firstThat leftTest items)
      (Interruptible.firstThat rightTest items) := by
  induction items with
  | nil => exact pure none
  | cons item rest ih =>
    unfold Interruptible.firstThat
    exact (each item).bind fun verdict => ite (pure (some item)) ih

/-- A loop whose steps are cut short. -/
theorem carry {leftBody : Value → Item → Interruptible State Stop Value}
    {rightBody : Value → Item → Interruptible Full Stop Value} (items : List Item)
    (each : ∀ value item, CutShort related behind (leftBody value item) (rightBody value item))
    (value : Value) :
    CutShort related behind (Interruptible.carry leftBody value items)
      (Interruptible.carry rightBody value items) := by
  induction items generalizing value with
  | nil => exact pure value
  | cons item rest ih =>
    unfold Interruptible.carry
    exact (each value item).bind fun next => ih next

/-- A rewriting whose steps are cut short. -/
theorem eachPosition {leftBody : List Item → Item → List Item → Interruptible State Stop Item}
    {rightBody : List Item → Item → List Item → Interruptible Full Stop Item} (items : List Item)
    (each : ∀ kept item rest,
      CutShort related behind (leftBody kept item rest) (rightBody kept item rest))
    (kept : List Item) :
    CutShort related behind (Interruptible.eachPosition leftBody kept items)
      (Interruptible.eachPosition rightBody kept items) := by
  induction items generalizing kept with
  | nil => exact pure kept
  | cons item rest ih =>
    unfold Interruptible.eachPosition
    exact (each kept item rest).bind fun chosen => ih (kept ++ [chosen])

end CutShort

end Interruptible

end AtlasLob
