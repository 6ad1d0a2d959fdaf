import AtlasLob.Core.OracleDomain
import AtlasLob.Library.Interruptible

/-!
# The reducers of failing sequences

`shrink_failure` and `shrink_multi_failure`: passes that propose smaller candidates to an
evaluator and adopt those that still show the failure. A budget of evaluations and a deadline
may cut any pass at any candidate. The clock is a list of answers, one for each look at it, and
the digest of a candidate is a parameter. A pass knows its evaluator only by the answers to its
candidates.
-/

namespace AtlasLob.Oracle

open Interruptible

/-- What cuts a pass. -/
inductive Interruption
  /-- `_BudgetExhausted`. -/
  | budgetExhausted
  /-- Any other exception. -/
  | raised (error : PythonError)
  deriving DecidableEq, Repr

/-- A computation over a state that an interruption may cut. -/
abbrev Cuttable (State : Type) : Type → Type := Interruptible State Interruption

/-- `ShrinkBudget`; the time limit is given with the clock. -/
structure ShrinkBudget where
  maxEvaluations : Nat
  /-- What the constructor checks. -/
  positive : 1 ≤ maxEvaluations

/-- `ShrinkContext`, with what its constructor checks. -/
structure ShrinkContext where
  routedInstrument : Int
  tickIncrement : Int
  maxQuantity : Int
  /-- A nonzero identifier. -/
  routed_valid : 1 ≤ routedInstrument ∧ routedInstrument ≤ u32Max
  /-- A positive price. -/
  tick_valid : 1 ≤ tickIncrement ∧ tickIncrement ≤ i64Max
  /-- A nonzero quantity. -/
  quantity_valid : 1 ≤ maxQuantity ∧ maxQuantity ≤ u64Max

/-- `ShrinkResult`, without its times. -/
structure ShrinkResult (Signature : Type) where
  originalCount : Nat
  commands : List Command
  signature : Signature
  evaluations : Nat
  cacheHits : Nat
  maxEvaluations : Nat
  budgetExhausted : Bool
  completedStages : List String
  deriving DecidableEq, Repr

/-- The fixed part of `_CandidateEvaluator`. -/
structure CandidateEvaluator (Key Signature : Type) where
  /-- `_evaluator`. -/
  evaluator : List Command → Option Signature
  /-- `_signature`. -/
  signature : Signature
  /-- `_budget`. -/
  budget : ShrinkBudget
  /-- Whether a look at the clock, counting from zero, finds the deadline passed. Without a
  deadline no look does. -/
  expired : Nat → Bool
  /-- `hashlib.sha256` of a text. -/
  sha256 : List Char → Key

/-- The changing part of `_CandidateEvaluator`, with a record of what it was asked. -/
structure EvaluatorState (Key Signature : Type) where
  /-- `_evaluations`. -/
  evaluations : Nat := 0
  /-- `_cache_hits`. -/
  cacheHits : Nat := 0
  /-- `_cache`. -/
  cache : List (Key × Option Signature) := []
  /-- The looks at the clock so far. -/
  looks : Nat := 0
  /-- The candidates `preserves` was asked for, in order. -/
  asked : List (List Command) := []
  /-- The candidates handed to the evaluator, in order. -/
  evaluated : List (List Command) := []
  /-- The candidates with the signature as the result, evaluated or cached, in order. -/
  confirmed : List (List Command) := []
  /-- The candidates `preserves` returned true for, in order. -/
  accepted : List (List Command) := []

/-- A step of a reducer. -/
abbrev Reducer (Key Signature : Type) : Type → Type := Cuttable (EvaluatorState Key Signature)

/-- An exception of a call is an exception of the pass. -/
def raising {State Value : Type} : Except PythonError Value → Cuttable State Value
  | .ok value => pure value
  | .error error => stop (.raised error)

section Evaluator

variable {Key Signature : Type} (checked : CandidateEvaluator Key Signature)

/-- `_remaining`: the look at the clock. -/
def remaining : Reducer Key Signature Unit := do
  let state ← read
  change fun state => { state with looks := state.looks + 1 }
  if checked.expired state.looks then stop .budgetExhausted else pure ()

/-- The text `_candidate_key` digests. -/
def candidateText : List Command → Reducer Key Signature (List Char)
  | [] => pure []
  | command :: rest => do
    remaining checked
    let line ← raising (encodeCommand command)
    let lines ← candidateText rest
    pure (line ++ '\n' :: lines)

/-- `_candidate_key`. -/
def candidateKey (commands : List Command) : Reducer Key Signature Key := do
  let text ← candidateText checked commands
  pure (checked.sha256 text)

variable [DecidableEq Key] [DecidableEq Signature]

/-- The confirmed candidates, after a result for one more. -/
def confirming (commands : List Command) (result : Option Signature)
    (confirmed : List (List Command)) : List (List Command) :=
  if result = some checked.signature then confirmed ++ [commands] else confirmed

/-- The comparison with the signature. -/
def verdict (commands : List Command) (result : Option Signature) : Reducer Key Signature Bool :=
  if result = some checked.signature then do
    change fun state => { state with accepted := state.accepted ++ [commands] }
    pure true
  else pure false

/-- The evaluation of a candidate that is not in the cache. -/
def evaluateFresh (key : Key) (commands : List Command) : Reducer Key Signature Bool := do
  remaining checked
  let result := checked.evaluator commands
  change fun state => { state with
    evaluations := state.evaluations + 1
    evaluated := state.evaluated ++ [commands]
    confirmed := confirming checked commands result state.confirmed }
  remaining checked
  change fun state => { state with cache := (key, result) :: state.cache }
  verdict checked commands result

/-- `_CandidateEvaluator.preserves`. -/
def preserves (commands : List Command) : Reducer Key Signature Bool := do
  change fun state => { state with asked := state.asked ++ [commands] }
  let key ← candidateKey checked commands
  let state ← read
  match state.cache.lookup key with
  | some result => do
    change fun state => { state with
      cacheHits := state.cacheHits + 1
      confirmed := confirming checked commands result state.confirmed }
    verdict checked commands result
  | none =>
    if checked.budget.maxEvaluations ≤ state.evaluations then stop .budgetExhausted
    else evaluateFresh checked key commands

end Evaluator

section Deletions

variable {State : Type} (preserved : List Command → Cuttable State Bool)

/-- The sequences without one chunk, in order; the empty one is not a candidate. -/
def chunkCandidates (current : List Command) (chunkSize : Nat) : List (List Command) :=
  ((List.range ((current.length + chunkSize - 1) / chunkSize)).map fun chunk =>
    current.take (chunk * chunkSize) ++ current.drop (chunk * chunkSize + chunkSize)).filter
    fun candidate => !candidate.isEmpty

/-- The loop of `_delete_chunks`, for a number of rounds. -/
def deleteChunksLoop : Nat → Nat → List Command → Cuttable State (List Command)
  | 0, _, _ => stop (.raised .divergence)
  | rounds + 1, granularity, current =>
    if current.length < 2 then pure current
    else do
      let chunkSize := (current.length + granularity - 1) / granularity
      let found ← firstThat preserved (chunkCandidates current chunkSize)
      match found with
      | some candidate => deleteChunksLoop rounds (max 2 (granularity - 1)) candidate
      | none =>
        if current.length ≤ granularity then pure current
        else deleteChunksLoop rounds (min current.length (granularity * 2)) current

/-- `_delete_chunks`. The rounds are more than the loop ever takes. -/
def deleteChunks (commands : List Command) : Cuttable State (List Command) :=
  deleteChunksLoop preserved ((commands.length + 1) * (commands.length + 1)) 2 commands

/-- The loop of `_delete_individual`, with the sequence split at the index. -/
def deleteIndividualLoop :
    List Command → List Command → Cuttable State (List Command)
  | kept, [] => pure kept
  | kept, command :: rest =>
    if kept ++ rest = [] then deleteIndividualLoop (kept ++ [command]) rest
    else do
      if ← preserved (kept ++ rest) then deleteIndividualLoop kept rest
      else deleteIndividualLoop (kept ++ [command]) rest

/-- `_delete_individual`. -/
def deleteIndividual (commands : List Command) : Cuttable State (List Command) :=
  deleteIndividualLoop preserved [] commands

end Deletions

/-- A lookup in `order_ids` or `client_ids`, which are extended in the order of their keys. -/
def rename (table : List (Int × Int)) (value : Int) : Int × List (Int × Int) :=
  if value = 0 then (0, table)
  else
    match table.lookup value with
    | some name => (name, table)
    | none => (table.length + 1, table ++ [(value, (table.length + 1 : Int))])

/-- The two dictionaries of `_remap_identifiers`. -/
structure IdentifierTables where
  orderIds : List (Int × Int) := []
  clientIds : List (Int × Int) := []

/-- One command of `_remap_identifiers`. -/
def remapCommand (instrumentId : Int → Int) (tables : IdentifierTables) :
    Command → Command × IdentifierTables
  | .newOrder order =>
    let (client, clientIds) := rename tables.clientIds order.clientId
    let (name, orderIds) := rename tables.orderIds order.orderId
    (.newOrder { order with
      clientId := client, orderId := name, instrumentId := instrumentId order.instrumentId },
      ⟨orderIds, clientIds⟩)
  | .cancel order =>
    let (client, clientIds) := rename tables.clientIds order.clientId
    let (name, orderIds) := rename tables.orderIds order.orderId
    (.cancel { order with
      clientId := client, orderId := name, instrumentId := instrumentId order.instrumentId },
      ⟨orderIds, clientIds⟩)
  | .replace order =>
    let (client, clientIds) := rename tables.clientIds order.clientId
    let (old, orderIds) := rename tables.orderIds order.oldOrderId
    let (new, orderIds) := rename orderIds order.newOrderId
    (.replace { order with
      clientId := client, oldOrderId := old, newOrderId := new,
      instrumentId := instrumentId order.instrumentId },
      ⟨orderIds, clientIds⟩)

/-- The loop of `_remap_identifiers`. -/
def remapLoop (instrumentId : Int → Int) : IdentifierTables → List Command → List Command
  | _, [] => []
  | tables, command :: rest =>
    let (renamed, tables) := remapCommand instrumentId tables command
    renamed :: remapLoop instrumentId tables rest

/-- `_remap_identifiers` of the single-instrument reducer. -/
def remapIdentifiers (routedInstrument : Int) (commands : List Command) : List Command :=
  remapLoop (fun value => if value ≠ 0 then routedInstrument else 0) {} commands

/-- `_remap_identifiers` of the routed reducer. -/
def remapGlobalIdentifiers (commands : List Command) : List Command :=
  remapLoop id {} commands

/-- `_command_prices`. -/
def Command.prices : Command → List Int
  | .newOrder order => order.limitPrice.toList
  | .cancel _ => []
  | .replace order => [order.newLimitPrice]

/-- `_command_quantities`. -/
def Command.quantities : Command → List Int
  | .newOrder order => [order.quantity]
  | .cancel _ => []
  | .replace order => [order.newQuantity]

/-- `_with_price`. -/
def Command.withPrice (price : Int) : Command → Command
  | .newOrder order =>
    if order.limitPrice.isSome then .newOrder { order with limitPrice := some price }
    else .newOrder order
  | .cancel order => .cancel order
  | .replace order => .replace { order with newLimitPrice := price }

/-- `_with_quantity`. -/
def Command.withQuantity (quantity : Int) : Command → Command
  | .newOrder order => .newOrder { order with quantity }
  | .cancel order => .cancel order
  | .replace order => .replace { order with newQuantity := quantity }

/-- `_unique`: each value at its first place. -/
def unique : List Int → List Int
  | [] => []
  | value :: rest => value :: (unique rest).filter fun other => other ≠ value

/-- `sorted` of a set. -/
def sortedSet (values : List Int) : List Int := (unique values).insertionSort (· ≤ ·)

/-- A complexity: a total, then the parts in order. -/
abbrev Complexity := Int × List Int

/-- The comparison of two complexities as tuples. -/
def Complexity.less (left right : Complexity) : Prop :=
  left.1 < right.1 ∨ left.1 = right.1 ∧ left.2 < right.2

instance (left right : Complexity) : Decidable (left.less right) :=
  inferInstanceAs (Decidable (_ ∨ _))

/-- `_price_complexity`. -/
def priceComplexity (commands : List Command) : Complexity :=
  let prices := (commands.flatMap Command.prices).map fun price => |price|
  (prices.sum, prices)

/-- `_quantity_complexity`. -/
def quantityComplexity (commands : List Command) : Complexity :=
  let quantities := commands.flatMap Command.quantities
  (quantities.sum, quantities)

/-- The prices `_simplify_prices` tries. -/
def priceCandidates (context : ShrinkContext) (commands : List Command) : List Int :=
  let tick := context.tickIncrement
  let observed := sortedSet ((commands.flatMap Command.prices).filter fun price =>
    price > 0 ∧ price % tick = 0)
  let central := (observed[observed.length / 2]?).getD (100 * tick)
  unique [tick, min (i64Max - i64Max % tick) (2 * tick), min (i64Max - i64Max % tick) (100 * tick),
    central]

/-- The quantities `_simplify_quantities` tries. -/
def quantityCandidates (context : ShrinkContext) (commands : List Command) : List Int :=
  let observed := sortedSet ((commands.flatMap Command.quantities).filter fun quantity =>
    1 ≤ quantity ∧ quantity ≤ context.maxQuantity)
  unique ([1] ++ (if context.maxQuantity ≥ 2 then [2] else []) ++ observed ++
    (observed.filter fun quantity => 1 < quantity ∧ quantity ≤ context.maxQuantity).map (· - 1))

/-- What `_simplify_commands` tries for a command. -/
def commandAlternatives : Command → List Command
  | .replace order => [.cancel
      { clientId := order.clientId, orderId := order.oldOrderId,
        instrumentId := order.instrumentId }]
  | .newOrder order =>
    if order.orderType = limit then
      [.newOrder { order with orderType := market, timeInForce := ioc, limitPrice := none }]
    else []
  | .cancel _ => []

/-- What `_normalize_side_and_tif` tries for a command. -/
def normalAlternatives : Command → List Command
  | .newOrder order =>
    (if order.side ≠ buy then [.newOrder { order with side := buy }] else []) ++
      if order.orderType = limit ∧ order.timeInForce ≠ gtc then
        [.newOrder { order with timeInForce := gtc }]
      else []
  | _ => []

/-- What the routed `_simplify_quantities` tries for a command. -/
def unitQuantity : Command → List Command
  | .newOrder order =>
    if order.quantity = 0 ∨ order.quantity = 1 then [] else [.newOrder { order with quantity := 1 }]
  | .replace order =>
    if order.newQuantity = 0 ∨ order.newQuantity = 1 then []
    else [.replace { order with newQuantity := 1 }]
  | .cancel _ => []

/-- `configured.get`, with the tick of an instrument that is not configured. -/
def configuredTick (catalog : List InstrumentConfig) (instrumentId : Int) : Int :=
  match catalog.find? fun entry => entry.instrumentId = instrumentId with
  | some entry => entry.matching.tickIncrement
  | none => 1

/-- What the routed `_simplify_prices` tries for a command. -/
def tickPrice (catalog : List InstrumentConfig) : Command → List Command
  | .newOrder order =>
    match order.limitPrice with
    | none => []
    | some price =>
      let tick := configuredTick catalog order.instrumentId
      if price = 0 ∨ price = tick then [] else [.newOrder { order with limitPrice := some tick }]
  | .replace order =>
    let tick := configuredTick catalog order.instrumentId
    if order.newLimitPrice = 0 ∨ order.newLimitPrice = tick then []
    else [.replace { order with newLimitPrice := tick }]
  | .cancel _ => []

section Passes

variable {State : Type} (preserved : List Command → Cuttable State Bool)

/-- The first command that may stand at a position. -/
def firstAt (kept rest alternatives : List Command) (command : Command) :
    Cuttable State Command := do
  let found ←
    firstThat (fun candidate => preserved (kept ++ candidate :: rest)) alternatives
  pure (found.getD command)

/-- A pass that tries, at every position, the alternatives of its command in order and keeps the
first that preserves the failure. -/
def simplifyEach (alternatives : List Command → Command → List Command → List Command)
    (commands : List Command) : Cuttable State (List Command) :=
  eachPosition (fun kept command rest =>
    firstAt preserved kept rest (alternatives kept command rest) command) [] commands

/-- The stage around `_remap_identifiers`. -/
def remapStage (remap : List Command → List Command) (current : List Command) :
    Cuttable State (List Command) :=
  if remap current = current then pure current
  else do
    if ← preserved (remap current) then pure (remap current) else pure current

/-- The commands that lower the complexity of a sequence at a position. -/
def lowering (complexity : List Command → Complexity) (kept rest : List Command)
    (command : Command) (alternatives : List Command) : List Command :=
  alternatives.filter fun candidate => candidate ≠ command ∧
    (complexity (kept ++ candidate :: rest)).less (complexity (kept ++ command :: rest))

/-- `_simplify_prices`: one price for all, then each price by itself. -/
def simplifyPrices (context : ShrinkContext) (commands : List Command) :
    Cuttable State (List Command) := do
  let candidates := priceCandidates context commands
  let found ← firstThat preserved
    ((candidates.map fun price => commands.map (Command.withPrice price)).filter fun candidate =>
      candidate ≠ commands ∧ (priceComplexity candidate).less (priceComplexity commands))
  simplifyEach preserved (fun kept command rest =>
    lowering priceComplexity kept rest command
      (candidates.map fun price => command.withPrice price)) (found.getD commands)

/-- `_simplify_quantities`. -/
def simplifyQuantities (context : ShrinkContext) (commands : List Command) :
    Cuttable State (List Command) :=
  simplifyEach preserved (fun kept command rest =>
    lowering quantityComplexity kept rest command
      ((quantityCandidates context commands).map fun quantity => command.withQuantity quantity))
    commands

/-- `_simplify_commands`. -/
def simplifyCommands (commands : List Command) : Cuttable State (List Command) :=
  simplifyEach preserved (fun _ command _ => commandAlternatives command) commands

/-- `_normalize_side_and_tif`: unlike the other passes it tries every alternative, each in the
place of the last one adopted. -/
def normalizeSideAndTif (commands : List Command) : Cuttable State (List Command) :=
  eachPosition (fun kept command rest =>
    carry (fun chosen alternative => do
      if ← preserved (kept ++ alternative :: rest) then pure alternative else pure chosen)
      command (normalAlternatives command)) [] commands

/-- `_simplify_quantities` of the routed reducer. -/
def simplifyRoutedQuantities (commands : List Command) : Cuttable State (List Command) :=
  simplifyEach preserved (fun _ command _ => unitQuantity command) commands

/-- `_simplify_prices` of the routed reducer. -/
def simplifyRoutedPrices (catalog : List InstrumentConfig) (commands : List Command) :
    Cuttable State (List Command) :=
  simplifyEach preserved (fun _ command _ => tickPrice catalog command) commands

/-- A pass and the stage it completes, if any. -/
structure Stage (State : Type) where
  pass : List Command → Cuttable State (List Command)
  completes : List String

/-- The stages of `shrink_failure`. -/
def shrinkStages (context : ShrinkContext) : List (Stage State) :=
  [⟨deleteChunks preserved, ["chunk_deletion"]⟩,
    ⟨deleteIndividual preserved, ["individual_deletion"]⟩,
    ⟨remapStage preserved (remapIdentifiers context.routedInstrument), ["identifier_remap"]⟩,
    ⟨simplifyPrices preserved context, ["price_reduction"]⟩,
    ⟨simplifyQuantities preserved context, ["quantity_reduction"]⟩,
    ⟨simplifyCommands preserved, ["command_simplification"]⟩,
    ⟨normalizeSideAndTif preserved, ["side_tif_normalization"]⟩,
    ⟨simplifyPrices preserved context, []⟩,
    ⟨simplifyQuantities preserved context, ["final_field_reduction"]⟩,
    ⟨deleteIndividual preserved, ["final_deletion"]⟩]

/-- The stages of `shrink_multi_failure`. -/
def shrinkMultiStages (catalog : List InstrumentConfig) : List (Stage State) :=
  [⟨deleteChunks preserved, ["chunk_deletion"]⟩,
    ⟨deleteIndividual preserved, ["individual_deletion"]⟩,
    ⟨remapStage preserved remapGlobalIdentifiers, ["global_identifier_remap"]⟩,
    ⟨simplifyRoutedQuantities preserved, ["quantity_reduction"]⟩,
    ⟨simplifyRoutedPrices preserved catalog, ["per_instrument_price_reduction"]⟩,
    ⟨deleteIndividual preserved, ["final_deletion"]⟩]

/-- Where the stages end: the sequence, the completed stages and whether the budget ran out. -/
structure Reduction where
  current : List Command
  completed : List String
  exhausted : Bool

/-- The stages one after another. A pass that is cut leaves the sequence it was given. -/
def runStages : List (Stage State) → List Command → List String → State →
    Except PythonError Reduction × State
  | [], current, completed, state => (.ok ⟨current, completed, false⟩, state)
  | stage :: rest, current, completed, state =>
    match stage.pass current state with
    | (.ok next, state) => runStages rest next (completed ++ stage.completes) state
    | (.error .budgetExhausted, state) => (.ok ⟨current, completed, true⟩, state)
    | (.error (.raised error), state) => (.error error, state)

end Passes

section Reducers

variable {Key Signature : Type} [DecidableEq Key] [DecidableEq Signature]
  (checked : CandidateEvaluator Key Signature)

/-- The result for where the stages ended. -/
def shrinkResult (original : List Command) (reduction : Reduction)
    (state : EvaluatorState Key Signature) : ShrinkResult Signature where
  originalCount := original.length
  commands := reduction.current
  signature := checked.signature
  evaluations := state.evaluations
  cacheHits := state.cacheHits
  maxEvaluations := checked.budget.maxEvaluations
  budgetExhausted := reduction.exhausted
  completedStages := reduction.completed

/-- What both reducers do with their stages, once their arguments are checked. -/
def shrinkWith (stages : List (Stage (EvaluatorState Key Signature))) (original : List Command) :
    Except PythonError (ShrinkResult Signature) × EvaluatorState Key Signature :=
  match preserves checked original {} with
  | (.error .budgetExhausted, state) =>
    (.ok (shrinkResult checked original ⟨original, [], true⟩ state), state)
  | (.error (.raised error), state) => (.error error, state)
  | (.ok false, state) =>
    (.error (.valueError "the original command sequence does not reproduce the signature"), state)
  | (.ok true, state) =>
    match runStages stages original [] state with
    | (.ok reduction, state) => (.ok (shrinkResult checked original reduction state), state)
    | (.error error, state) => (.error error, state)

/-- `shrink_failure`. -/
def shrinkFailure (context : ShrinkContext) (commands : List Command) :
    Except PythonError (ShrinkResult Signature) × EvaluatorState Key Signature :=
  if commands = [] then (.error (.valueError "cannot shrink an empty command sequence"), {})
  else shrinkWith checked (shrinkStages (preserves checked) context) commands

/-- `shrink_multi_failure`. -/
def shrinkMultiFailure (catalog : List InstrumentConfig) (commands : List Command) :
    Except PythonError (ShrinkResult Signature) × EvaluatorState Key Signature :=
  if commands = [] then (.error (.valueError "cannot shrink an empty command sequence"), {})
  else if catalog = [] ∨ ¬(catalog.map InstrumentConfig.instrumentId).Nodup then
    (.error (.valueError "catalog must be nonempty with unique instrument IDs"), {})
  else shrinkWith checked (shrinkMultiStages (preserves checked) catalog) commands

end Reducers

end AtlasLob.Oracle
