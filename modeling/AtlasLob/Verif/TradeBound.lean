import AtlasLob.Verif.Equivariance
import AtlasLob.Verif.Replay

/-!
# How often orders trade

An execution that leaves something of the resting order is the last one of its aggressor, which
then does not rest. So the trades of a command and the orders that rest after it are at most the
orders that rested before and the one it brings. Over a run from empty books the trades are at
most the orders accepted, and collecting the trades of a log cannot exceed a limit that its
records do not exceed.
-/

namespace AtlasLob

open PriceLevel

/-- Whether a payload reports a trade. -/
def EventPayload.isTrade : EventPayload → Bool
  | trade .. => true
  | _ => false

/-- Whether a payload accepts a command that brings an order. -/
def EventPayload.acceptsOrder : EventPayload → Bool
  | accepted commandType => commandType = .newOrder || commandType = .replace
  | _ => false

/-- Whether an event accepts a command that brings an order. -/
def Event.acceptsOrder (event : Event) : Bool := event.payload.acceptsOrder

/-- Counting numbered events is counting their payloads. -/
theorem countP_numberEvents (test : EventPayload → Bool) (sequence : Sequence)
    (instrument : InstrumentId) (index : Nat) (payloads : List EventPayload) :
    (numberEvents sequence instrument index payloads).countP (fun event => test event.payload) =
      payloads.countP test := by
  have same := congrArg (List.countP test)
    (numberEvents_payloads sequence instrument index payloads)
  rw [List.countP_map] at same
  exact same

/-- Every execution but the last one of an aggressor that is done exhausts its order. -/
theorem length_fillQueue (quantity : Quantity) (orders : List OrderNodeSpec) :
    (fillQueue quantity orders).length + (if residual quantity orders = 0 then 0 else 1) ≤
      (exhausted (fillQueue quantity orders)).length + 1 := by
  induction orders generalizing quantity with
  | nil =>
    rw [fillQueue]
    split_ifs <;> simp
  | cons order rest ih =>
    by_cases none : quantity = 0
    · rw [fillQueue, if_pos none]
      split_ifs <;> simp
    rw [fillQueue, if_neg none, residual, List.length_cons]
    by_cases partly : quantity < order.remainingQuantity
    · -- The aggressor is done.
      have short := UInt64.lt_iff_toNat_lt.mp partly
      have spent : quantity - min quantity order.remainingQuantity = 0 := by
        rw [Word.eq_zero_iff, Word.toNat_sub_min]
        omega
      have done : residual 0 rest = 0 := by
        rw [Word.eq_zero_iff, residual_toNat]
        exact Nat.zero_sub _
      have nothing : fillQueue 0 rest = [] := by
        cases rest with
        | nil => rfl
        | cons _ _ => rw [fillQueue, if_pos rfl]
      rw [spent, done, if_pos rfl, nothing]
      exact Nat.le_add_left _ _
    · have covers : min quantity order.remainingQuantity = order.remainingQuantity := by
        apply Word.eq_of_toNat
        rw [UInt64.lt_iff_toNat_lt, Nat.not_lt] at partly
        rw [Word.toNat_min]
        omega
      have later := ih (quantity - order.remainingQuantity)
      rw [covers, exhausted, List.filter_cons, if_pos (decide_eq_true rfl), List.length_cons]
      unfold exhausted at later
      omega

section Aggressor

variable {command : Command} {order : NewOrder} {replaced : Option OrderNodeSpec}
  {opening : List EventPayload}

/-- A count that passes over what closes a report and the changes of the top. -/
theorem countP_report {test : EventPayload → Bool} {ladder : Ladder}
    (closes : test (ladder.closingEvent order) = false)
    (changes : ∀ bid ask, test (.bookChanged bid ask) = false) (sequence : Sequence) :
    (ladder.report order replaced sequence opening).countP test =
      opening.countP test + ((ladder.fills order).map (Ladder.tradeEvent order)).countP test := by
  have closing : [ladder.closingEvent order].countP test = 0 := by
    simp [closes]
  have changing : (Ladder.changeEvents ladder (ladder.after order replaced sequence)).countP
      test = 0 := by
    unfold Ladder.changeEvents
    split_ifs <;> simp [changes]
  rw [Ladder.report, List.countP_append, List.countP_append, List.countP_append, closing, changing,
    Nat.add_zero]

/-- The trades of an aggressor's report are its executions. -/
theorem report_trades (submits : Submits command order replaced opening) (ladder : Ladder)
    (sequence : Sequence) :
    (ladder.report order replaced sequence opening).countP EventPayload.isTrade =
      (ladder.fills order).length := by
  have opens : opening.countP EventPayload.isTrade = 0 := by
    cases submits <;> rfl
  have closes : (ladder.closingEvent order).isTrade = false := by
    unfold Ladder.closingEvent
    cases ladder.disposition order <;> rfl
  rw [countP_report closes (fun _ _ => rfl), opens, Nat.zero_add, List.countP_map]
  exact List.countP_eq_length.mpr fun _ _ => rfl

/-- It accepts one order. -/
theorem report_accepts (submits : Submits command order replaced opening) (ladder : Ladder)
    (sequence : Sequence) :
    (ladder.report order replaced sequence opening).countP EventPayload.acceptsOrder = 1 := by
  have opens : opening.countP EventPayload.acceptsOrder = 1 := by
    cases submits <;> rfl
  have closes : (ladder.closingEvent order).acceptsOrder = false := by
    unfold Ladder.closingEvent
    cases ladder.disposition order <;> rfl
  have executions : ((ladder.fills order).map (Ladder.tradeEvent order)).countP
      EventPayload.acceptsOrder = 0 := by
    rw [List.countP_map]
    exact List.countP_eq_zero.mpr fun _ _ => Bool.false_ne_true
  rw [countP_report closes (fun _ _ => rfl), opens, executions]

/-- An aggressor trades at most once more than it makes orders leave, and not if it rests. -/
theorem Aggresses.trades_le {instrument : InstrumentId} {ladder : Ladder} {sequence : Sequence}
    (aggresses : Aggresses instrument ladder order replaced sequence) :
    (ladder.fills order).length + (ladder.after order replaced sequence).orders.length ≤
      ladder.orders.length + 1 := by
  have leaves := aggresses.after_length
  have trades := length_fillQueue order.quantity (ladder.reach order)
  change (ladder.fills order).length + (if ladder.left order = 0 then 0 else 1) ≤
    (exhausted (ladder.fills order)).length + 1 at trades
  by_cases rests : ladder.disposition order = .rest
  · rw [if_pos rests] at leaves
    rw [if_neg (aggresses.rest_terms rests).1] at trades
    omega
  · rw [if_neg rests] at leaves
    omega

end Aggressor

namespace Market

variable {market : Market} {instrument : InstrumentId} {desk : Desk}

/-- The number of orders a run accepts. -/
def acceptances (market : Market) (commands : List Command) : Nat :=
  ((market.run commands).2.flatMap replyEvents).countP Event.acceptsOrder

/-- A changed ladder changes the number of resting orders by as much. -/
theorem length_setLadder (found : market.desk instrument = some desk) (ladder : Ladder) :
    (market.setLadder instrument desk ladder).orders.length + desk.ladder.orders.length =
      market.orders.length + ladder.orders.length := by
  obtain ⟨others, before, after⟩ := orders_split found
  have sizes := before.length_eq
  have newSizes := (after ladder).length_eq
  rw [List.length_append] at sizes newSizes
  omega

/-- The trades of a command and the orders that rest after it are at most the orders that rested
before and the one it brings. -/
theorem Valid.step_trades (valid : market.Valid) (command : Command) :
    (replyEvents (market.step command).2).countP Event.isTrade +
        (market.step command).1.orders.length ≤
      market.orders.length + (replyEvents (market.step command).2).countP Event.acceptsOrder ∧
    (replyEvents (market.step command).2).countP Event.acceptsOrder ≤ 1 := by
  have outcome := valid.outcome command
  generalize (market.step command).1 = later at outcome ⊢
  generalize (market.step command).2 = reply at outcome ⊢
  cases outcome with
  | spent spent => exact ⟨Nat.le_of_eq (Nat.zero_add _), Nat.zero_le _⟩
  | refused unspent judged => exact ⟨Nat.le_of_eq (Nat.zero_add _), Nat.zero_le _⟩
  | overlong unspent found submits aggresses judged long =>
    exact ⟨Nat.le_of_eq (Nat.zero_add _), Nat.zero_le _⟩
  | @aggressor desk order replaced opening unspent found submits aggresses fresh fits judged
      short =>
    have trades := (countP_numberEvents EventPayload.isTrade market.sequencer.nextSequence
      command.instrumentId 0 _).trans (report_trades submits desk.ladder
        market.sequencer.nextSequence)
    have accepts := (countP_numberEvents EventPayload.acceptsOrder market.sequencer.nextSequence
      command.instrumentId 0 _).trans (report_accepts submits desk.ladder
        market.sequencer.nextSequence)
    have resting := length_setLadder found
      (desk.ladder.after order replaced market.sequencer.nextSequence)
    have bound := aggresses.trades_le
    change (List.countP Event.isTrade _) = _ at trades
    change (List.countP Event.acceptsOrder _) = _ at accepts
    rw [advance_orders]
    simp only [replyEvents, trades, accepts]
    omega
  | @withdrawal desk order old withdraws unspent found member named owned judged =>
    have reports (test : EventPayload → Bool)
        (silent : ∀ bid ask, test (.bookChanged bid ask) = false) :
        (desk.ladder.withdrawalReport old).countP test = [EventPayload.accepted .cancel,
          .canceled old.orderId old.remainingQuantity,
          .done old.orderId .canceled old.remainingQuantity].countP test := by
      rw [Ladder.withdrawalReport, List.countP_append, Ladder.changeEvents]
      split_ifs <;> simp [silent]
    have trades := (countP_numberEvents EventPayload.isTrade market.sequencer.nextSequence
      command.instrumentId 0 _).trans (reports _ fun _ _ => rfl)
    have accepts := (countP_numberEvents EventPayload.acceptsOrder market.sequencer.nextSequence
      command.instrumentId 0 _).trans (reports _ fun _ _ => rfl)
    have resting := length_setLadder found (desk.ladder.without old)
    have fewer : (desk.ladder.without old).orders.length ≤ desk.ladder.orders.length := by
      rw [Ladder.without, Ladder.orders_revise]
      exact List.length_filterMap_le _ _
    change (List.countP Event.isTrade _) = 0 at trades
    change (List.countP Event.acceptsOrder _) = 0 at accepts
    rw [advance_orders]
    simp only [replyEvents, trades, accepts]
    omega

/-- The trades of a run and the orders that rest after it are at most the orders that rested
before and those it accepts, and it accepts at most one for every command. -/
theorem Valid.run_trades (valid : market.Valid) (commands : List Command) :
    (market.trades commands).length + (market.run commands).1.orders.length ≤
      market.orders.length + market.acceptances commands ∧
    market.acceptances commands ≤ commands.length := by
  unfold trades acceptances
  rw [← List.countP_eq_length_filter]
  induction commands generalizing market with
  | nil => exact ⟨Nat.le_of_eq (Nat.zero_add _), Nat.le_refl _⟩
  | cons command rest ih =>
    have first := valid.step_trades command
    have later := ih (valid.step command)
    simp only [Market.run, List.flatMap_cons, List.countP_append, List.length_cons]
    omega

/-- A market rests nothing before its first command. -/
theorem opening_orders (catalog : List InstrumentConfig) (config : MultiInstrumentEngineConfig) :
    (opening catalog config).orders = [] := by
  apply List.flatMap_eq_nil_iff.mpr
  intro entry member
  rcases Relabeling.openingBooks_members member with absent | ⟨-, empty⟩
  · cases absent
  · rw [empty]
    rfl

end Market

/-- Trades are bounded by orders. In every run from empty books the trades and the orders that
still rest are together at most the orders that were accepted, new ones and replacements, and
these are at most the commands; so the trades of a log fit every limit its records fit. -/
theorem run_trades_bounded (checks : Bool) {catalog : List InstrumentConfig}
    {config : MultiInstrumentEngineConfig} {initial engine : MultiInstrumentEngine}
    {commands : List Command} {results : List EngineResult}
    (created : MultiInstrumentEngine.create catalog config = .ok initial)
    (ran : initial.run checks commands = .ok (engine, results)) :
    (∃ snapshot, engine.snapshot = .ok snapshot ∧
      (results.flatMap EngineResult.events).countP Event.isTrade +
          snapshot.activeOrderCount.toNat ≤
        (results.flatMap EngineResult.events).countP Event.acceptsOrder) ∧
    (results.flatMap EngineResult.events).countP Event.acceptsOrder ≤ commands.length ∧
    ∀ options : ReplayOptions, commands.length ≤ options.maxRecoveredTrades →
      options.Collects (Market.opening catalog config) commands := by
  have stands := create_stands created
  obtain ⟨next, outcomes, again, after, replies⟩ := stands.run checks commands
  rw [ran, Except.ok.injEq, Prod.mk.injEq] at again
  obtain ⟨rfl, rfl⟩ := again
  have bound := stands.valid.run_trades commands
  rw [Market.opening_orders, List.length_nil, Nat.zero_add] at bound
  have accepted : (results.flatMap EngineResult.events).countP Event.acceptsOrder =
      (Market.opening catalog config).acceptances commands := by
    unfold Market.acceptances
    rw [← replies, List.flatMap_map, funext events_eq_replyEvents]
  have traded : (results.flatMap EngineResult.events).countP Event.isTrade =
      ((Market.opening catalog config).trades commands).length := by
    rw [List.countP_eq_length_filter, trades_of_results replies]
  rw [accepted, traded]
  refine ⟨⟨_, after.snapshot (by simp [Stands.Leases]), ?_⟩, bound.2, ?_⟩
  · have few := after.valid.length_lt
    show _ + (UInt64.ofNat ((Market.opening catalog config).run commands).1.orders.length).toNat ≤ _
    rw [UInt64.toNat_ofNat_of_lt' few]
    exact bound.1
  · intro options within _
    omega

/-- Two orders trade once. -/
theorem run_trades_bounded_single :
    ∃ engine results, (singleEngine ⟨1, ⟨100, 5, 3⟩⟩ ⟨2⟩).run true
        [.newOrder ⟨1, 1, 1, .sell, .limit, .gtc, some 15, 7⟩,
          .newOrder ⟨2, 2, 1, .buy, .limit, .gtc, some 15, 7⟩] = .ok (engine, results) ∧
      (results.flatMap EngineResult.events).countP Event.isTrade = 1 ∧
      (results.flatMap EngineResult.events).countP Event.acceptsOrder ≤ 2 := by
  obtain ⟨engine, results, ran, after, replies⟩ := (create_stands session_created).run true
    [.newOrder ⟨1, 1, 1, .sell, .limit, .gtc, some 15, 7⟩,
      .newOrder ⟨2, 2, 1, .buy, .limit, .gtc, some 15, 7⟩]
  refine ⟨engine, results, ran, ?_, (run_trades_bounded true session_created ran).2.1⟩
  rw [List.countP_eq_length_filter, trades_of_results replies]
  decide +kernel

end AtlasLob
