import AtlasLob.Spec.Relabeling

/-!
# Equivariance

A market treats labels as labels: relabeling its books and its commands relabels what it replies
and what it becomes. Nothing is said of the counters except that a relabeling sends the next
sequence of one market to the next sequence of the other.
-/

namespace AtlasLob

open PriceLevel

/-- An ID that occurs once leads to its order. -/
theorem find?_orderId {orders : List OrderNodeSpec} (distinct : (ids orders).Nodup)
    {orderId : OrderId} {order : OrderNodeSpec} :
    orders.find? (fun other => other.orderId = orderId) = some order ↔
      order ∈ orders ∧ order.orderId = orderId := by
  constructor
  · intro found
    exact ⟨List.mem_of_find?_eq_some found, by simpa using List.find?_some found⟩
  · rintro ⟨member, rfl⟩
    cases found : orders.find? fun other => other.orderId = order.orderId with
    | none => simpa using List.find?_eq_none.mp found order member
    | some other =>
      have same : other.orderId = order.orderId := by simpa using List.find?_some found
      have one : other = order :=
        List.inj_on_of_nodup_map distinct (List.mem_of_find?_eq_some found) member same
      rw [one]

/-- Every price that a command names lies in a scope. -/
def Command.Priced (scope : PriceTicks → Prop) : Command → Prop
  | .newOrder order => ∀ limit ∈ order.limitPrice, scope limit
  | .cancel _ => True
  | .replace order => scope order.newLimitPrice

/-- Every price of a market lies in a scope and every tick of its catalog among some ticks. -/
structure Market.Within (scope ticks : PriceTicks → Prop) (market : Market) : Prop where
  ladder : ∀ instrument desk, (instrument, desk) ∈ market.books → desk.ladder.Within scope
  tick : ∀ instrument desk, (instrument, desk) ∈ market.books →
    ticks desk.config.matching.tickIncrement

namespace Relabeling

variable (labels : Relabeling)

/-- The desk of one instrument. -/
def desk (desk : Desk) : Desk := ⟨desk.config, labels.ladder desk.ladder⟩

/-- The desks of a market. -/
def books (books : List (InstrumentId × Desk)) : List (InstrumentId × Desk) :=
  SortedMap.mapValues (fun _ desk => labels.desk desk) books

/-- A verdict. -/
def verdict : Verdict → Verdict
  | .refuse decision => .refuse (labels.decision decision)
  | .accept ladder report => .accept (labels.ladder ladder) (report.map labels.payload)

/-- An event. -/
def event (event : Event) : Event where
  header :=
    ⟨labels.sequence event.header.commandSequence, event.header.eventIndex,
      event.header.instrumentId⟩
  payload := labels.payload event.payload

/-- A reply. -/
def reply (reply : Market.Reply) : Market.Reply := reply.map (List.map labels.event)

/-- One market holds the relabeled books of another. -/
structure Images (labels : Relabeling) (market image : Market) : Prop where
  config : image.config = market.config
  books : image.books = labels.books market.books

variable {labels : Relabeling}

@[simp] theorem desk_config (desk : Desk) : (labels.desk desk).config = desk.config := rfl

@[simp] theorem desk_ladder (desk : Desk) :
    (labels.desk desk).ladder = labels.ladder desk.ladder := rfl

@[simp] theorem command_commandType (command : Command) :
    (labels.command command).commandType = command.commandType := by
  cases command <;> rfl

@[simp] theorem command_instrumentId (command : Command) :
    (labels.command command).instrumentId = command.instrumentId := by
  cases command <;> rfl

@[simp] theorem decision_accepted (decision : ValidationDecision) :
    (labels.decision decision).accepted = decision.accepted := rfl

/-- The events of relabeled payloads under a relabeled sequence. -/
theorem numberEvents_map (sequence : Sequence) (instrument : InstrumentId) (index : Nat)
    (payloads : List EventPayload) :
    numberEvents (labels.sequence sequence) instrument index (payloads.map labels.payload) =
      (numberEvents sequence instrument index payloads).map labels.event := by
  induction payloads generalizing index with
  | nil => rfl
  | cons payload rest ih =>
    rw [List.map_cons, numberEvents, numberEvents, List.map_cons, ih]
    rfl

namespace Images

variable {market image : Market} (images : labels.Images market image)

include images

/-- The desk of an instrument. -/
theorem desk (instrument : InstrumentId) :
    image.desk instrument = (market.desk instrument).map labels.desk := by
  rw [Market.desk, Market.desk, images.books]
  exact SortedMap.find?_mapValues _ _ _

/-- The resting orders, up to their order. -/
theorem orders : image.orders.Perm (market.orders.map labels.order) := by
  have books := images.books
  rw [Market.orders, Market.orders, books]
  generalize market.books = entries
  induction entries with
  | nil => exact List.Perm.refl _
  | cons entry rest ih =>
    rw [Relabeling.books, SortedMap.mapValues_cons, List.flatMap_cons, List.flatMap_cons,
      List.map_append]
    exact (orders_ladder entry.2.ladder).append ih

/-- As many orders rest. -/
theorem length : image.orders.length = market.orders.length := by
  rw [images.orders.length_eq, List.length_map]

end Images

/-- A refusal about a relabeled order. -/
theorem Faithful.reject {scope ticks : PriceTicks → Prop}
    (faithful : labels.Faithful scope ticks) (reason : RejectReason) (orderId : OrderId) :
    ValidationDecision.reject reason (labels.orderId orderId) =
      labels.decision (.reject reason orderId) := by
  rw [ValidationDecision.reject, ValidationDecision.reject, Relabeling.decision, nonzero, nonzero]
  by_cases unnamed : orderId = 0
  · rw [if_pos unnamed, if_pos ((faithful.orderId_eq_zero orderId).mpr unnamed), Option.map_none]
  · rw [if_neg unnamed, if_neg (mt (faithful.orderId_eq_zero orderId).mp unnamed),
      Option.map_some]

/-- The shape of a relabeled command. -/
theorem Faithful.shapeDecision {scope ticks : PriceTicks → Prop}
    (faithful : labels.Faithful scope ticks) {command : Command} (priced : command.Priced scope) :
    MultiInstrumentEngine.shapeDecision (labels.command command) =
      labels.decision (MultiInstrumentEngine.shapeDecision command) := by
  cases command with
  | newOrder order =>
    rw [Relabeling.command, MultiInstrumentEngine.shapeDecision,
      MultiInstrumentEngine.shapeDecision, faithful.validate_newOrder priced]
    exact faithful.reject _ _
  | cancel order =>
    have same : (labels.cancelOrder order).validate = order.validate := by
      simp only [CancelOrder.validate, Relabeling.cancelOrder, faithful.clientId_eq_zero,
        faithful.orderId_eq_zero]
      congr!
    rw [Relabeling.command, MultiInstrumentEngine.shapeDecision,
      MultiInstrumentEngine.shapeDecision, same]
    exact faithful.reject _ _
  | replace order =>
    have same : (labels.replaceOrder order).validate = order.validate := by
      have positive := faithful.positive order.newLimitPrice priced
      simp [ReplaceOrder.validate, Relabeling.replaceOrder, faithful.clientId_eq_zero,
        faithful.orderId_eq_zero, faithful.orderId.eq_iff, positive]
    have relevant : ∀ reason, replacementRelevantId (labels.replaceOrder order) reason =
        labels.orderId (replacementRelevantId order reason) := by
      intro reason
      cases reason <;> simp only [replacementRelevantId, Relabeling.replaceOrder,
        faithful.orderId_eq_zero]
      split_ifs <;> rfl
    rw [Relabeling.command, MultiInstrumentEngine.shapeDecision,
      MultiInstrumentEngine.shapeDecision, same, relevant]
    exact faithful.reject _ _

/-- The order of a relabeled ID among relabeled orders. -/
theorem Faithful.find? {scope ticks : PriceTicks → Prop} (faithful : labels.Faithful scope ticks)
    {orders images : List OrderNodeSpec} (distinct : (ids orders).Nodup)
    (relabeled : images.Perm (orders.map labels.order)) (orderId : OrderId) :
    images.find? (fun other => other.orderId = labels.orderId orderId) =
      (orders.find? fun other => other.orderId = orderId).map labels.order := by
  have imageDistinct : (ids images).Nodup := by
    have renamed : ids (orders.map labels.order) = (ids orders).map labels.orderId := by
      simp [ids, Function.comp_def]
    rw [(Ladder.ids_perm relabeled).nodup_iff, renamed]
    exact distinct.map faithful.orderId
  have member : ∀ other, other ∈ images ↔ ∃ order ∈ orders, labels.order order = other := by
    intro other
    rw [relabeled.mem_iff, List.mem_map]
  cases found : orders.find? fun other => other.orderId = orderId with
  | none =>
    rw [Option.map_none, List.find?_eq_none]
    intro other inside same
    obtain ⟨order, resting, rfl⟩ := (member other).mp inside
    have named : order.orderId = orderId := faithful.orderId (of_decide_eq_true same)
    exact List.find?_eq_none.mp found order resting (by simpa using named)
  | some order =>
    obtain ⟨resting, named⟩ := (find?_orderId distinct).mp found
    rw [Option.map_some, find?_orderId imageDistinct]
    exact ⟨(member _).mpr ⟨order, resting, rfl⟩, congrArg labels.orderId named⟩

/-- The resting order of a relabeled ID. -/
theorem Images.find {scope ticks : PriceTicks → Prop} {market image : Market}
    (images : labels.Images market image) (faithful : labels.Faithful scope ticks)
    (distinct : (ids market.orders).Nodup) (orderId : OrderId) :
    image.find (labels.orderId orderId) = (market.find orderId).map labels.order :=
  faithful.find? distinct images.orders orderId

/-- The refusals that compare a relabeled command with the relabeled order it names. -/
theorem Faithful.validateOwner {scope ticks : PriceTicks → Prop}
    (faithful : labels.Faithful scope ticks) (resting : Option OrderNodeSpec)
    (clientId : ClientId) (instrument : InstrumentId) (orderId : OrderId) :
    validateOwner (resting.map labels.order) (labels.clientId clientId) instrument
        (labels.orderId orderId) =
      labels.decision (AtlasLob.validateOwner resting clientId instrument orderId) := by
  cases resting with
  | none => exact faithful.reject _ _
  | some order =>
    rw [Option.map_some, AtlasLob.validateOwner, AtlasLob.validateOwner]
    by_cases owned : order.clientId = clientId
    · by_cases routed : order.instrumentId = instrument
      · simp [owned, routed]
        rfl
      · simpa [owned, routed] using faithful.reject _ _
    · have apart : labels.clientId order.clientId ≠ labels.clientId clientId := fun same =>
        owned (faithful.clientId same)
      simpa [owned, apart] using faithful.reject _ _

/-- The refusals of a relabeled command by its desk's limits and the resting orders. -/
theorem Images.decision {scope ticks : PriceTicks → Prop} {market image : Market}
    (images : labels.Images market image) (faithful : labels.Faithful scope ticks)
    (distinct : (ids market.orders).Nodup) {command : Command} (priced : command.Priced scope)
    {desk : Desk} (ticked : ticks desk.config.matching.tickIncrement) :
    image.decision (labels.command command) (labels.desk desk) =
      labels.decision (market.decision command desk) := by
  cases command with
  | newOrder order =>
    have aligned : ((labels.newOrder order).limitPrice.any fun price =>
          !isTickAligned price desk.config.matching.tickIncrement) =
        order.limitPrice.any fun price =>
          !isTickAligned price desk.config.matching.tickIncrement := by
      cases given : order.limitPrice with
      | none => simp [Relabeling.newOrder, given]
      | some limit =>
        have same := faithful.aligned _ ticked limit (priced limit given)
        simp [Relabeling.newOrder, given, same]
    have found : (image.find (labels.newOrder order).orderId).isSome =
        (market.find order.orderId).isSome := by
      have same := images.find faithful distinct order.orderId
      show (image.find (labels.orderId order.orderId)).isSome = _
      rw [same, Option.isSome_map]
    simp only [Relabeling.command, Market.decision, aligned, found, desk_config]
    show (if desk.config.matching.maxOrderQuantity < order.quantity then
      ValidationDecision.reject .quantityOutOfRange (labels.orderId order.orderId) else
        if order.orderType = .limit && _ then
          ValidationDecision.reject .invalidTick (labels.orderId order.orderId) else
            if _ then ValidationDecision.reject .duplicateOrderId (labels.orderId order.orderId)
            else .accept) = _
    simp only [faithful.reject]
    split_ifs <;> rfl
  | cancel order =>
    have found := images.find faithful distinct order.orderId
    show AtlasLob.validateOwner (image.find (labels.orderId order.orderId))
      (labels.clientId order.clientId) order.instrumentId (labels.orderId order.orderId) = _
    rw [found]
    exact faithful.validateOwner _ _ _ _
  | replace order =>
    have aligned := faithful.aligned _ ticked order.newLimitPrice priced
    have old := images.find faithful distinct order.oldOrderId
    have fresh := images.find faithful distinct order.newOrderId
    have owner := faithful.validateOwner (market.find order.oldOrderId) order.clientId
      order.instrumentId order.oldOrderId
    show (if desk.config.matching.maxOrderQuantity < order.newQuantity then
      ValidationDecision.reject .quantityOutOfRange (labels.orderId order.newOrderId) else
        if !isTickAligned (labels.price order.newLimitPrice)
            desk.config.matching.tickIncrement then
          ValidationDecision.reject .invalidTick (labels.orderId order.newOrderId) else
        let owner := AtlasLob.validateOwner (image.find (labels.orderId order.oldOrderId))
          (labels.clientId order.clientId) order.instrumentId (labels.orderId order.oldOrderId)
        if !owner.accepted then owner
        else if (image.find (labels.orderId order.newOrderId)).isSome then
          ValidationDecision.reject .invalidReplacementId (labels.orderId order.newOrderId)
        else .accept) = _
    simp only [old, fresh, owner, aligned, Option.isSome_map, faithful.reject, Market.decision,
      decision_accepted]
    split_ifs <;> rfl

/-- Whether a relabeled book would break a limit. -/
theorem Images.exceeds {market image : Market} (images : labels.Images market image)
    (desk : Desk) (ladder : Ladder) :
    image.exceeds (labels.desk desk) (labels.ladder ladder) = market.exceeds desk ladder := by
  rw [Market.exceeds, Market.exceeds, images.length, images.config, desk_ladder, length_ladder,
    length_ladder, desk_config]

/-- The verdict on a relabeled aggressor. -/
theorem Images.judgeAggressor {scope ticks : PriceTicks → Prop} {market image : Market}
    (images : labels.Images market image) (faithful : labels.Faithful scope ticks)
    (next : labels.sequence market.sequencer.nextSequence = image.sequencer.nextSequence)
    {desk : Desk} (within : desk.ladder.Within scope) {order : NewOrder}
    (wellFormed : order.WellFormed) (priced : ∀ limit ∈ order.limitPrice, scope limit)
    (replaced : Option OrderNodeSpec) (opening : List EventPayload) :
    image.judgeAggressor (labels.desk desk) (labels.newOrder order) (replaced.map labels.order)
        (opening.map labels.payload) =
      labels.verdict (market.judgeAggressor desk order replaced opening) := by
  have after := faithful.after within wellFormed priced replaced market.sequencer.nextSequence
  have report := faithful.report within wellFormed priced replaced market.sequencer.nextSequence
    opening
  have overflows := faithful.overflows within wellFormed priced replaced
  rw [next] at after report
  simp only [Market.judgeAggressor, desk_ladder, after, report, overflows, images.exceeds]
  split_ifs
  · rw [verdict, ← faithful.reject]
    rfl
  · rfl

/-- The verdict on a relabeled command. -/
theorem Images.judge {scope ticks : PriceTicks → Prop} {market image : Market}
    (images : labels.Images market image) (faithful : labels.Faithful scope ticks)
    (valid : market.Valid)
    (next : labels.sequence market.sequencer.nextSequence = image.sequencer.nextSequence)
    (within : market.Within scope ticks) {command : Command} (priced : command.Priced scope) :
    image.judge (labels.command command) = labels.verdict (market.judge command) := by
  have shape := faithful.shapeDecision priced
  have route : MultiInstrumentEngine.routedOrderId (labels.command command) =
      labels.orderId (MultiInstrumentEngine.routedOrderId command) := by
    cases command <;> rfl
  rw [Market.judge, Market.judge, shape, decision_accepted, command_instrumentId, images.desk]
  by_cases shaped : (MultiInstrumentEngine.shapeDecision command).accepted = true
  · simp only [shaped, Bool.not_true, Bool.false_eq_true, ↓reduceIte]
    cases found : market.desk command.instrumentId with
    | none => simp only [Option.map_none, route, faithful.reject, verdict]
    | some desk =>
      have member := SortedMap.mem_of_find? found
      have decision := images.decision faithful valid.distinct priced
        (within.tick command.instrumentId desk member)
      have ladder := within.ladder command.instrumentId desk member
      simp only [Option.map_some, Market.judgeAt, decision, decision_accepted]
      by_cases decided : (market.decision command desk).accepted = true
      · simp only [decided, Bool.not_true, Bool.false_eq_true, ↓reduceIte]
        have book := (valid.desk_valid found).ladder
        have imageFind : ∀ orderId, (labels.desk desk).ladder.find (labels.orderId orderId) =
            (desk.ladder.find orderId).map labels.order := fun orderId =>
          faithful.find? book.distinct (orders_ladder desk.ladder) orderId
        cases command with
        | newOrder order =>
          have wellFormed : order.WellFormed :=
            NewOrder.validate_eq_none_iff.mp (of_decide_eq_true shaped)
          exact images.judgeAggressor faithful next ladder wellFormed priced none newOpening
        | cancel order =>
          have named : (labels.cancelOrder order).orderId = labels.orderId order.orderId := rfl
          simp only [Relabeling.command, Market.judgeAdmitted, named, imageFind]
          cases resting : desk.ladder.find order.orderId with
          | none => simp only [Option.map_none, faithful.reject, verdict]
          | some old =>
            simp only [Option.map_some, desk_ladder, faithful.without,
              faithful.withdrawalReport ladder, verdict]
        | replace order =>
          have named : (labels.replaceOrder order).oldOrderId =
            labels.orderId order.oldOrderId := rfl
          simp only [Relabeling.command, Market.judgeAdmitted, named, imageFind]
          cases resting : desk.ladder.find order.oldOrderId with
          | none => simp only [Option.map_none, faithful.reject, verdict]
          | some old =>
            simp only [Option.map_some]
            have member := ((find?_orderId book.distinct).mp resting).1
            have wellFormed := Market.Valid.replacement_wellFormed book member
              (ReplaceOrder.validate_eq_none_iff.mp (of_decide_eq_true shaped))
            have limit : ∀ limit ∈ (CommandExecutor.replacementOf old order).limitPrice,
                scope limit := by
              intro limit given
              cases given
              exact priced
            exact images.judgeAggressor faithful next ladder wellFormed limit (some old)
              (replaceOpening order.oldOrderId order.newOrderId old.remainingQuantity)
      · simp only [decided, Bool.not_false, ↓reduceIte, verdict]
  · simp only [shaped, Bool.not_false, ↓reduceIte, verdict]

/-- A relabeled market with a relabeled ladder. -/
theorem Images.withLadder {market image : Market} (images : labels.Images market image)
    (instrument : InstrumentId) (ladder : Ladder) :
    labels.Images (market.withLadder instrument ladder)
      (image.withLadder instrument (labels.ladder ladder)) := by
  rw [Market.withLadder, Market.withLadder, images.desk]
  cases market.desk instrument with
  | none => exact images
  | some desk =>
    refine ⟨images.config, ?_⟩
    simp only [Option.map_some, Market.setLadder, images.books, Relabeling.books,
      SortedMap.mapValues_set]
    rfl

/-- A relabeled market after a relabeled command, and what it replies. -/
theorem Images.step {scope ticks : PriceTicks → Prop} {market image : Market}
    (images : labels.Images market image) (faithful : labels.Faithful scope ticks)
    (valid : market.Valid) (within : market.Within scope ticks)
    (counters : image.sequencer.exhausted = market.sequencer.exhausted)
    (next : labels.sequence market.sequencer.nextSequence = image.sequencer.nextSequence)
    {command : Command} (priced : command.Priced scope) :
    labels.Images (market.step command).1 (image.step (labels.command command)).1 ∧
      (image.step (labels.command command)).2 = labels.reply (market.step command).2 := by
  have judged := images.judge faithful valid next within priced
  simp only [Market.step, counters, judged]
  cases spent : market.sequencer.exhausted with
  | true => exact ⟨images, rfl⟩
  | false =>
    simp only [Bool.false_eq_true, ↓reduceIte]
    cases verdict : market.judge command with
    | refuse decision =>
      refine ⟨⟨images.config, images.books⟩, ?_⟩
      have events := @numberEvents_map labels market.sequencer.nextSequence
        command.instrumentId 0
        [.rejected command.commandType decision.reason decision.relevantOrderId]
      rw [next] at events
      simp only [Relabeling.verdict, Market.refusal, command_instrumentId, command_commandType]
      exact congrArg Except.ok events
    | accept ladder report =>
      simp only [Relabeling.verdict, List.length_map]
      by_cases long : 2 ^ 32 < report.length
      · rw [if_pos long, if_pos long]
        exact ⟨images, rfl⟩
      · rw [if_neg long, if_neg long]
        refine ⟨?_, ?_⟩
        · have exchanged := images.withLadder command.instrumentId ladder
          rw [command_instrumentId]
          exact ⟨exchanged.config, exchanged.books⟩
        · have events := @numberEvents_map labels market.sequencer.nextSequence
            command.instrumentId 0 report
          rw [next] at events
          simp only [command_instrumentId]
          exact congrArg Except.ok events

end Relabeling

namespace Market

/-- An issued sequence was replied to; a failure issues none. -/
theorem step_sequencer (market : Market) (command : Command) :
    (market.step command).1.sequencer =
      if (market.step command).2.isOk then market.sequencer.issue.1 else market.sequencer := by
  rw [step]
  by_cases spent : market.sequencer.exhausted = true
  · rw [if_pos spent]
    rfl
  · rw [if_neg spent]
    cases market.judge command with
    | refuse decision => rfl
    | accept ladder report =>
      by_cases long : 2 ^ 32 < report.length
      · simp only [if_pos long]
        rfl
      · simp only [if_neg long]
        rw [withLadder]
        cases market.desk command.instrumentId <;> rfl

namespace Within

variable {scope ticks : PriceTicks → Prop} {market : Market}

/-- A desk in the scope keeps a market in it. -/
theorem setLadder (within : market.Within scope ticks) {instrument : InstrumentId} {desk : Desk}
    (found : market.desk instrument = some desk) {ladder : Ladder} (inside : ladder.Within scope) :
    (market.setLadder instrument desk ladder).Within scope ticks := by
  have members : ∀ other held,
      (other, held) ∈ SortedMap.set instrument { desk with ladder := ladder } market.books →
        held = { desk with ladder := ladder } ∨ (other, held) ∈ market.books := by
    intro other held member
    obtain ⟨front, back, split, absent⟩ := SortedMap.find?_split found
    rw [split, SortedMap.set_append _ absent] at member
    rw [split]
    simp only [List.mem_append, List.mem_cons, Prod.mk.injEq] at member ⊢
    tauto
  have member := SortedMap.mem_of_find? found
  constructor
  · intro other held present
    rcases members other held present with rfl | old
    · exact inside
    · exact within.ladder other held old
  · intro other held present
    rcases members other held present with rfl | old
    · exact within.tick instrument desk member
    · exact within.tick other held old

/-- What a command submits names the prices of the command. -/
theorem submitted {command : Command} (priced : command.Priced scope) {order : NewOrder}
    {replaced : Option OrderNodeSpec} {opening : List EventPayload}
    (submits : Submits command order replaced opening) :
    ∀ limit ∈ order.limitPrice, scope limit := by
  cases submits with
  | new order => exact priced
  | exchange order old named owned routed =>
    intro limit given
    cases given
    exact priced

/-- A command priced in the scope keeps a market in it. -/
theorem step (within : market.Within scope ticks) (valid : market.Valid) {command : Command}
    (priced : command.Priced scope) : (market.step command).1.Within scope ticks := by
  have outcome := valid.outcome command
  generalize (market.step command).1 = later at outcome ⊢
  generalize (market.step command).2 = reply at outcome
  cases outcome with
  | spent spent => exact within
  | refused unspent judged => exact ⟨within.ladder, within.tick⟩
  | overlong unspent found submits aggresses judged long => exact within
  | @aggressor desk order replaced opening unspent found submits aggresses fresh fits judged
      short =>
    have before := within.ladder _ _ (SortedMap.mem_of_find? found)
    have next := within.setLadder found (Relabeling.Faithful.after_within before
      aggresses.wellFormed (submitted priced submits) replaced market.sequencer.nextSequence)
    exact ⟨next.ladder, next.tick⟩
  | @withdrawal desk order old withdraws unspent found member named owned judged =>
    have before := within.ladder _ _ (SortedMap.mem_of_find? found)
    have next := within.setLadder found (before.revise (settle [removalOf old]))
    exact ⟨next.ladder, next.tick⟩

end Within

end Market

namespace Relabeling

variable {labels : Relabeling}

/-- Relabeled commands, run on a relabeled market with the same counter, are replied to with
relabeled events and leave a relabeled market. -/
theorem Images.run {scope ticks : PriceTicks → Prop} {market image : Market}
    (images : labels.Images market image) (faithful : labels.Faithful scope ticks)
    (valid : market.Valid) (within : market.Within scope ticks)
    (counters : image.sequencer = market.sequencer)
    (same : ∀ sequence, labels.sequence sequence = sequence)
    {commands : List Command} (priced : ∀ command ∈ commands, command.Priced scope) :
    labels.Images (market.run commands).1 (image.run (commands.map labels.command)).1 ∧
      (image.run (commands.map labels.command)).2 = (market.run commands).2.map labels.reply ∧
      (image.run (commands.map labels.command)).1.sequencer =
        (market.run commands).1.sequencer := by
  induction commands generalizing market image with
  | nil => exact ⟨images, rfl, counters⟩
  | cons command rest ih =>
    have next : labels.sequence market.sequencer.nextSequence = image.sequencer.nextSequence := by
      rw [same, counters]
    have inside := priced command (by simp)
    obtain ⟨stepped, replied⟩ := images.step faithful valid within
      (congrArg CommandSequencer.exhausted counters) next inside
    have issued : (image.step (labels.command command)).1.sequencer =
        (market.step command).1.sequencer := by
      have ok : (image.step (labels.command command)).2.isOk = (market.step command).2.isOk := by
        rw [replied, reply]
        cases (market.step command).2 <;> rfl
      rw [Market.step_sequencer, Market.step_sequencer, ok, counters]
    obtain ⟨final, replies, ending⟩ := ih stepped (valid.step command)
      (within.step valid inside) issued fun other member => priced other (by simp [member])
    simp only [List.map_cons, Market.run]
    exact ⟨final, by rw [replied, replies], ending⟩

end Relabeling

end AtlasLob
