import AtlasLob.Spec.Scheduling

/-!
# One instrument among others

The desk of one instrument, with the counter of the whole market, is a market of its own. Where no
order ID is used with two instruments and the limit of the whole market never binds, it answers
the commands of its instrument exactly as the whole market does.
-/

namespace AtlasLob

open PriceLevel

/-- The order IDs that a command names. -/
def Command.orderIds : Command → List OrderId
  | .newOrder order => [order.orderId]
  | .cancel order => [order.orderId]
  | .replace order => [order.oldOrderId, order.newOrderId]

/-- A command names orders of its own instrument, where every ID belongs to one instrument. -/
def Command.Housed (home : OrderId → InstrumentId) (command : Command) : Prop :=
  ∀ orderId ∈ command.orderIds, orderId ≠ 0 → home orderId = command.instrumentId

namespace Market

/-- The market of one instrument. -/
def only (instrument : InstrumentId) (market : Market) : Market :=
  { market with books := market.books.filter fun entry => entry.1 = instrument }

/-- Every resting order belongs to the instrument of its ID. -/
def Housed (home : OrderId → InstrumentId) (market : Market) : Prop :=
  ∀ order ∈ market.orders, home order.orderId = order.instrumentId

/-- The limits of the desks together stay within the limit of the market. -/
def Roomy (market : Market) : Prop :=
  (market.books.map fun entry => entry.2.config.matching.maxActiveOrders.toNat).sum ≤
    market.config.maxTotalActiveOrders.toNat

variable {market : Market} {instrument : InstrumentId}

/-- The desk of the instrument. -/
theorem only_desk (market : Market) (instrument : InstrumentId) :
    (market.only instrument).desk instrument = market.desk instrument := by
  rw [desk, desk, only]
  generalize market.books = books
  induction books with
  | nil => rfl
  | cons entry rest ih =>
    by_cases own : entry.1 = instrument
    · rw [List.filter_cons, if_pos (decide_eq_true own), SortedMap.find?, SortedMap.find?,
        if_pos own, if_pos own]
    · have other : ¬ decide (entry.1 = instrument) = true := by simpa using own
      rw [List.filter_cons, if_neg other, SortedMap.find?, if_neg own]
      exact ih

/-- The orders of the instrument. -/
theorem Valid.mem_only (valid : market.Valid) {order : OrderNodeSpec} :
    order ∈ (market.only instrument).orders ↔
      order ∈ market.orders ∧ order.instrumentId = instrument := by
  rw [mem_orders, mem_orders]
  constructor
  · rintro ⟨named, desk, member, inside⟩
    obtain ⟨present, own⟩ := List.mem_filter.mp member
    have same : named = instrument := of_decide_eq_true own
    refine ⟨⟨named, desk, present, inside⟩, ?_⟩
    rw [(valid.desks named desk present).ladder.routed_order inside, same]
  · rintro ⟨⟨named, desk, present, inside⟩, own⟩
    rw [(valid.desks named desk present).ladder.routed_order inside] at own
    exact ⟨named, desk, List.mem_filter.mpr ⟨present, decide_eq_true own⟩, inside⟩

/-- Some of the orders, in order. -/
theorem only_orders (market : Market) (instrument : InstrumentId) :
    (market.only instrument).orders.Sublist market.orders := by
  rw [orders, orders, only]
  generalize market.books = books
  induction books with
  | nil => exact List.Sublist.slnil
  | cons entry rest ih =>
    rw [List.filter_cons, List.flatMap_cons]
    split_ifs
    · rw [List.flatMap_cons]
      exact ih.append_left _
    · exact ih.trans (List.sublist_append_right _ _)

/-- The market of one instrument is valid. -/
theorem Valid.only (valid : market.Valid) (instrument : InstrumentId) :
    (market.only instrument).Valid where
  sorted := valid.sorted.sublist (List.filter_sublist.map _)
  desks named desk member := valid.desks named desk (List.mem_of_mem_filter member)
  distinct := valid.distinct.sublist ((only_orders market instrument).map _)
  ranked := valid.ranked.sublist ((only_orders market instrument).map _)
  issued order member := valid.issued order ((only_orders market instrument).subset member)
  total := Nat.le_trans (only_orders market instrument).length_le valid.total
  sequenced := valid.sequenced

/-- The order of an ID of the instrument. -/
theorem Valid.only_find (valid : market.Valid) {home : OrderId → InstrumentId}
    (housed : market.Housed home) {orderId : OrderId} (own : home orderId = instrument) :
    (market.only instrument).find orderId = market.find orderId := by
  apply Option.ext
  intro order
  rw [(valid.only instrument).find_eq_some_iff, valid.find_eq_some_iff, valid.mem_only]
  constructor
  · rintro ⟨⟨member, -⟩, named⟩
    exact ⟨member, named⟩
  · rintro ⟨member, named⟩
    refine ⟨⟨member, ?_⟩, named⟩
    rw [← housed order member, named, own]

/-- The one desk of the instrument. -/
theorem Valid.only_books (valid : market.Valid) {desk : Desk}
    (found : market.desk instrument = some desk) :
    (market.only instrument).books = [(instrument, desk)] := by
  have distinct := valid.sorted.nodup instrumentBefore_strictOrder
  obtain ⟨front, back, split, early⟩ := SortedMap.find?_split found
  have late : instrument ∉ SortedMap.keys back := by
    rw [split, SortedMap.keys_append, SortedMap.keys_cons, List.nodup_append,
      List.nodup_cons] at distinct
    exact distinct.2.1.1
  have none : ∀ entries : List (InstrumentId × Desk), instrument ∉ SortedMap.keys entries →
      entries.filter (fun entry => entry.1 = instrument) = [] := by
    intro entries absent
    rw [List.filter_eq_nil_iff]
    rintro ⟨named, desk⟩ member own
    have same : named = instrument := of_decide_eq_true own
    exact absent (same ▸ SortedMap.mem_keys member)
  rw [Market.only, split, List.filter_append, List.filter_cons, if_pos (decide_eq_true rfl),
    none front early, none back late]
  rfl

/-- The refusals of a command of the instrument. -/
theorem Valid.only_decision (valid : market.Valid) {home : OrderId → InstrumentId}
    (housed : market.Housed home) {command : Command} (own : command.Housed home)
    (shaped : (MultiInstrumentEngine.shapeDecision command).accepted = true) (desk : Desk) :
    (market.only command.instrumentId).decision command desk = market.decision command desk := by
  cases command with
  | newOrder order =>
    have wellFormed := NewOrder.validate_eq_none_iff.mp (of_decide_eq_true shaped)
    have found := valid.only_find housed (own order.orderId (by simp [Command.orderIds])
      wellFormed.id)
    simp only [decision, found]
  | cancel order =>
    have wellFormed := CancelOrder.validate_eq_none_iff.mp (of_decide_eq_true shaped)
    have found := valid.only_find housed (own order.orderId (by simp [Command.orderIds])
      wellFormed.id)
    simp only [decision, found]
  | replace order =>
    have wellFormed := ReplaceOrder.validate_eq_none_iff.mp (of_decide_eq_true shaped)
    have old := valid.only_find housed (own order.oldOrderId (by simp [Command.orderIds])
      wellFormed.oldId)
    have fresh := valid.only_find housed (own order.newOrderId (by simp [Command.orderIds])
      wellFormed.newId)
    simp only [decision, old, fresh]

/-- The desks leave room for one of them to fill up. -/
theorem Valid.room (valid : market.Valid) {desk : Desk}
    (found : market.desk instrument = some desk) :
    market.orders.length + desk.config.matching.maxActiveOrders.toNat ≤
      desk.ladder.orders.length +
        (market.books.map fun entry => entry.2.config.matching.maxActiveOrders.toNat).sum := by
  have filled : ∀ entries : List (InstrumentId × Desk),
      (∀ named desk, (named, desk) ∈ entries → (named, desk) ∈ market.books) →
        (entries.flatMap fun entry => entry.2.ladder.orders).length ≤
          (entries.map fun entry => entry.2.config.matching.maxActiveOrders.toNat).sum := by
    intro entries inside
    induction entries with
    | nil => exact Nat.le_refl 0
    | cons entry rest ih =>
      have first := (valid.desks entry.1 entry.2 (inside _ _ (by simp))).capacity
      have others := ih fun named desk member => inside named desk (by simp [member])
      rw [List.flatMap_cons, List.length_append, List.map_cons, List.sum_cons]
      omega
  obtain ⟨front, back, split, -⟩ := SortedMap.find?_split found
  have before := filled front fun named desk member => by rw [split]; simp [member]
  have behind := filled back fun named desk member => by rw [split]; simp [member]
  rw [orders, split]
  simp only [List.flatMap_append, List.flatMap_cons, List.length_append, List.map_append,
    List.map_cons, List.sum_append, List.sum_cons]
  omega

/-- Only the limit of the desk can be broken. -/
theorem Valid.only_exceeds (valid : market.Valid) (roomy : market.Roomy) {desk : Desk}
    (found : market.desk instrument = some desk) (ladder : Ladder) :
    (market.only instrument).exceeds desk ladder = market.exceeds desk ladder := by
  have room := valid.room found
  have alone : (market.only instrument).orders.length = desk.ladder.orders.length := by
    rw [orders, valid.only_books found]
    simp
  rw [Roomy] at roomy
  rw [exceeds, exceeds]
  by_cases full : desk.config.matching.maxActiveOrders.toNat < ladder.orders.length
  · simp [full]
  · have limit : desk.config.matching.maxActiveOrders.toNat ≤
        (market.books.map fun entry => entry.2.config.matching.maxActiveOrders.toNat).sum := by
      have member := SortedMap.mem_of_find? found
      exact List.le_sum_of_mem (List.mem_map.mpr ⟨_, member, rfl⟩)
    have whole : ¬ market.config.maxTotalActiveOrders.toNat + desk.ladder.orders.length <
        market.orders.length + ladder.orders.length := by omega
    have part : ¬ market.config.maxTotalActiveOrders.toNat + desk.ladder.orders.length <
        (market.only instrument).orders.length + ladder.orders.length := by omega
    simp only [full, whole, decide_false, Bool.or_self, Bool.false_or, decide_eq_false_iff_not]
    exact part

/-- The verdict on a command of the instrument. -/
theorem Valid.only_judge (valid : market.Valid) (roomy : market.Roomy)
    {home : OrderId → InstrumentId} (housed : market.Housed home) {command : Command}
    (own : command.Housed home) :
    (market.only command.instrumentId).judge command = market.judge command := by
  rw [judge, judge, only_desk]
  by_cases shaped : (MultiInstrumentEngine.shapeDecision command).accepted = true
  · simp only [shaped, Bool.not_true, Bool.false_eq_true, ↓reduceIte]
    cases found : market.desk command.instrumentId with
    | none => rfl
    | some desk =>
      have decision := valid.only_decision housed own shaped desk
      have exceeds := valid.only_exceeds roomy found
      have aggressor : ∀ order replaced opening,
          (market.only command.instrumentId).judgeAggressor desk order replaced opening =
            market.judgeAggressor desk order replaced opening := by
        intro order replaced opening
        have counter : (market.only command.instrumentId).sequencer = market.sequencer := rfl
        simp only [judgeAggressor, exceeds, counter]
      have admitted : (market.only command.instrumentId).judgeAdmitted command desk =
          market.judgeAdmitted command desk := by
        cases command <;> simp only [judgeAdmitted, aggressor]
      simp only [judgeAt, decision, admitted]
  · simp only [shaped, Bool.not_false, ↓reduceIte]

/-- The exchanged ladder of the instrument. -/
theorem only_withLadder (market : Market) (instrument : InstrumentId) (ladder : Ladder) :
    (market.only instrument).withLadder instrument ladder =
      (market.withLadder instrument ladder).only instrument := by
  rw [withLadder, withLadder, only_desk]
  cases market.desk instrument with
  | none => rfl
  | some desk =>
    have books : SortedMap.set instrument { desk with ladder := ladder }
          (market.books.filter fun entry => entry.1 = instrument) =
        (SortedMap.set instrument { desk with ladder := ladder } market.books).filter
          fun entry => entry.1 = instrument := by
      generalize market.books = books
      induction books with
      | nil => rfl
      | cons entry rest ih =>
        by_cases own : entry.1 = instrument
        · simp [SortedMap.set, own]
        · simp [SortedMap.set, own, ih]
    simp only [setLadder, only, books]

/-- A command of the instrument does to its market what it does to the whole one. -/
theorem Valid.only_step (valid : market.Valid) (roomy : market.Roomy)
    {home : OrderId → InstrumentId} (housed : market.Housed home) {command : Command}
    (own : command.Housed home) :
    (market.only command.instrumentId).step command =
      ((market.step command).1.only command.instrumentId, (market.step command).2) := by
  have judged := valid.only_judge roomy housed own
  have counter : (market.only command.instrumentId).sequencer = market.sequencer := rfl
  rw [Market.step, Market.step, judged, counter]
  split_ifs
  · rfl
  · cases market.judge command with
    | refuse decision => rfl
    | accept ladder report =>
      simp only
      split_ifs
      · rfl
      · rw [only_withLadder]
        rfl

/-- A command of another instrument leaves the desk alone. -/
theorem only_step_other (market : Market) {command : Command}
    (other : command.instrumentId ≠ instrument) :
    ((market.step command).1.only instrument).books = (market.only instrument).books := by
  have exchanged : ∀ ladder, ((market.withLadder command.instrumentId ladder).only
      instrument).books = (market.only instrument).books := by
    intro ladder
    rw [withLadder]
    cases market.desk command.instrumentId with
    | none => rfl
    | some desk =>
      simp only [only, setLadder]
      generalize market.books = books
      induction books with
      | nil => rfl
      | cons entry rest ih =>
        by_cases own : entry.1 = command.instrumentId
        · simp [SortedMap.set, own, other]
        · simp [SortedMap.set, own, List.filter_cons, ih]
  rw [step]
  split_ifs
  · rfl
  · cases market.judge command with
    | refuse decision => rfl
    | accept ladder report =>
      simp only
      split_ifs
      · rfl
      · exact exchanged ladder

/-- A step keeps the limits of the desks. -/
theorem Roomy.step (roomy : market.Roomy) (command : Command) :
    (market.step command).1.Roomy := by
  have exchanged : ∀ ladder, (market.withLadder command.instrumentId ladder).Roomy := by
    intro ladder
    rw [withLadder]
    cases found : market.desk command.instrumentId with
    | none => exact roomy
    | some desk =>
      obtain ⟨front, back, split, absent⟩ := SortedMap.find?_split found
      rw [Roomy, split] at roomy
      simp only [Roomy, setLadder, split, SortedMap.set_append _ absent]
      simpa using roomy
  rw [Market.step]
  split_ifs
  · exact roomy
  · cases market.judge command with
    | refuse decision => exact roomy
    | accept ladder report =>
      simp only
      split_ifs
      · exact roomy
      · exact exchanged ladder

/-- A step that names orders of its instrument keeps every order with the instrument of its ID. -/
theorem Housed.step {home : OrderId → InstrumentId} (housed : market.Housed home)
    (valid : market.Valid) {command : Command} (own : command.Housed home) :
    (market.step command).1.Housed home := by
  have shrunk : ∀ (desk : Desk) (fills : List Fill) (order : OrderNodeSpec),
      market.desk command.instrumentId = some desk →
        order ∈ desk.ladder.orders.filterMap (settle fills) →
          home order.orderId = order.instrumentId := by
    intro desk fills order found member
    obtain ⟨before, inside, kept⟩ := List.mem_filterMap.mp member
    obtain ⟨remaining, rfl, -⟩ := settle_shrinks fills before order kept
    exact housed before (Valid.mem_of_desk found inside)
  have exchanged : ∀ (desk : Desk) (ladder : Ladder),
      market.desk command.instrumentId = some desk →
        (∀ order ∈ ladder.orders, home order.orderId = order.instrumentId) →
          (market.setLadder command.instrumentId desk ladder).Housed home := by
    intro desk ladder found inside order member
    obtain ⟨others, before, after⟩ := orders_split found
    rcases List.mem_append.mp ((after ladder).mem_iff.mp member) with new | old
    · exact inside order new
    · exact housed order (before.mem_iff.mpr (List.mem_append_right _ old))
  have outcome := valid.outcome command
  generalize (market.step command).1 = later at outcome ⊢
  generalize (market.step command).2 = reply at outcome
  cases outcome with
  | spent spent => exact housed
  | refused unspent judged => exact housed
  | overlong unspent found submits aggresses judged long => exact housed
  | @aggressor desk order replaced opening unspent found submits aggresses fresh fits judged
      short =>
    refine exchanged desk _ found fun resting member => ?_
    rcases List.mem_append.mp
      ((Aggresses.after_perm desk.ladder order replaced _).mem_iff.mp member) with new | old
    · have named : resting.orderId = order.orderId ∧ resting.instrumentId = order.instrumentId := by
        rw [Option.mem_toList, Aggresses.newcomer] at new
        split_ifs at new
        cases new
        exact ⟨rfl, rfl⟩
      have inside : order.orderId ∈ command.orderIds := by
        cases submits <;> simp [Command.orderIds, CommandExecutor.replacementOf]
      rw [named.1, named.2, aggresses.routed]
      exact own order.orderId inside aggresses.wellFormed.id
    · exact shrunk desk _ resting found old
  | @withdrawal desk order old withdraws unspent found member named owned judged =>
    refine exchanged desk _ found fun resting member => ?_
    rw [Ladder.without, Ladder.orders_revise] at member
    exact shrunk desk _ resting found member

/-- What is preserved while commands name orders of their own instruments. -/
structure Isolated (home : OrderId → InstrumentId) (market : Market) : Prop where
  valid : market.Valid
  roomy : market.Roomy
  housed : market.Housed home

/-- A step keeps the instruments apart. -/
theorem Isolated.step {home : OrderId → InstrumentId} (isolated : market.Isolated home)
    {command : Command} (own : command.Housed home) : (market.step command).1.Isolated home :=
  ⟨isolated.valid.step command, isolated.roomy.step command,
    isolated.housed.step isolated.valid own⟩

/-- The desk of an instrument follows its commands and is left alone by the others. -/
theorem Isolated.follows {home : OrderId → InstrumentId} (isolated : market.Isolated home)
    {command : Command} (own : command.Housed home) (instrument : InstrumentId) :
    market.Follows (fun _ command => command.instrumentId = instrument) (Market.only instrument)
      command where
  kept routed := by
    have same : command.instrumentId = instrument := of_decide_eq_true routed
    rw [← same]
    exact isolated.valid.only_step isolated.roomy isolated.housed own
  passed other := only_step_other market (of_decide_eq_false other)

/-- A run of commands of one instrument is a run of its own market. -/
theorem Isolated.run_only {home : OrderId → InstrumentId} (isolated : market.Isolated home)
    {commands : List Command} (own : ∀ command ∈ commands, command.Housed home)
    (routed : ∀ command ∈ commands, command.instrumentId = instrument) :
    (market.only instrument).run commands =
      ((market.run commands).1.only instrument, (market.run commands).2) := by
  induction commands generalizing market with
  | nil => rfl
  | cons command rest ih =>
    have here := isolated.follows (own command (by simp)) instrument
    have stepped := here.kept (decide_eq_true (routed command (by simp)))
    have later := ih (isolated.step (own command (by simp)))
      (fun other member => own other (by simp [member]))
      (fun other member => routed other (by simp [member]))
    simp only [run, stepped, later]

/-- The commands of an instrument. -/
theorem schedule_only (instrument : InstrumentId) (market : Market) (commands : List Command) :
    (market.schedule (fun _ command => command.instrumentId = instrument) commands).map Prod.snd =
      commands.filter fun command => command.instrumentId = instrument := by
  induction commands generalizing market with
  | nil => rfl
  | cons command rest ih =>
    simp only [schedule, List.map_append, ih, List.filter_cons]
    by_cases own : command.instrumentId = instrument <;> simp [own]

/-- The replies to them. -/
theorem keptReplies_only (instrument : InstrumentId) (market : Market) (commands : List Command) :
    market.keptReplies (fun _ command => command.instrumentId = instrument) commands =
      ((commands.zip (market.run commands).2).filter fun entry =>
        entry.1.instrumentId = instrument).map Prod.snd := by
  induction commands generalizing market with
  | nil => rfl
  | cons command rest ih =>
    simp only [keptReplies, ih, run, List.zip_cons_cons, List.filter_cons]
    by_cases own : command.instrumentId = instrument <;> simp [own]

end Market

end AtlasLob
