import AtlasLob.Spec.Aggressor

/-!
# The invariant of a market

A market is valid when every desk has a well-formed ladder within its limits, no order ID and no
priority occurs twice in the whole market, and the counter is ahead of every priority. What a
judged command can do is said once, and every command keeps a valid market valid.
-/

namespace AtlasLob

open PriceLevel

/-- Ascending instrument IDs are a strict order. -/
theorem instrumentBefore_strictOrder : SortedMap.StrictOrder instrumentBefore where
  irrefl instrument := by simp [instrumentBefore]
  trans := by
    intro first second third early late
    simp only [instrumentBefore, decide_eq_true_eq, UInt32.lt_iff_toNat_lt] at *
    omega
  total := by
    intro first second apart
    simp only [instrumentBefore, decide_eq_true_eq, decide_eq_false_iff_not,
      UInt32.lt_iff_toNat_lt]
    intro later
    have : first.toNat ≠ second.toNat := fun same => apart (UInt32.toNat_inj.mp same)
    omega

/-- The priorities of orders. -/
def priorities (orders : List OrderNodeSpec) : List Sequence :=
  orders.map OrderNodeSpec.prioritySequence

/-- An order respects the limits of its instrument. -/
def Limited (config : MatchingEngineConfig) (order : OrderNodeSpec) : Prop :=
  order.remainingQuantity ≤ config.maxOrderQuantity ∧
    isTickAligned order.price config.tickIncrement = true

/-- A desk keeps to its own limits. -/
structure Desk.Valid (instrument : InstrumentId) (desk : Desk) : Prop where
  configured : desk.config.instrumentId = instrument
  usable : desk.config.matching.valid = true
  ladder : desk.ladder.Valid instrument
  limited : ∀ order ∈ desk.ladder.orders, Limited desk.config.matching order
  capacity : desk.ladder.orders.length ≤ desk.config.matching.maxActiveOrders.toNat

/-- A valid market. -/
structure Market.Valid (market : Market) : Prop where
  /-- The desks are in ascending order of their instruments. -/
  sorted : SortedMap.Sorted instrumentBefore market.books
  desks : ∀ instrument desk, (instrument, desk) ∈ market.books → desk.Valid instrument
  /-- No order ID occurs twice. -/
  distinct : (ids market.orders).Nodup
  /-- No priority occurs twice. -/
  ranked : (priorities market.orders).Nodup
  /-- Every priority was issued. -/
  issued : ∀ order ∈ market.orders,
    order.prioritySequence ≤ snapshotLastSequence market.sequencer
  total : market.orders.length ≤ market.config.maxTotalActiveOrders.toNat
  /-- The counter is exhausted exactly when it has no next sequence. -/
  sequenced : market.sequencer.exhausted = decide (market.sequencer.nextSequence = 0)

namespace Market

variable {market : Market} {instrument : InstrumentId} {desk : Desk}

/-- The orders of a market are those of its desks. -/
theorem mem_orders {order : OrderNodeSpec} :
    order ∈ market.orders ↔
      ∃ instrument desk, (instrument, desk) ∈ market.books ∧ order ∈ desk.ladder.orders := by
  simp [orders]

/-- The orders of a market besides those of one desk. -/
theorem orders_split (found : market.desk instrument = some desk) :
    ∃ others, market.orders.Perm (desk.ladder.orders ++ others) ∧
      ∀ ladder, (market.setLadder instrument desk ladder).orders.Perm
        (ladder.orders ++ others) := by
  obtain ⟨front, back, split, absent⟩ := SortedMap.find?_split found
  have middle : ∀ first second third : List OrderNodeSpec,
      (first ++ (second ++ third)).Perm (second ++ (first ++ third)) := by
    intro first second third
    rw [← List.append_assoc, ← List.append_assoc]
    exact List.perm_append_comm.append_right third
  refine ⟨(front.flatMap fun entry => entry.2.ladder.orders) ++
    back.flatMap fun entry => entry.2.ladder.orders, ?_, fun ladder => ?_⟩
  · rw [orders, split, List.flatMap_append, List.flatMap_cons]
    exact middle _ _ _
  · rw [orders, setLadder, split, SortedMap.set_append _ absent, List.flatMap_append,
      List.flatMap_cons]
    exact middle _ _ _

@[simp] theorem advance_orders (market : Market) : market.advance.orders = market.orders := rfl

@[simp] theorem advance_books (market : Market) : market.advance.books = market.books := rfl

@[simp] theorem advance_config (market : Market) : market.advance.config = market.config := rfl

@[simp] theorem setLadder_config (market : Market) (instrument : InstrumentId) (desk : Desk)
    (ladder : Ladder) : (market.setLadder instrument desk ladder).config = market.config := rfl

@[simp] theorem setLadder_sequencer (market : Market) (instrument : InstrumentId) (desk : Desk)
    (ladder : Ladder) :
    (market.setLadder instrument desk ladder).sequencer = market.sequencer := rfl

/-- The desk that a found instrument names. -/
theorem withLadder_of_desk (found : market.desk instrument = some desk) (ladder : Ladder) :
    market.withLadder instrument ladder = market.setLadder instrument desk ladder := by
  rw [withLadder, found]

end Market

namespace CommandSequencer

/-- A counter that is not exhausted issues its next sequence. -/
theorem issue_next {sequencer : CommandSequencer} (open' : sequencer.exhausted = false) :
    sequencer.issue.2 = some sequencer.nextSequence := by
  rw [issue, open', if_neg Bool.false_ne_true]
  split_ifs <;> rfl

/-- The last sequence after an issue. -/
theorem snapshotLastSequence_issue {sequencer : CommandSequencer}
    (open' : sequencer.exhausted = false) :
    snapshotLastSequence sequencer.issue.1 = sequencer.nextSequence := by
  rw [issue, open']
  by_cases last : sequencer.nextSequence = Word.max64
  · simp [snapshotLastSequence, last]
  · simp [snapshotLastSequence, last]

/-- The counter stays consistent. -/
theorem sequenced_issue {sequencer : CommandSequencer}
    (sequenced : sequencer.exhausted = decide (sequencer.nextSequence = 0)) :
    sequencer.issue.1.exhausted = decide (sequencer.issue.1.nextSequence = 0) := by
  cases open' : sequencer.exhausted with
  | true => simpa [issue, open'] using open'.symm.trans sequenced
  | false =>
    by_cases last : sequencer.nextSequence = Word.max64
    · simp [issue, open', last]
    · have bound : sequencer.nextSequence.toNat + 1 < 2 ^ 64 := by
        have reading := Word.le_max64 sequencer.nextSequence
        have apart : sequencer.nextSequence.toNat ≠ 2 ^ 64 - 1 := fun same =>
          last (Word.eq_of_toNat same)
        omega
      have next : sequencer.nextSequence + 1 ≠ 0 := by
        rw [ne_eq, Word.eq_zero_iff, Word.toNat_add_of_fits (by simpa using bound)]
        simp
      simp [issue, open', last, next]

/-- An issued priority is before the next sequence. -/
theorem lt_next {sequencer : CommandSequencer} (open' : sequencer.exhausted = false)
    (nonzero : sequencer.nextSequence ≠ 0) {sequence : Sequence}
    (issued : sequence ≤ snapshotLastSequence sequencer) : sequence < sequencer.nextSequence := by
  have positive := Word.toNat_pos nonzero
  have one : (1 : UInt64).toNat = 1 := rfl
  have before := Word.toNat_sub_of_toNat_le
    (show (1 : UInt64).toNat ≤ sequencer.nextSequence.toNat by omega)
  rw [snapshotLastSequence, open', if_neg Bool.false_ne_true, UInt64.le_iff_toNat_le, before]
    at issued
  rw [UInt64.lt_iff_toNat_lt]
  omega

end CommandSequencer

namespace Market.Valid

variable {market : Market} {instrument : InstrumentId} {desk : Desk} {command : Command}

/-- A found desk is valid. -/
theorem desk_valid (valid : market.Valid) (found : market.desk instrument = some desk) :
    desk.Valid instrument :=
  valid.desks instrument desk (SortedMap.mem_of_find? found)

/-- The orders of a found desk are orders of the market. -/
theorem mem_of_desk (found : market.desk instrument = some desk) {order : OrderNodeSpec}
    (member : order ∈ desk.ladder.orders) : order ∈ market.orders :=
  mem_orders.mpr ⟨instrument, desk, SortedMap.mem_of_find? found, member⟩

/-- Every order rests with the instrument it names. -/
theorem desk_of_mem (valid : market.Valid) {order : OrderNodeSpec}
    (member : order ∈ market.orders) :
    ∃ desk, market.desk order.instrumentId = some desk ∧ order ∈ desk.ladder.orders := by
  obtain ⟨instrument, desk, entry, inside⟩ := mem_orders.mp member
  have routed := (valid.desks instrument desk entry).ladder.routed_order inside
  refine ⟨desk, ?_, inside⟩
  rw [routed]
  exact SortedMap.find?_of_mem (valid.sorted.nodup instrumentBefore_strictOrder) entry

/-- A lookup finds the order of its ID. -/
theorem find_eq_some_iff (valid : market.Valid) {order : OrderNodeSpec} {orderId : OrderId} :
    market.find orderId = some order ↔ order ∈ market.orders ∧ order.orderId = orderId := by
  constructor
  · intro found
    exact ⟨List.mem_of_find?_eq_some found, by simpa using List.find?_some found⟩
  · rintro ⟨member, rfl⟩
    cases found : market.find order.orderId with
    | none =>
      have missed := List.find?_eq_none.mp found order member
      simp at missed
    | some other =>
      have same : other.orderId = order.orderId := by simpa using List.find?_some found
      rw [List.inj_on_of_nodup_map valid.distinct (List.mem_of_find?_eq_some found) member same]

/-- A missed ID rests nowhere. -/
theorem find_eq_none_iff {orderId : OrderId} :
    market.find orderId = none ↔ orderId ∉ ids market.orders := by
  simp [Market.find, ids, List.find?_eq_none]

/-- An order of an instrument is found at its desk. -/
theorem ladder_find (valid : market.Valid) (found : market.desk instrument = some desk)
    {order : OrderNodeSpec} {orderId : OrderId} (rests : market.find orderId = some order)
    (routed : order.instrumentId = instrument) : desk.ladder.find orderId = some order := by
  obtain ⟨member, named⟩ := valid.find_eq_some_iff.mp rests
  obtain ⟨other, here, inside⟩ := valid.desk_of_mem member
  rw [routed, found, Option.some.injEq] at here
  subst here
  exact (valid.desk_valid found).ladder.find_eq_some_iff.mpr ⟨inside, named⟩

/-- The next sequence of a market that is not exhausted. -/
theorem next_ne_zero (valid : market.Valid) (open' : market.sequencer.exhausted = false) :
    market.sequencer.nextSequence ≠ 0 := by
  intro zero
  have sequenced := valid.sequenced
  rw [open', zero] at sequenced
  cases sequenced

/-- Every priority is before the next sequence. -/
theorem newer (valid : market.Valid) (open' : market.sequencer.exhausted = false)
    {order : OrderNodeSpec} (member : order ∈ market.orders) :
    order.prioritySequence < market.sequencer.nextSequence :=
  CommandSequencer.lt_next open' (valid.next_ne_zero open') (valid.issued order member)

end Market.Valid

/-- What a command submits: an aggressor, the order it exchanges and the events it opens with. -/
inductive Submits : Command → NewOrder → Option OrderNodeSpec → List EventPayload → Prop
  | new (order : NewOrder) : Submits (.newOrder order) order none newOpening
  | exchange (order : ReplaceOrder) (old : OrderNodeSpec) (named : old.orderId = order.oldOrderId)
      (owned : old.clientId = order.clientId) (routed : old.instrumentId = order.instrumentId) :
      Submits (.replace order) (CommandExecutor.replacementOf old order) (some old)
        (replaceOpening order.oldOrderId order.newOrderId old.remainingQuantity)

/-- What is known about a command that its desk does not refuse. -/
inductive Admitted (market : Market) (desk : Desk) : Command → Prop
  /-- An aggressor within the limits of its desk. -/
  | aggressor {command : Command} {order : NewOrder} {replaced : Option OrderNodeSpec}
      {opening : List EventPayload} (submits : Submits command order replaced opening)
      (aggresses : Aggresses command.instrumentId desk.ladder order replaced
        market.sequencer.nextSequence)
      (fresh : order.orderId ∉ ids market.orders)
      (limited : order.quantity ≤ desk.config.matching.maxOrderQuantity)
      (aligned : ∀ price ∈ order.limitPrice,
        isTickAligned price desk.config.matching.tickIncrement = true)
      (judged : market.judgeAdmitted command desk =
        market.judgeAggressor desk order replaced opening) : Admitted market desk command
  /-- A withdrawal of a resting order. -/
  | withdrawal {order : CancelOrder} {old : OrderNodeSpec} (member : old ∈ desk.ladder.orders)
      (named : old.orderId = order.orderId) (owned : old.clientId = order.clientId)
      (judged : market.judgeAdmitted (.cancel order) desk =
        .accept (desk.ladder.without old) (desk.ladder.withdrawalReport old)) :
      Admitted market desk (.cancel order)

namespace ValidationDecision

@[simp] theorem accept_accepted : accept.accepted = true := rfl

@[simp] theorem reject_accepted (reason : RejectReason) (orderId : OrderId) :
    (reject reason orderId).accepted = decide (reason = .none) := rfl

/-- A check passes exactly when its condition fails and the later checks pass. -/
theorem refuse_iff {condition : Prop} [Decidable condition] {reason : RejectReason}
    {orderId : OrderId} {rest : ValidationDecision} (refuses : reason ≠ .none) :
    (if condition then reject reason orderId else rest).accepted = true ↔
      ¬ condition ∧ rest.accepted = true := by
  by_cases holds : condition <;> simp [holds, refuses]

end ValidationDecision

/-- An accepted comparison names a resting order of its owner and instrument. -/
theorem validateOwner_accepted {resting : Option OrderNodeSpec} {clientId : ClientId}
    {instrumentId : InstrumentId} {orderId : OrderId} :
    (validateOwner resting clientId instrumentId orderId).accepted = true ↔
      ∃ old, resting = some old ∧ old.clientId = clientId ∧ old.instrumentId = instrumentId := by
  cases resting with
  | none => simp [validateOwner]
  | some old =>
    by_cases owner : old.clientId = clientId
    · by_cases here : old.instrumentId = instrumentId <;> simp [validateOwner, owner, here]
    · simp [validateOwner, owner]

namespace Market.Valid

variable {market : Market} {desk : Desk} {command : Command}

/-- The order of an exchange is well formed. -/
theorem replacement_wellFormed {instrument : InstrumentId} {ladder : Ladder} {order : ReplaceOrder}
    {old : OrderNodeSpec} (valid : ladder.Valid instrument) (member : old ∈ ladder.orders)
    (wellFormed : order.WellFormed) :
    (CommandExecutor.replacementOf old order).WellFormed where
  client := valid.owned_order member
  id := wellFormed.newId
  instrument := by
    rw [show (CommandExecutor.replacementOf old order).instrumentId = old.instrumentId from rfl,
      valid.routed_order member]
    exact valid.named
  quantity := wellFormed.quantity
  side := valid.sided member
  terms := Or.inl ⟨order.newLimitPrice, rfl, rfl, wellFormed.price, Or.inl rfl⟩

/-- A command that neither its shape nor its desk refuses. -/
theorem admitted (valid : market.Valid) (open' : market.sequencer.exhausted = false)
    (shaped : (MultiInstrumentEngine.shapeDecision command).accepted = true)
    (found : market.desk command.instrumentId = some desk)
    (decided : (market.decision command desk).accepted = true) : Admitted market desk command := by
  have ladder := (valid.desk_valid found).ladder
  have issued := valid.next_ne_zero open'
  have newer : ∀ resting ∈ desk.ladder.orders,
      resting.prioritySequence < market.sequencer.nextSequence :=
    fun resting inside => valid.newer open' (mem_of_desk found inside)
  have foreign : ∀ orderId, orderId ∉ ids market.orders → orderId ∉ ids desk.ladder.orders := by
    intro orderId absent inside
    obtain ⟨order, member, named⟩ := List.mem_map.mp inside
    exact absent (List.mem_map.mpr ⟨order, mem_of_desk found member, named⟩)
  cases command with
  | newOrder order =>
    rw [MultiInstrumentEngine.shapeDecision, ValidationDecision.reject_accepted,
      decide_eq_true_eq] at shaped
    have wellFormed := NewOrder.validate_eq_none_iff.mp shaped
    simp only [Market.decision, ValidationDecision.refuse_iff, ne_eq, reduceCtorEq,
      not_false_eq_true] at decided
    obtain ⟨large, misaligned, duplicate, -⟩ := decided
    have absent : order.orderId ∉ ids market.orders := by
      rw [← find_eq_none_iff]
      simpa using duplicate
    refine .aggressor (.new order) ⟨⟨ladder, wellFormed, rfl, foreign _ absent⟩, issued, newer,
      by simp⟩
      absent ?_ ?_ rfl
    · rw [UInt64.lt_iff_toNat_lt, Nat.not_lt] at large
      exact UInt64.le_iff_toNat_le.mpr large
    · intro price given
      rcases wellFormed.terms with ⟨limit, limited, named, -⟩ | ⟨-, none, -⟩
      · rw [Option.mem_def] at given
        simpa [limited, given] using misaligned
      · rw [none] at given
        cases given
  | cancel order =>
    rw [Market.decision, validateOwner_accepted] at decided
    obtain ⟨old, rests, owned, routed⟩ := decided
    have here := valid.ladder_find found rests routed
    obtain ⟨member, named⟩ := ladder.find_eq_some_iff.mp here
    refine .withdrawal member named owned ?_
    rw [Market.judgeAdmitted]
    simp only [here]
  | replace order =>
    rw [MultiInstrumentEngine.shapeDecision, ValidationDecision.reject_accepted,
      decide_eq_true_eq] at shaped
    have wellFormed := ReplaceOrder.validate_eq_none_iff.mp shaped
    simp only [Market.decision, ValidationDecision.refuse_iff, ne_eq, reduceCtorEq,
      not_false_eq_true] at decided
    obtain ⟨large, misaligned, owner⟩ := decided
    by_cases owns : (validateOwner (market.find order.oldOrderId) order.clientId order.instrumentId
        order.oldOrderId).accepted = true
    · simp only [owns, Bool.not_true, Bool.false_eq_true, ↓reduceIte,
        ValidationDecision.refuse_iff, ne_eq, reduceCtorEq, not_false_eq_true] at owner
      obtain ⟨old, rests, owned, routed⟩ := validateOwner_accepted.mp owns
      have here := valid.ladder_find found rests routed
      obtain ⟨member, named⟩ := ladder.find_eq_some_iff.mp here
      have absent : order.newOrderId ∉ ids market.orders := by
        rw [← find_eq_none_iff]
        simpa using owner.1
      refine .aggressor (.exchange order old named owned routed)
        ⟨⟨ladder, replacement_wellFormed ladder member wellFormed, routed, foreign _ absent⟩,
          issued, newer, ?_⟩ absent ?_ ?_ ?_
      · intro other same
        rw [Option.mem_def, Option.some.injEq] at same
        subst same
        exact ⟨member, rfl, rfl, rfl, rfl⟩
      · rw [UInt64.lt_iff_toNat_lt, Nat.not_lt] at large
        exact UInt64.le_iff_toNat_le.mpr large
      · rintro price given
        rw [Option.mem_def, CommandExecutor.replacementOf, Option.some.injEq] at given
        rw [← given]
        simpa using misaligned
      · rw [Market.judgeAdmitted]
        simp only [here]
    · rw [Bool.not_eq_true] at owns
      simp only [owns, Bool.not_false, ↓reduceIte, Bool.false_eq_true] at owner

/-- The counter moves and nothing else. -/
theorem advance (valid : market.Valid) (open' : market.sequencer.exhausted = false) :
    market.advance.Valid where
  sorted := valid.sorted
  desks := valid.desks
  distinct := valid.distinct
  ranked := valid.ranked
  issued order member := by
    have earlier := valid.newer open' member
    rw [Market.advance, CommandSequencer.snapshotLastSequence_issue open']
    rw [UInt64.lt_iff_toNat_lt] at earlier
    exact UInt64.le_iff_toNat_le.mpr (Nat.le_of_lt earlier)
  total := valid.total
  sequenced := CommandSequencer.sequenced_issue valid.sequenced

/-- The limits survive a shrinking of the order. -/
theorem limited_of_shrinks {config : MatchingEngineConfig}
    {change : OrderNodeSpec → Option OrderNodeSpec} (shrinks : Shrinks change)
    {order image : OrderNodeSpec} (limited : Limited config order)
    (kept : change order = some image) : Limited config image := by
  obtain ⟨remaining, rfl, -, less⟩ := shrinks order image kept
  refine ⟨UInt64.le_iff_toNat_le.mpr ?_, limited.2⟩
  have bound := UInt64.le_iff_toNat_le.mp limited.1
  rw [OrderNodeSpec.withRemaining_remainingQuantity]
  omega

/-- Shrinking keeps some of the priorities, in order. -/
theorem priorities_sublist {change : OrderNodeSpec → Option OrderNodeSpec}
    (shrinks : Shrinks change) (orders : List OrderNodeSpec) :
    (priorities (orders.filterMap change)).Sublist (priorities orders) := by
  induction orders with
  | nil => simp [priorities]
  | cons order rest ih =>
    cases kept : change order with
    | none => simpa [priorities, kept] using ih.cons order.prioritySequence
    | some image =>
      obtain ⟨remaining, rfl, -⟩ := shrinks order image kept
      simpa [priorities, kept] using ih

/-- A desk exchanges its ladder: orders shrink or leave and at most one joins with the next
sequence as its priority. -/
theorem exchange (valid : market.Valid) (open' : market.sequencer.exhausted = false)
    {instrument : InstrumentId} (found : market.desk instrument = some desk) {ladder : Ladder}
    (wellFormed : ladder.Valid instrument) {change : OrderNodeSpec → Option OrderNodeSpec}
    (shrinks : Shrinks change) {added : Option OrderNodeSpec}
    (changed : ladder.orders.Perm (added.toList ++ desk.ladder.orders.filterMap change))
    (fresh : ∀ order ∈ added, order.orderId ∉ ids market.orders)
    (latest : ∀ order ∈ added, order.prioritySequence = market.sequencer.nextSequence)
    (limited : ∀ order ∈ added, Limited desk.config.matching order)
    (fits : market.exceeds desk ladder = false) :
    (market.setLadder instrument desk ladder).advance.Valid := by
  obtain ⟨others, before, after⟩ := orders_split found
  have held := valid.desk_valid found
  have orders : (market.setLadder instrument desk ladder).orders.Perm
      (added.toList ++ (desk.ladder.orders.filterMap change ++ others)) := by
    rw [← List.append_assoc]
    exact (after ladder).trans (changed.append_right others)
  have idsKept : (ids (desk.ladder.orders.filterMap change ++ others)).Sublist
      (ids (desk.ladder.orders ++ others)) := by
    simp only [ids, List.map_append]
    exact (shrinks.ids_sublist desk.ladder.orders).append (List.Sublist.refl _)
  have ranksKept : (priorities (desk.ladder.orders.filterMap change ++ others)).Sublist
      (priorities (desk.ladder.orders ++ others)) := by
    simp only [priorities, List.map_append]
    exact (priorities_sublist shrinks desk.ladder.orders).append (List.Sublist.refl _)
  have idsOld := (Ladder.ids_perm before).nodup_iff.mp valid.distinct
  have ranksOld := (before.map OrderNodeSpec.prioritySequence).nodup_iff.mp valid.ranked
  rw [Market.exceeds, Bool.or_eq_false_iff, decide_eq_false_iff_not, decide_eq_false_iff_not]
    at fits
  have sizes := before.length_eq
  have newSizes := (after ladder).length_eq
  rw [List.length_append] at sizes newSizes
  exact
    { sorted := valid.sorted.set instrument _
      desks := by
        intro key entry member
        have keys : (SortedMap.keys (SortedMap.set instrument { desk with ladder := ladder }
            market.books)).Nodup := by
          rw [SortedMap.keys_set]
          exact valid.sorted.nodup instrumentBefore_strictOrder
        have here := SortedMap.find?_of_mem keys member
        rw [SortedMap.find?_set found] at here
        split_ifs at here with same
        · rw [Option.some.injEq] at here
          subst same here
          refine ⟨held.configured, held.usable, wellFormed, fun order inside => ?_, ?_⟩
          · rcases List.mem_append.mp (changed.mem_iff.mp inside) with new | old
            · exact limited order (Option.mem_toList.mp new)
            · obtain ⟨source, present, kept⟩ := List.mem_filterMap.mp old
              exact limited_of_shrinks shrinks (held.limited source present) kept
          · exact Nat.le_of_not_lt fits.1
        · exact valid.desks key entry (SortedMap.mem_of_find? here)
      distinct := by
        rw [Market.advance_orders, (Ladder.ids_perm orders).nodup_iff]
        cases added with
        | none => exact idsOld.sublist idsKept
        | some order =>
          have absent := fresh order rfl
          rw [(Ladder.ids_perm before).mem_iff] at absent
          exact List.nodup_cons.mpr ⟨fun inside => absent (idsKept.subset inside),
            idsOld.sublist idsKept⟩
      ranked := by
        rw [Market.advance_orders, priorities, (orders.map _).nodup_iff]
        cases added with
        | none => exact ranksOld.sublist ranksKept
        | some order =>
          refine List.nodup_cons.mpr ⟨fun inside => ?_, ranksOld.sublist ranksKept⟩
          obtain ⟨other, member, same⟩ := List.mem_map.mp
            ((before.map OrderNodeSpec.prioritySequence).mem_iff.mpr (ranksKept.subset inside))
          have earlier := valid.newer open' member
          rw [same, latest order rfl, UInt64.lt_iff_toNat_lt] at earlier
          omega
      issued := by
        intro order member
        rw [Market.advance_orders, orders.mem_iff] at member
        rw [Market.advance, setLadder_sequencer,
          CommandSequencer.snapshotLastSequence_issue open', UInt64.le_iff_toNat_le]
        rcases List.mem_append.mp member with new | old
        · rw [latest order (Option.mem_toList.mp new)]
        · obtain ⟨other, present, same⟩ := List.mem_map.mp
            ((before.map OrderNodeSpec.prioritySequence).mem_iff.mpr
              (ranksKept.subset (List.mem_map.mpr ⟨order, old, rfl⟩)))
          have earlier := valid.newer open' present
          rw [same, UInt64.lt_iff_toNat_lt] at earlier
          omega
      total := by
        rw [Market.advance_orders, Market.advance_config, setLadder_config]
        omega
      sequenced := CommandSequencer.sequenced_issue valid.sequenced }

variable {order : NewOrder} {replaced : Option OrderNodeSpec}

/-- A command is refused, or its desk admits it. -/
theorem judge_cases (valid : market.Valid) (open' : market.sequencer.exhausted = false)
    (command : Command) :
    (∃ decision, market.judge command = .refuse decision) ∨
      ∃ desk, market.desk command.instrumentId = some desk ∧ Admitted market desk command ∧
        market.judge command = market.judgeAdmitted command desk := by
  rw [Market.judge]
  by_cases shaped : (MultiInstrumentEngine.shapeDecision command).accepted = true
  · simp only [shaped, Bool.not_true, Bool.false_eq_true, ↓reduceIte]
    cases found : market.desk command.instrumentId with
    | none => exact Or.inl ⟨_, rfl⟩
    | some desk =>
      simp only [Market.judgeAt]
      by_cases decided : (market.decision command desk).accepted = true
      · simp only [decided, Bool.not_true, Bool.false_eq_true, ↓reduceIte]
        exact Or.inr ⟨desk, rfl, valid.admitted open' shaped found decided, rfl⟩
      · simp only [decided, Bool.not_false, ↓reduceIte]
        exact Or.inl ⟨_, rfl⟩
  · simp only [shaped, Bool.not_false, ↓reduceIte]
    exact Or.inl ⟨_, rfl⟩

/-- What an accepted aggressor does. -/
theorem judgeAggressor_accept {opening : List EventPayload} {ladder : Ladder}
    {report : List EventPayload}
    (judged : market.judgeAggressor desk order replaced opening = .accept ladder report) :
    market.exceeds desk ladder = false ∧ desk.ladder.overflows order replaced = false ∧
      ladder = desk.ladder.after order replaced market.sequencer.nextSequence ∧
      report = desk.ladder.report order replaced market.sequencer.nextSequence opening := by
  simp only [Market.judgeAggressor] at judged
  split_ifs at judged with refused
  rw [Verdict.accept.injEq] at judged
  obtain ⟨rfl, rfl⟩ := judged
  rw [Bool.or_eq_true, not_or, Bool.not_eq_true, Bool.not_eq_true] at refused
  exact ⟨refused.1, refused.2, rfl, rfl⟩

/-- The residual of an aggressor keeps to the limits of its desk. -/
theorem newcomer_limited {instrument : InstrumentId} {ladder : Ladder} {sequence : Sequence}
    {config : MatchingEngineConfig}
    (aggresses : Aggresses instrument ladder order replaced sequence)
    (limited : order.quantity ≤ config.maxOrderQuantity)
    (aligned : ∀ price ∈ order.limitPrice, isTickAligned price config.tickIncrement = true)
    {rested : OrderNodeSpec} (rests : rested ∈ Aggresses.newcomer ladder order sequence) :
    Limited config rested := by
  rw [Aggresses.newcomer, Option.mem_def] at rests
  split_ifs at rests with disposed
  rw [Option.some.injEq] at rests
  subst rests
  obtain ⟨-, price, -, given, -⟩ := aggresses.rest_terms disposed
  have left : (ladder.left order).toNat =
      order.quantity.toNat - PriceLevel.total (ladder.reach order) :=
    residual_toNat order.quantity (ladder.reach order)
  refine ⟨UInt64.le_iff_toNat_le.mpr ?_, ?_⟩
  · have bound := UInt64.le_iff_toNat_le.mp limited
    rw [show (ladder.rested order sequence).remainingQuantity = ladder.left order from rfl]
    omega
  · rw [show (ladder.rested order sequence).price = order.limitPrice.getD 0 from rfl, given]
    exact aligned price given

/-- A newcomer is the order of its aggressor. -/
theorem newcomer_orderId {ladder : Ladder} {sequence : Sequence} {rested : OrderNodeSpec}
    (rests : rested ∈ Aggresses.newcomer ladder order sequence) :
    rested.orderId = order.orderId ∧ rested.prioritySequence = sequence := by
  rw [Aggresses.newcomer, Option.mem_def] at rests
  split_ifs at rests
  rw [Option.some.injEq] at rests
  subst rests
  exact ⟨rfl, rfl⟩

/-- An accepted command leaves a valid market. -/
theorem accepted (valid : market.Valid) (open' : market.sequencer.exhausted = false)
    (found : market.desk command.instrumentId = some desk) (admitted : Admitted market desk command)
    {ladder : Ladder} {report : List EventPayload}
    (judged : market.judgeAdmitted command desk = .accept ladder report) :
    (market.setLadder command.instrumentId desk ladder).advance.Valid := by
  have held := valid.desk_valid found
  cases admitted with
  | @aggressor _ order replaced opening submits aggresses fresh limited aligned same =>
    rw [same] at judged
    obtain ⟨fits, room, rfl, -⟩ := judgeAggressor_accept judged
    refine valid.exchange open' found (aggresses.after_valid room) (settle_shrinks _)
      (Aggresses.after_perm desk.ladder order replaced _) ?_ ?_ ?_ fits
    · intro rested rests
      rw [(newcomer_orderId rests).1]
      exact fresh
    · intro rested rests
      exact (newcomer_orderId rests).2
    · intro rested rests
      exact newcomer_limited aggresses limited aligned rests
  | @withdrawal order old member named owned same =>
    rw [same, Verdict.accept.injEq] at judged
    obtain ⟨rfl, -⟩ := judged
    have shrinks := settle_shrinks [removalOf old]
    have fewer : (desk.ladder.without old).orders.length ≤ desk.ladder.orders.length := by
      rw [Ladder.without, Ladder.orders_revise]
      exact List.length_filterMap_le _ _
    have capacity := held.capacity
    have total := valid.total
    have changed : (desk.ladder.without old).orders.Perm ((none : Option OrderNodeSpec).toList ++
        desk.ladder.orders.filterMap (settle [removalOf old])) := by
      rw [Ladder.without, Ladder.orders_revise]
      exact List.Perm.refl _
    refine valid.exchange open' found (held.ladder.revise shrinks) shrinks changed
      (by simp) (by simp) (by simp) ?_
    rw [Market.exceeds, Bool.or_eq_false_iff, decide_eq_false_iff_not, decide_eq_false_iff_not]
    omega

/-- Every command keeps a market valid. -/
theorem step (valid : market.Valid) (command : Command) : (market.step command).1.Valid := by
  rw [Market.step]
  cases open' : market.sequencer.exhausted with
  | true => simpa using valid
  | false =>
    simp only [Bool.false_eq_true, ↓reduceIte]
    rcases valid.judge_cases open' command with ⟨decision, refused⟩ |
      ⟨desk, found, admitted, judged⟩
    · simp only [refused]
      exact valid.advance open'
    · cases verdict : market.judgeAdmitted command desk with
      | refuse decision =>
        simp only [judged, verdict]
        exact valid.advance open'
      | accept ladder report =>
        simp only [judged, verdict]
        split_ifs with long
        · exact valid
        · rw [withLadder_of_desk found]
          exact valid.accepted open' found admitted verdict

/-- Every run keeps a market valid. -/
theorem run (valid : market.Valid) (commands : List Command) : (market.run commands).1.Valid := by
  induction commands generalizing market with
  | nil => exact valid
  | cons command rest ih => exact ih (valid.step command)

end Market.Valid

end AtlasLob
