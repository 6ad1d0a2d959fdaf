import AtlasLob.Library.Index
import AtlasLob.Verif.Preparation

/-!
# The identities a command changes

The directories index the resting orders. A command adds at most one identity and removes those
of the orders that leave, so the directories follow the market; and these identities are exactly
those its events report, so the check before a publication passes.
-/

namespace AtlasLob

open PriceLevel Index

/-- The directory entries of orders. -/
def directoryEntries (orders : List OrderNodeSpec) : List (OrderId × Identity) :=
  orders.map fun order => (order.orderId, identityOf order)

/-- The priority entries of orders. -/
def priorityEntries (orders : List OrderNodeSpec) : List (Sequence × OrderId) :=
  orders.map fun order => (order.prioritySequence, order.orderId)

/-- The orders that remain when some leave. -/
def remaining (leavers orders : List OrderNodeSpec) : List OrderNodeSpec :=
  orders.filter fun order => order.orderId ∉ ids leavers

/-- The orders leave one after another. -/
theorem remaining_cons (leaver : OrderNodeSpec) (leavers orders : List OrderNodeSpec) :
    remaining (leaver :: leavers) orders = remaining leavers (remaining [leaver] orders) := by
  rw [remaining, remaining, remaining, List.filter_filter]
  refine List.filter_congr fun order _ => ?_
  rw [← Bool.decide_and, decide_eq_decide]
  simp [ids, and_comm]

/-- The directory entries of the orders that remain when one leaves. -/
theorem directoryEntries_remaining (leaver : OrderNodeSpec) (orders : List OrderNodeSpec) :
    directoryEntries (remaining [leaver] orders) =
      (directoryEntries orders).filter fun entry => entry.1 ≠ leaver.orderId := by
  rw [directoryEntries, directoryEntries, remaining, List.filter_map]
  congr 1
  exact List.filter_congr fun order _ => by simp [ids]

/-- The priority entries of the orders that remain when one leaves. -/
theorem priorityEntries_remaining {leaver : OrderNodeSpec} {orders : List OrderNodeSpec}
    (distinct : (ids orders).Nodup) (ranked : (priorities orders).Nodup)
    (member : leaver ∈ orders) :
    priorityEntries (remaining [leaver] orders) =
      (priorityEntries orders).filter fun entry => entry.1 ≠ leaver.prioritySequence := by
  rw [priorityEntries, priorityEntries, remaining, List.filter_map]
  congr 1
  refine List.filter_congr fun order inside => ?_
  have same : order.orderId = leaver.orderId ↔
      order.prioritySequence = leaver.prioritySequence := by
    constructor
    · intro named
      rw [List.inj_on_of_nodup_map distinct inside member named]
    · intro held
      rw [List.inj_on_of_nodup_map ranked inside member held]
  simp [ids, same]

/-- Removing resting orders from the directories. -/
theorem removeIdentities_ok {leavers orders : List OrderNodeSpec} (engine : MultiInstrumentEngine)
    (owners : Indexes engine.activeOrders (directoryEntries orders))
    (ranks : Indexes engine.activePriorities (priorityEntries orders))
    (distinct : (ids orders).Nodup) (ranked : (priorities orders).Nodup)
    (inside : ∀ leaver ∈ leavers, leaver ∈ orders) (apart : (ids leavers).Nodup) :
    ∃ active held, engine.removeIdentities (leavers.map identityRemoval) =
        .ok { engine with activeOrders := active, activePriorities := held } ∧
      Indexes active (directoryEntries (remaining leavers orders)) ∧
      Indexes held (priorityEntries (remaining leavers orders)) := by
  induction leavers generalizing engine orders with
  | nil =>
    have all : remaining [] orders = orders := by simp [remaining, ids]
    exact ⟨_, _, rfl, by rwa [all], by rwa [all]⟩
  | cons leaver rest ih =>
    have member := inside leaver (by simp)
    have kept : (remaining [leaver] orders).Sublist orders := List.filter_sublist
    have owner : engine.activeOrders.contains leaver.orderId = true := by
      rw [Std.ExtTreeMap.contains_eq_isSome_getElem?,
        (owners leaver.orderId (identityOf leaver)).mpr (List.mem_map.mpr ⟨leaver, member, rfl⟩)]
      rfl
    have rank : engine.activePriorities[leaver.prioritySequence]? = some leaver.orderId :=
      (ranks _ _).mpr (List.mem_map.mpr ⟨leaver, member, rfl⟩)
    obtain ⟨fresh, others⟩ := List.nodup_cons.mp apart
    obtain ⟨active, held, removed, indexes, levels⟩ := @ih (remaining [leaver] orders)
      { engine with
        activeOrders := engine.activeOrders.erase leaver.orderId,
        activePriorities := engine.activePriorities.erase leaver.prioritySequence }
      (by rw [directoryEntries_remaining]; exact owners.erase _)
      (by rw [priorityEntries_remaining distinct ranked member]; exact ranks.erase _)
      (distinct.sublist (kept.map _)) (ranked.sublist (kept.map _))
      (by
        intro other present
        refine List.mem_filter.mpr ⟨inside other (by simp [present]), ?_⟩
        have different : other.orderId ≠ leaver.orderId := fun same =>
          fresh (List.mem_map.mpr ⟨other, present, same⟩)
        simpa [ids] using different)
      others
    refine ⟨active, held, ?_, by rwa [remaining_cons], by rwa [remaining_cons]⟩
    rw [List.map_cons, MultiInstrumentEngine.removeIdentities, identityRemoval]
    simp only [owner, rank, identityOf, Bool.not_true, ne_eq, not_true_eq_false, decide_false,
      Bool.or_self, Bool.false_eq_true, ↓reduceIte]
    exact removed

/-- Adding a fresh order to the directories. -/
theorem addIdentity_ok {orders : List OrderNodeSpec} {engine : MultiInstrumentEngine}
    (owners : Indexes engine.activeOrders (directoryEntries orders))
    (ranks : Indexes engine.activePriorities (priorityEntries orders))
    {added : Option OrderNodeSpec} (fresh : ∀ order ∈ added, order.orderId ∉ ids orders)
    (newer : ∀ order ∈ added, order.prioritySequence ∉ priorities orders) :
    ∃ active held, engine.addIdentity (added.map fun order => (order.orderId, identityOf order))
        (added.map fun order => (order.prioritySequence, order.orderId)) =
        .ok { engine with activeOrders := active, activePriorities := held } ∧
      Indexes active (directoryEntries (added.toList ++ orders)) ∧
      Indexes held (priorityEntries (added.toList ++ orders)) := by
  cases added with
  | none => exact ⟨_, _, rfl, owners, ranks⟩
  | some order =>
    have absent : order.orderId ∉ (directoryEntries orders).map Prod.fst := by
      rw [directoryEntries, List.map_map]
      exact fresh order rfl
    have latest : order.prioritySequence ∉ (priorityEntries orders).map Prod.fst := by
      rw [priorityEntries, List.map_map]
      exact newer order rfl
    refine ⟨_, _, ?_, owners.insert (identityOf order) absent, ranks.insert order.orderId latest⟩
    simp [MultiInstrumentEngine.addIdentity, owners.contains absent, ranks.contains latest]

/-- What a view of orders keeps when their quantities shrink. -/
theorem map_filterMap_shrinks {β : Type} {view : OrderNodeSpec → β}
    (steady : ∀ order quantity, view (order.withRemaining quantity) = view order)
    {change : OrderNodeSpec → Option OrderNodeSpec} (shrinks : Shrinks change)
    (orders : List OrderNodeSpec) :
    (orders.filterMap change).map view =
      (orders.filter fun order => (change order).isSome).map view := by
  induction orders with
  | nil => rfl
  | cons order rest ih =>
    cases kept : change order with
    | none => simp [kept, ih]
    | some image =>
      obtain ⟨quantity, rfl, -⟩ := shrinks order image kept
      simp [kept, ih, steady]

/-- A desk exchanges its ladder: what the directories say about the orders that remain. -/
theorem mem_view_exchange {market : Market} {instrument : InstrumentId} {desk : Desk}
    (valid : market.Valid) (found : market.desk instrument = some desk)
    {change : OrderNodeSpec → Option OrderNodeSpec} (shrinks : Shrinks change)
    {added : Option OrderNodeSpec} {after : Ladder} {leavers : List OrderNodeSpec}
    (changed : after.orders.Perm (added.toList ++ desk.ladder.orders.filterMap change))
    (gone : ∀ order ∈ desk.ladder.orders, change order = none ↔ order.orderId ∈ ids leavers)
    (inside : ∀ leaver ∈ leavers, leaver ∈ desk.ladder.orders)
    (fresh : ∀ order ∈ added, order.orderId ∉ ids market.orders) {β : Type}
    {view : OrderNodeSpec → β}
    (steady : ∀ order quantity, view (order.withRemaining quantity) = view order) (entry : β) :
    entry ∈ (remaining leavers (added.toList ++ market.orders)).map view ↔
      entry ∈ (market.setLadder instrument desk after).orders.map view := by
  obtain ⟨others, before, result⟩ := Market.orders_split found
  have distinct := (Ladder.ids_perm before).nodup_iff.mp valid.distinct
  rw [ids, List.map_append] at distinct
  have foreign : remaining leavers others = others := by
    rw [remaining, List.filter_eq_self]
    intro other outside
    rw [decide_eq_true_eq]
    intro leaves
    obtain ⟨leaver, present, same⟩ := List.mem_map.mp leaves
    exact (List.disjoint_of_nodup_append distinct)
      (List.mem_map.mpr ⟨leaver, inside leaver present, same⟩)
      (List.mem_map.mpr ⟨other, outside, rfl⟩)
  have stays : remaining leavers added.toList = added.toList := by
    rw [remaining, List.filter_eq_self]
    intro order arrives
    rw [decide_eq_true_eq]
    intro leaves
    obtain ⟨leaver, present, same⟩ := List.mem_map.mp leaves
    exact fresh order (Option.mem_toList.mp arrives) (List.mem_map.mpr ⟨leaver,
      Market.Valid.mem_of_desk found (inside leaver present), same⟩)
  have kept : (remaining leavers desk.ladder.orders).map view =
      (desk.ladder.orders.filterMap change).map view := by
    rw [map_filterMap_shrinks steady shrinks, remaining]
    congr 1
    refine List.filter_congr fun order member => ?_
    have iff := gone order member
    cases image : change order with
    | none => simp [iff.mp image]
    | some other =>
      have absent : order.orderId ∉ ids leavers := fun leaves => by
        rw [iff.mpr leaves] at image
        cases image
      simp [absent]
  have left : (remaining leavers (added.toList ++ market.orders)).Perm
      (added.toList ++ (remaining leavers desk.ladder.orders ++ others)) := by
    have all := (before.filter fun order => decide (order.orderId ∉ ids leavers)).append_left
      added.toList
    rw [List.filter_append] at all
    rw [remaining, List.filter_append]
    rw [remaining] at foreign stays ⊢
    rw [stays]
    rwa [foreign] at all
  have right : (market.setLadder instrument desk after).orders.Perm
      (added.toList ++ (desk.ladder.orders.filterMap change ++ others)) := by
    rw [← List.append_assoc]
    exact (result after).trans (changed.append_right others)
  rw [(left.map view).mem_iff, (right.map view).mem_iff]
  simp only [List.map_append, kept]

namespace Stands

variable {engine : MultiInstrumentEngine} {market : Market} {active : Bool}
  {lease : Option (InstrumentId × Option Pending)} {instrument : InstrumentId} {desk : Desk}

/-- The directories index the resting orders. -/
theorem indexes (stands : Stands engine market active lease) :
    Indexes engine.activeOrders (directoryEntries market.orders) ∧
      Indexes engine.activePriorities (priorityEntries market.orders) :=
  ⟨(indexes_map_iff stands.valid.distinct).mpr stands.owners,
    (indexes_map_iff stands.valid.ranked).mpr stands.ranks⟩

/-- The directories after an exchange of one ladder index its orders. -/
theorem exchangeIdentities (stands : Stands engine market active lease)
    (unspent : market.sequencer.exhausted = false)
    (found : market.desk instrument = some desk)
    {change : OrderNodeSpec → Option OrderNodeSpec} (shrinks : Shrinks change)
    {added : Option OrderNodeSpec} {after : Ladder} {leavers : List OrderNodeSpec}
    (changed : after.orders.Perm (added.toList ++ desk.ladder.orders.filterMap change))
    (gone : ∀ order ∈ desk.ladder.orders, change order = none ↔ order.orderId ∈ ids leavers)
    (inside : ∀ leaver ∈ leavers, leaver ∈ desk.ladder.orders) (apart : (ids leavers).Nodup)
    (fresh : ∀ order ∈ added, order.orderId ∉ ids market.orders)
    (latest : ∀ order ∈ added, order.prioritySequence = market.sequencer.nextSequence)
    (valid : (market.setLadder instrument desk after).advance.Valid) :
    ∃ first second owners ranks,
      engine.addIdentity (added.map fun order => (order.orderId, identityOf order))
        (added.map fun order => (order.prioritySequence, order.orderId)) =
          .ok { engine with activeOrders := first, activePriorities := second } ∧
      MultiInstrumentEngine.removeIdentities
        { engine with activeOrders := first, activePriorities := second }
        (leavers.map identityRemoval) =
          .ok { engine with activeOrders := owners, activePriorities := ranks } ∧
      (∀ orderId, owners[orderId]? =
        ((market.setLadder instrument desk after).advance.find orderId).map identityOf) ∧
      ∀ sequence, ranks[sequence]? =
        ((market.setLadder instrument desk after).advance.holder sequence).map
          OrderNodeSpec.orderId := by
  have newer : ∀ order ∈ added, order.prioritySequence ∉ priorities market.orders := by
    intro order arrives held
    obtain ⟨other, member, same⟩ := List.mem_map.mp held
    have earlier := stands.valid.newer unspent member
    rw [same, latest order arrives, UInt64.lt_iff_toNat_lt] at earlier
    omega
  obtain ⟨first, second, adds, owned, ranked⟩ :=
    addIdentity_ok stands.indexes.1 stands.indexes.2 fresh newer
  have distinct : (ids (added.toList ++ market.orders)).Nodup := by
    cases added with
    | none => exact stands.valid.distinct
    | some order => exact List.nodup_cons.mpr ⟨fresh order rfl, stands.valid.distinct⟩
  have different : (priorities (added.toList ++ market.orders)).Nodup := by
    cases added with
    | none => exact stands.valid.ranked
    | some order => exact List.nodup_cons.mpr ⟨newer order rfl, stands.valid.ranked⟩
  obtain ⟨owners, ranks, removes, active, held⟩ := removeIdentities_ok
    { engine with activeOrders := first, activePriorities := second } owned ranked distinct
    different (fun leaver leaves => List.mem_append_right _
      (Market.Valid.mem_of_desk found (inside leaver leaves))) apart
  refine ⟨first, second, owners, ranks, adds, removes, ?_, ?_⟩
  · exact (indexes_map_iff valid.distinct).mp (active.congr (mem_view_exchange stands.valid found
      shrinks changed gone inside fresh fun order quantity => rfl))
  · exact (indexes_map_iff valid.ranked).mp (held.congr (mem_view_exchange stands.valid found
      shrinks changed gone inside fresh fun order quantity => rfl))

end Stands

/-- The header and payload of a numbered event. -/
theorem mem_numberEvents {sequence : Sequence} {instrument : InstrumentId} {index : Nat}
    {payloads : List EventPayload} {event : Event}
    (inside : event ∈ numberEvents sequence instrument index payloads) :
    event.header.commandSequence = sequence ∧ event.header.instrumentId = instrument ∧
      event.payload ∈ payloads := by
  induction payloads generalizing index with
  | nil => cases inside
  | cons payload rest ih =>
    rcases List.mem_cons.mp inside with rfl | later
    · exact ⟨rfl, rfl, by simp⟩
    · obtain ⟨issued, routed, member⟩ := ih later
      exact ⟨issued, routed, List.mem_cons_of_mem _ member⟩

namespace MultiInstrumentEngine

variable {prepared : PreparedMultiInstrumentCommand}

/-- Events are compared one after another. -/
theorem eventsAgree_append (rested : Nat) (front back : List Event) :
    eventsAgree prepared rested (front ++ back) =
      (eventsAgree prepared rested front).bind fun count => eventsAgree prepared count back := by
  induction front generalizing rested with
  | nil => rfl
  | cons event rest ih =>
    obtain ⟨header, payload⟩ := event
    cases payload <;> simp only [List.cons_append, eventsAgree, ih]
    all_goals split_ifs <;> rfl

/-- An event that rests nothing and agrees with the removals. -/
def Settles (prepared : PreparedMultiInstrumentCommand) (event : Event) : Prop :=
  match event.payload with
  | .trade _ restingOrderId _ restingClientId _ _ _ _ restingRemaining =>
    restingRemaining = 0 → tradeRemoved prepared event.header restingOrderId restingClientId = true
  | .rested .. => False
  | _ => True

/-- Events that rest nothing agree. -/
theorem eventsAgree_settles {events : List Event} (rested : Nat)
    (settles : ∀ event ∈ events, Settles prepared event) :
    eventsAgree prepared rested events = some rested := by
  induction events with
  | nil => rfl
  | cons event rest ih =>
    have later := ih fun other inside => settles other (by simp [inside])
    have here := settles event (by simp)
    obtain ⟨header, payload⟩ := event
    cases payload <;> simp only [eventsAgree, Settles] at here ⊢ <;> try exact later
    rename_i remaining
    by_cases zero : remaining = 0
    · simp [here zero, later]
    · simp [zero, later]

end MultiInstrumentEngine

/-- One order leaves once. -/
theorem removalCount_leavers {prepared : PreparedMultiInstrumentCommand}
    {leavers : List OrderNodeSpec} (removals : prepared.removals = leavers.map identityRemoval)
    (apart : (ids leavers).Nodup) {leaver : OrderNodeSpec} (inside : leaver ∈ leavers) :
    prepared.removalCount leaver.orderId = 1 := by
  have once : (ids leavers).count leaver.orderId = 1 :=
    List.count_eq_one_of_mem apart (List.mem_map.mpr ⟨leaver, inside, rfl⟩)
  rw [PreparedMultiInstrumentCommand.removalCount, removals, List.countP_map]
  rw [ids, List.count, List.countP_map] at once
  rw [← once]
  refine List.countP_congr fun other _ => ?_
  rw [Function.comp_apply, Function.comp_apply, identityRemoval, decide_eq_true_iff, beq_iff_eq]

/-- A filled order is removed as its event names it. -/
theorem tradeRemoved_leavers {prepared : PreparedMultiInstrumentCommand}
    {leavers : List OrderNodeSpec} (removals : prepared.removals = leavers.map identityRemoval)
    (apart : (ids leavers).Nodup) {leaver : OrderNodeSpec} (inside : leaver ∈ leavers)
    {header : EventHeader} (routed : leaver.instrumentId = header.instrumentId) :
    MultiInstrumentEngine.tradeRemoved prepared header leaver.orderId leaver.clientId = true := by
  rw [MultiInstrumentEngine.tradeRemoved, removalCount_leavers removals apart inside, removals,
    decide_eq_true rfl, Bool.true_and, List.all_map, List.all_eq_true]
  intro other present
  by_cases same : other.orderId = leaver.orderId
  · rw [List.inj_on_of_nodup_map apart present inside same]
    simp [identityRemoval, identityOf, routed]
  · simp [identityRemoval, same]

/-- The removals name resting orders that the directories know. -/
theorem removalHolds_leavers {engine : MultiInstrumentEngine} {market : Market} {active : Bool}
    {lease : Option (InstrumentId × Option Pending)}
    (stands : Stands engine market active lease) {addition : Option (OrderId × Identity)}
    (fresh : ∀ added ∈ addition, added.1 ∉ ids market.orders)
    {leavers : List OrderNodeSpec} (resting : ∀ leaver ∈ leavers, leaver ∈ market.orders)
    (earlier : List IdentityRemoval)
    (distinct : (earlier.map IdentityRemoval.orderId ++ ids leavers).Nodup) :
    engine.removalHolds addition earlier (leavers.map identityRemoval) = true := by
  induction leavers generalizing earlier with
  | nil => rfl
  | cons leaver rest ih =>
    have member := resting leaver (by simp)
    have owner : engine.activeOrders[leaver.orderId]? = some (identityOf leaver) :=
      (stands.indexes.1 _ _).mpr (List.mem_map.mpr ⟨leaver, member, rfl⟩)
    have rank : engine.activePriorities[leaver.prioritySequence]? = some leaver.orderId :=
      (stands.indexes.2 _ _).mpr (List.mem_map.mpr ⟨leaver, member, rfl⟩)
    have first : (earlier.any fun other => other.orderId = leaver.orderId) = false := by
      rw [List.any_eq_false]
      intro other present same
      rw [decide_eq_true_eq] at same
      exact (List.disjoint_of_nodup_append distinct) (List.mem_map.mpr ⟨other, present, same⟩)
        (by simp [ids])
    have foreign : (addition.any fun added => added.1 = leaver.orderId) = false := by
      cases addition with
      | none => rfl
      | some added =>
        have absent : added.1 ≠ leaver.orderId := fun same =>
          fresh added rfl (List.mem_map.mpr ⟨leaver, member, same.symm⟩)
        simpa using absent
    have later := ih (fun other inside => resting other (by simp [inside]))
      (earlier ++ [identityRemoval leaver]) (by simpa [ids, identityRemoval] using distinct)
    rw [List.map_cons, MultiInstrumentEngine.removalHolds, later, identityRemoval]
    rw [owner, first, foreign, identityOf, rank, decide_eq_true (stands.valid.named member)]
    simp

namespace Stands

variable {engine : MultiInstrumentEngine} {market : Market} {active : Bool}
  {lease : Option (InstrumentId × Option Pending)} {prepared : PreparedMultiInstrumentCommand}
  {batch : EventBatch} {added : Option OrderNodeSpec} {leavers : List OrderNodeSpec}

/-- The identities of an accepted command are those its events report. -/
theorem identityDeltaValid (stands : Stands engine market active lease)
    (unspent : market.sequencer.exhausted = false) (accepted : batch.accepted = true)
    (removals : prepared.removals = leavers.map identityRemoval)
    (addition : prepared.addition = added.map fun order => (order.orderId, identityOf order))
    (priorityAddition : prepared.priorityAddition =
      added.map fun order => (order.prioritySequence, order.orderId))
    (fresh : ∀ order ∈ added, order.orderId ∉ ids market.orders)
    (latest : ∀ order ∈ added, order.prioritySequence = market.sequencer.nextSequence)
    (resting : ∀ leaver ∈ leavers, leaver ∈ market.orders) (apart : (ids leavers).Nodup)
    (agree : MultiInstrumentEngine.eventsAgree prepared 0 batch.events =
      some added.toList.length)
    (caused : ∀ leaver ∈ leavers,
      (MultiInstrumentEngine.commandRemoves prepared.command (identityRemoval leaver) ||
        batch.events.any (MultiInstrumentEngine.fillsOrder leaver.orderId)) = true)
    (mandatory : ∀ orderId ∈ MultiInstrumentEngine.mandatoryRemoval prepared.command,
      prepared.removalCount orderId = 1) :
    engine.identityDeltaValid prepared batch = true := by
  have held : engine.removalHolds prepared.addition [] prepared.removals = true := by
    rw [removals]
    refine removalHolds_leavers stands ?_ resting [] (by simpa using apart)
    intro entry given
    rw [addition, Option.mem_def, Option.map_eq_some_iff] at given
    obtain ⟨order, arrives, rfl⟩ := given
    exact fresh order arrives
  have causes : prepared.removals.all (fun removal =>
      MultiInstrumentEngine.commandRemoves prepared.command removal ||
        batch.events.any (MultiInstrumentEngine.fillsOrder removal.orderId)) = true := by
    rw [removals, List.all_map, List.all_eq_true]
    exact caused
  have required : (MultiInstrumentEngine.mandatoryRemoval prepared.command).all
      (fun orderId => decide (prepared.removalCount orderId = 1)) = true := by
    rw [Option.all_eq_true]
    intro orderId named
    exact decide_eq_true (mandatory orderId named)
  rw [MultiInstrumentEngine.identityDeltaValid, accepted, held, agree]
  simp only [causes, required, Bool.and_true, Bool.true_and]
  rw [addition, priorityAddition]
  cases added with
  | none => rfl
  | some order =>
    have absent : engine.activeOrders.contains order.orderId = false :=
      stands.indexes.1.contains (by
        rw [directoryEntries, List.map_map]
        exact fresh order rfl)
    have unranked : engine.activePriorities.contains order.prioritySequence = false :=
      stands.indexes.2.contains (by
        rw [priorityEntries, List.map_map]
        intro inside
        obtain ⟨other, member, same⟩ := List.mem_map.mp inside
        have earlier := stands.valid.newer unspent member
        rw [show other.prioritySequence = order.prioritySequence from same, latest order rfl,
          UInt64.lt_iff_toNat_lt] at earlier
        omega)
    simp [absent, unranked]

variable {command : Command} {order : NewOrder} {replaced : Option OrderNodeSpec}
  {opening : List EventPayload} {ladder : Ladder} {sequence : Sequence}
  {instrument : InstrumentId}

/-- The opening events settle nothing. -/
theorem settles_opening (submits : Submits command order replaced opening) {event : Event}
    (inside : event.payload ∈ opening) : MultiInstrumentEngine.Settles prepared event := by
  obtain ⟨header, payload⟩ := event
  cases submits with
  | new =>
    rw [newOpening, List.mem_singleton] at inside
    simp only at inside
    subst inside
    trivial
  | exchange =>
    simp only [replaceOpening, List.mem_cons, List.not_mem_nil, or_false] at inside
    rcases inside with rfl | rfl | rfl | rfl <;> trivial

/-- The events of a changed top settle nothing. -/
theorem settles_change {before after : Ladder} {event : Event}
    (inside : event.payload ∈ Ladder.changeEvents before after) :
    MultiInstrumentEngine.Settles prepared event := by
  obtain ⟨header, payload⟩ := event
  rw [Ladder.changeEvents] at inside
  split_ifs at inside
  · cases inside
  · rw [List.mem_singleton] at inside
    simp only at inside
    subst inside
    trivial

/-- An execution with nothing left of its resting order takes all of it. -/
theorem exhausts (aggresses : Aggresses instrument ladder order replaced sequence) {fill : Fill}
    (inside : fill ∈ ladder.fills order) :
    fill.order.remainingQuantity - fill.executed = 0 ↔
      fill.executed = fill.order.remainingQuantity := by
  have sound := aggresses.executable.sound fill inside
  have bound := sound.bounded
  rw [Word.eq_zero_iff, Word.toNat_sub_of_toNat_le bound]
  constructor
  · intro zero
    exact Word.eq_of_toNat (by omega)
  · intro full
    rw [full, Nat.sub_self]

/-- The order of an exhausting execution leaves. -/
theorem leaves_of_exhausts {fill : Fill} (inside : fill ∈ ladder.fills order)
    (full : fill.executed = fill.order.remainingQuantity) :
    fill.order ∈ ladder.leavers order replaced := by
  rw [Aggresses.leavers_eq]
  exact List.mem_append_right _ (List.mem_map.mpr
    ⟨fill, List.mem_filter.mpr ⟨inside, by simpa using full⟩, rfl⟩)

/-- The events of an aggressor agree with the identities it changes. -/
theorem eventsAgree_report (submits : Submits command order replaced opening)
    (aggresses : Aggresses command.instrumentId ladder order replaced sequence)
    (commanded : prepared.command = command)
    (removals : prepared.removals = (ladder.leavers order replaced).map identityRemoval)
    (addition : prepared.addition =
      (Aggresses.newcomer ladder order sequence).map
        fun rested => (rested.orderId, identityOf rested))
    (priorityAddition : prepared.priorityAddition =
      (Aggresses.newcomer ladder order sequence).map
        fun rested => (rested.prioritySequence, rested.orderId)) :
    MultiInstrumentEngine.eventsAgree prepared 0 (numberEvents sequence command.instrumentId 0
        (ladder.report order replaced sequence opening)) =
      some (Aggresses.newcomer ladder order sequence).toList.length := by
  have apart := aggresses.leavers_distinct
  have opens : ∀ event ∈ numberEvents sequence command.instrumentId 0 opening,
      MultiInstrumentEngine.Settles prepared event := fun event inside =>
    settles_opening submits (mem_numberEvents inside).2.2
  have trades : ∀ index, ∀ event ∈ numberEvents sequence command.instrumentId index
      ((ladder.fills order).map (Ladder.tradeEvent order)),
        MultiInstrumentEngine.Settles prepared event := by
    intro index event inside
    obtain ⟨-, routed, member⟩ := mem_numberEvents inside
    obtain ⟨fill, executed, traded⟩ := List.mem_map.mp member
    obtain ⟨header, payload⟩ := event
    simp only at traded routed
    subst traded
    intro zero
    have leaves : fill.order ∈ ladder.leavers order replaced :=
      leaves_of_exhausts executed ((exhausts aggresses executed).mp zero)
    refine tradeRemoved_leavers removals apart leaves ?_
    rw [routed]
    exact aggresses.valid.routed_order (aggresses.executable.members fill executed)
  have changes : ∀ index, ∀ event ∈ numberEvents sequence command.instrumentId index
      (Ladder.changeEvents ladder (ladder.after order replaced sequence)),
        MultiInstrumentEngine.Settles prepared event := fun index event inside =>
    settles_change (mem_numberEvents inside).2.2
  have closes : ∀ index, MultiInstrumentEngine.eventsAgree prepared 0
      (numberEvents sequence command.instrumentId index [ladder.closingEvent order]) =
        some (Aggresses.newcomer ladder order sequence).toList.length := by
    intro index
    rw [Aggresses.newcomer] at addition priorityAddition ⊢
    rw [numberEvents, numberEvents, Ladder.closingEvent]
    cases disposed : ladder.disposition order with
    | rest =>
      rw [if_pos disposed, Option.map_some] at addition priorityAddition
      have added : MultiInstrumentEngine.restedAdded prepared
          ⟨sequence, UInt32.ofNat index, command.instrumentId⟩ order.orderId order.clientId =
            true := by
        rw [MultiInstrumentEngine.restedAdded, addition, priorityAddition, commanded]
        have routed := aggresses.routed
        cases submits with
        | new => simp [Ladder.rested, identityOf, Command.instrumentId]
        | exchange exchanged old named owned here =>
          simp [Ladder.rested, identityOf, CommandExecutor.replacementOf, owned, here,
            Command.instrumentId]
      simp only [MultiInstrumentEngine.eventsAgree, added]
      simp
    | filled => simp [MultiInstrumentEngine.eventsAgree]
    | iocCanceled => simp [MultiInstrumentEngine.eventsAgree]
    | marketExhausted => simp [MultiInstrumentEngine.eventsAgree]
  rw [Ladder.report, numberEvents_append, numberEvents_append, numberEvents_append,
    MultiInstrumentEngine.eventsAgree_append, MultiInstrumentEngine.eventsAgree_append,
    MultiInstrumentEngine.eventsAgree_append,
    MultiInstrumentEngine.eventsAgree_settles 0 opens, Option.bind_some,
    MultiInstrumentEngine.eventsAgree_settles 0 (trades _), Option.bind_some, closes,
    Option.bind_some, MultiInstrumentEngine.eventsAgree_settles _ (changes _)]

/-- The identities of an aggressor are those its events report. -/
theorem identityDeltaValid_aggressor (stands : Stands engine market active lease)
    (unspent : market.sequencer.exhausted = false) {desk : Desk}
    (found : market.desk command.instrumentId = some desk)
    (submits : Submits command order replaced opening)
    (aggresses : Aggresses command.instrumentId desk.ladder order replaced
      market.sequencer.nextSequence)
    (fresh : order.orderId ∉ ids market.orders)
    (events : batch.events = numberEvents market.sequencer.nextSequence command.instrumentId 0
      (desk.ladder.report order replaced market.sequencer.nextSequence opening))
    (commanded : prepared.command = command)
    (removals : prepared.removals = (desk.ladder.leavers order replaced).map identityRemoval)
    (addition : prepared.addition =
      (Aggresses.newcomer desk.ladder order market.sequencer.nextSequence).map
        fun rested => (rested.orderId, identityOf rested))
    (priorityAddition : prepared.priorityAddition =
      (Aggresses.newcomer desk.ladder order market.sequencer.nextSequence).map
        fun rested => (rested.prioritySequence, rested.orderId)) :
    engine.identityDeltaValid prepared batch = true := by
  have apart := aggresses.leavers_distinct
  obtain ⟨rest, opens⟩ := report_accepted submits desk.ladder market.sequencer.nextSequence
  refine stands.identityDeltaValid unspent (accepted_of_events (events.trans (by rw [opens]))).1
    removals addition priorityAddition ?_ ?_
    (fun leaver leaves => Market.Valid.mem_of_desk found (aggresses.mem_leavers leaves)) apart ?_
    ?_ ?_
  · intro rested rests
    rw [(Market.Valid.newcomer_orderId rests).1]
    exact fresh
  · intro rested rests
    exact (Market.Valid.newcomer_orderId rests).2
  · rw [events]
    exact eventsAgree_report submits aggresses commanded removals addition priorityAddition
  · intro leaver leaves
    rw [Aggresses.leavers_eq, List.mem_append] at leaves
    rw [Bool.or_eq_true, commanded]
    rcases leaves with old | filled
    · left
      cases submits with
      | new => cases old
      | exchange exchanged resting named owned here =>
        rw [Option.toList_some, List.mem_singleton] at old
        subst old
        simp [MultiInstrumentEngine.commandRemoves, identityRemoval, identityOf, named, owned, here]
    · right
      obtain ⟨fill, exhausting, rfl⟩ := List.mem_map.mp filled
      obtain ⟨executed, full⟩ := List.mem_filter.mp exhausting
      rw [decide_eq_true_eq] at full
      have zero := (exhausts aggresses executed).mpr full
      have payload : Ladder.tradeEvent order fill ∈ batch.events.map Event.payload := by
        rw [events, numberEvents_payloads, Ladder.report]
        have traded : Ladder.tradeEvent order fill ∈
            (desk.ladder.fills order).map (Ladder.tradeEvent order) :=
          List.mem_map.mpr ⟨fill, executed, rfl⟩
        exact List.mem_append_left _ (List.mem_append_left _ (List.mem_append_right _ traded))
      obtain ⟨event, member, same⟩ := List.mem_map.mp payload
      refine List.any_eq_true.mpr ⟨event, member, ?_⟩
      rw [MultiInstrumentEngine.fillsOrder, same, Ladder.tradeEvent]
      simp [zero]
  · intro orderId named
    rw [commanded] at named
    cases submits with
    | new => cases named
    | exchange exchanged resting named' owned here =>
      rw [MultiInstrumentEngine.mandatoryRemoval, Option.mem_def, Option.some.injEq] at named
      rw [← named, ← named']
      refine removalCount_leavers removals apart ?_
      rw [Aggresses.leavers_eq]
      simp

/-- The identities of a withdrawal are those its events report. -/
theorem identityDeltaValid_withdrawal (stands : Stands engine market active lease)
    (unspent : market.sequencer.exhausted = false) {desk : Desk} {order : CancelOrder}
    {old : OrderNodeSpec} (found : market.desk order.instrumentId = some desk)
    (member : old ∈ desk.ladder.orders) (named : old.orderId = order.orderId)
    (owned : old.clientId = order.clientId)
    (events : batch.events = numberEvents market.sequencer.nextSequence order.instrumentId 0
      (desk.ladder.withdrawalReport old))
    (commanded : prepared.command = .cancel order)
    (removals : prepared.removals = [identityRemoval old]) (addition : prepared.addition = none)
    (priorityAddition : prepared.priorityAddition = none) :
    engine.identityDeltaValid prepared batch = true := by
  have routed := (stands.valid.desk_valid found).ladder.routed_order member
  have leaving : prepared.removals = [old].map identityRemoval := removals
  have apart : (ids [old]).Nodup := by simp [ids]
  have arriving : prepared.addition = (none : Option OrderNodeSpec).map
      fun order => (order.orderId, identityOf order) := addition
  refine stands.identityDeltaValid unspent (accepted_of_events events).1 leaving arriving
    priorityAddition (by simp) (by simp) ?_ apart ?_ ?_ ?_
  · intro leaver leaves
    rw [List.mem_singleton.mp leaves]
    exact Market.Valid.mem_of_desk found member
  · rw [events, Ladder.withdrawalReport, numberEvents_append,
      MultiInstrumentEngine.eventsAgree_append]
    have changes : ∀ index, ∀ event ∈ numberEvents market.sequencer.nextSequence
        order.instrumentId index (Ladder.changeEvents desk.ladder (desk.ladder.without old)),
          MultiInstrumentEngine.Settles prepared event := fun index event inside =>
      settles_change (mem_numberEvents inside).2.2
    simp only [numberEvents, MultiInstrumentEngine.eventsAgree, Option.bind_some]
    rw [MultiInstrumentEngine.eventsAgree_settles 0 (changes _)]
    rfl
  · intro leaver leaves
    rw [List.mem_singleton.mp leaves, commanded]
    simp [MultiInstrumentEngine.commandRemoves, identityRemoval, identityOf, named, owned, routed]
  · intro orderId required
    rw [commanded, MultiInstrumentEngine.mandatoryRemoval, Option.mem_def,
      Option.some.injEq] at required
    rw [← required, ← named]
    exact removalCount_leavers leaving apart (by simp)

end Stands

end AtlasLob
