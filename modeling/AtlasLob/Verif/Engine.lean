import AtlasLob.Spec.Invariant
import AtlasLob.Verif.Executor

/-!
# The engine stands for a market

An engine stands for a market when every book represents the ladder of its desk and the two
directories answer as lookups over all resting orders. Such an engine passes its own full
validation, with or without a live preparation, and its snapshot is the market's.
-/

namespace AtlasLob

open PriceLevel

/-- What the directory knows about a resting order. -/
def identityOf (order : OrderNodeSpec) : Identity :=
  ⟨order.instrumentId, order.clientId, order.prioritySequence⟩

/-- The resting order of a priority. -/
def Market.holder (market : Market) (sequence : Sequence) : Option OrderNodeSpec :=
  market.orders.find? fun order => order.prioritySequence = sequence

/-- A book of the engine agrees with its desk; a leased book may hold a staged residual. -/
structure BookAgrees (instrument : InstrumentId) (entry : BookEntry) (desk : Desk)
    (lease : Option (Option Pending)) : Prop where
  config : entry.config = desk.config
  /-- The instrument tells the books of an engine apart. -/
  placed : entry.executor.address = instrument.toNat
  policy : entry.executor.policy = desk.config.matching
  /-- The counter of a routed book is never used. -/
  counter : entry.executor.sequencer = .initial
  leased : entry.executor.preparationActive = lease.isSome
  represents : Represents instrument entry.executor.book desk.ladder lease.join
  pins : ∀ residual ∈ lease.join, residual.Pins desk.ladder

/-- The lease of one book. -/
def leaseAt (lease : Option (InstrumentId × Option Pending)) (instrument : InstrumentId) :
    Option (Option Pending) :=
  match lease with
  | none => none
  | some (leased, pending) => if leased = instrument then some pending else none

/-- An engine stands for a market. -/
structure Stands (engine : MultiInstrumentEngine) (market : Market) (active : Bool)
    (lease : Option (InstrumentId × Option Pending)) : Prop where
  valid : market.Valid
  config : engine.config = market.config
  sequencer : engine.sequencer = market.sequencer
  active : engine.preparationActive = active
  books : SortedMap.Agree (fun instrument entry desk =>
    BookAgrees instrument entry desk (leaseAt lease instrument)) engine.books market.books
  owners : ∀ orderId, engine.activeOrders[orderId]? = (market.find orderId).map identityOf
  ranks : ∀ sequence, engine.activePriorities[sequence]? =
    (market.holder sequence).map OrderNodeSpec.orderId

namespace Market.Valid

variable {market : Market}

/-- A lookup finds the order of its priority. -/
theorem holder_eq_some_iff (valid : market.Valid) {order : OrderNodeSpec} {sequence : Sequence} :
    market.holder sequence = some order ↔
      order ∈ market.orders ∧ order.prioritySequence = sequence := by
  constructor
  · intro found
    exact ⟨List.mem_of_find?_eq_some found, by simpa using List.find?_some found⟩
  · rintro ⟨member, rfl⟩
    cases found : market.holder order.prioritySequence with
    | none =>
      have missed := List.find?_eq_none.mp found order member
      simp at missed
    | some other =>
      have same : other.prioritySequence = order.prioritySequence := by
        simpa using List.find?_some found
      rw [List.inj_on_of_nodup_map valid.ranked (List.mem_of_find?_eq_some found) member same]

/-- Every resting order is named. -/
theorem named (valid : market.Valid) {order : OrderNodeSpec} (member : order ∈ market.orders) :
    order.orderId ≠ 0 := by
  obtain ⟨instrument, desk, entry, inside⟩ := Market.mem_orders.mp member
  exact (valid.desks instrument desk entry).ladder.named_order inside

/-- Every resting order has something left and an issued priority. -/
theorem unfilled (valid : market.Valid) {order : OrderNodeSpec} (member : order ∈ market.orders) :
    order.remainingQuantity ≠ 0 ∧ order.prioritySequence ≠ 0 := by
  obtain ⟨instrument, desk, entry, inside⟩ := Market.mem_orders.mp member
  have ladder := (valid.desks instrument desk entry).ladder
  obtain ⟨price, queue, level, here⟩ := Levels.mem_orders.mp (ladder.mem_side inside)
  have wellFormed := (ladder.side (ladder.sided inside)).queue price queue level
  exact ⟨wellFormed.unfilled order here, wellFormed.issued order here⟩

/-- A market has fewer orders than there are words. -/
theorem length_lt (valid : market.Valid) : market.orders.length < 2 ^ 64 := by
  have bound := length_lt_of_nodup valid.distinct (by
    intro zero
    obtain ⟨order, member, same⟩ := List.mem_map.mp zero
    exact valid.named member same)
  simpa [ids] using bound

end Market.Valid

namespace Stands

variable {engine : MultiInstrumentEngine} {market : Market} {active : Bool}
  {lease : Option (InstrumentId × Option Pending)}

/-- The directory has as many entries as there are resting orders. -/
theorem owners_size (stands : Stands engine market active lease) :
    engine.activeOrders.size = market.orders.length := by
  have members : ∀ orderId, orderId ∈ engine.activeOrders ↔ orderId ∈ ids market.orders := by
    intro orderId
    rw [Std.ExtTreeMap.mem_iff_isSome_getElem?, stands.owners, Option.isSome_map,
      ← not_iff_not, Bool.not_eq_true, Option.isSome_eq_false_iff, Option.isNone_iff_eq_none]
    exact Market.Valid.find_eq_none_iff
  have size := size_eq_length stands.valid.distinct members
  simpa [ids] using size

/-- So has the directory of priorities. -/
theorem ranks_size (stands : Stands engine market active lease) :
    engine.activePriorities.size = market.orders.length := by
  have members : ∀ sequence, sequence ∈ engine.activePriorities ↔
      sequence ∈ priorities market.orders := by
    intro sequence
    rw [Std.ExtTreeMap.mem_iff_isSome_getElem?, stands.ranks, Option.isSome_map,
      ← not_iff_not, Bool.not_eq_true, Option.isSome_eq_false_iff, Option.isNone_iff_eq_none]
    simp [Market.holder, priorities, List.find?_eq_none]
  have size := size_eq_length stands.valid.ranked members
  simpa [priorities] using size

/-- The directories know every resting order. -/
theorem identityHolds (stands : Stands engine market active lease) {order : OrderNodeSpec}
    (member : order ∈ market.orders) {instrument : InstrumentId}
    (routed : order.instrumentId = instrument) :
    engine.identityHolds (snapshotLastSequence engine.sequencer) instrument order = true := by
  have owner : engine.activeOrders[order.orderId]? = some (identityOf order) := by
    rw [stands.owners, stands.valid.find_eq_some_iff.mpr ⟨member, rfl⟩, Option.map_some]
  have rank : engine.activePriorities[order.prioritySequence]? = some order.orderId := by
    rw [stands.ranks, stands.valid.holder_eq_some_iff.mpr ⟨member, rfl⟩, Option.map_some]
  have issued := stands.valid.issued order member
  rw [MultiInstrumentEngine.identityHolds, owner, rank, stands.sequencer]
  simp [routed, identityOf, issued, (stands.valid.unfilled member).2]

/-- The directories know the orders of a side. -/
theorem verifySide (stands : Stands engine market active lease) {instrument : InstrumentId}
    {levels : Levels} (inside : ∀ order ∈ levels.orders, order ∈ market.orders ∧
      order.instrumentId = instrument) :
    engine.verifySide (snapshotLastSequence engine.sequencer) instrument (visibleLevels levels) =
      true := by
  rw [MultiInstrumentEngine.verifySide, visibleLevels, List.all_map, List.all_eq_true]
  intro entry level
  rw [Function.comp_apply, List.all_eq_true]
  intro order here
  obtain ⟨member, routed⟩ := inside order (Levels.mem_orders.mpr ⟨entry.1, entry.2, level, here⟩)
  exact stands.identityHolds member routed

/-- The number of orders of some desks. -/
def deskTotal (desks : List (InstrumentId × Desk)) : Nat :=
  (desks.map fun entry => entry.2.ladder.orders.length).sum

/-- A leased book belongs to an active engine. -/
def Leases (active : Bool) (lease : Option (InstrumentId × Option Pending)) : Prop :=
  lease.isSome = true → active = true

/-- The books pass their checks one after another. -/
theorem verifyBooks (stands : Stands engine market active lease) (leases : Leases active lease)
    (books : List (InstrumentId × BookEntry)) (desks : List (InstrumentId × Desk))
    (agree : SortedMap.Agree (fun instrument entry desk =>
      BookAgrees instrument entry desk (leaseAt lease instrument)) books desks)
    (inside : ∀ entry ∈ desks, entry ∈ market.books) (total : Nat)
    (bound : total + deskTotal desks < 2 ^ 64) :
    engine.verifyBooks (snapshotLastSequence engine.sequencer) total books =
      .ok (some (total + deskTotal desks)) := by
  induction books generalizing desks total with
  | nil =>
    cases agree
    rfl
  | cons first rest ih =>
    cases agree with
    | @cons _ second _ others head tail =>
      obtain ⟨instrument, entry⟩ := first
      obtain ⟨other, desk⟩ := second
      obtain ⟨same, agrees⟩ := head
      simp only at same agrees
      subst same
      have member := inside (instrument, desk) (by simp)
      have valid := stands.valid.desks instrument desk member
      have represents := agrees.represents
      have size : deskTotal ((instrument, desk) :: others) =
          desk.ladder.orders.length + deskTotal others := by
        simp [deskTotal]
      rw [size] at bound ⊢
      have quiet : (entry.book.hasPendingPreparation && !engine.preparationActive) = false := by
        rw [stands.active]
        cases live : active with
        | true => simp
        | false =>
          have free : leaseAt lease instrument = none := by
            cases lease with
            | none => rfl
            | some pair => exact absurd (leases rfl) (by simp [live])
          rw [free] at represents
          have none := represents.pendingNode
          have noLevel := represents.pendingLevel
          have noOld := represents.replacedId
          simp only [Option.join_none, Option.map_none, Option.getD_none] at none noLevel noOld
          simp [BookEntry.book, InstrumentBook.hasPendingPreparation, none, noLevel, noOld]
      have sides : ∀ side, side = .buy ∨ side = .sell →
          engine.verifySide (snapshotLastSequence engine.sequencer) instrument
            (entry.book.levels side) = true := by
        intro side known
        rw [BookEntry.book, represents.visible known]
        refine stands.verifySide fun order here => ?_
        have resting : order ∈ desk.ladder.orders :=
          (desk.ladder.orders_perm side).mem_iff.mpr (List.mem_append_left _ here)
        exact ⟨Market.mem_orders.mpr ⟨instrument, desk, member, resting⟩,
          valid.ladder.routed_order resting⟩
      have count : entry.book.activeOrderCount = desk.ladder.orders.length :=
        represents.activeOrderCount
      have checked : entry.book.validateInvariants = .ok .none :=
        represents.validateInvariants agrees.pins
      have capacity : ¬ desk.config.matching.maxActiveOrders.toNat < desk.ladder.orders.length :=
        Nat.not_lt.mpr valid.capacity
      have tail' := ih others tail (fun other here => inside other (by simp [here]))
        (total + desk.ladder.orders.length) (by omega)
      rw [MultiInstrumentEngine.verifyBooks, checked]
      simp only [agrees.config, valid.configured, valid.usable, count, quiet, capacity,
        sides .buy (Or.inl rfl), sides .sell (Or.inr rfl), Run.ok_bind, ne_eq, not_true_eq_false,
        decide_false, Bool.not_true, Bool.or_self, Bool.false_eq_true, ↓reduceIte]
      rw [if_neg (by omega), tail', Nat.add_assoc]

/-- The orders of a market, desk by desk. -/
theorem deskTotal_books (market : Market) : deskTotal market.books = market.orders.length := by
  rw [deskTotal, Market.orders, List.length_flatMap]

/-- An engine that stands for a market passes its full validation. -/
theorem validateInvariants (stands : Stands engine market active lease)
    (leases : Leases active lease) : engine.validateInvariants = .ok true := by
  have books := stands.verifyBooks leases engine.books market.books stands.books
    (fun entry here => here) 0 (by
      rw [deskTotal_books]
      have := stands.valid.length_lt
      omega)
  rw [Nat.zero_add, deskTotal_books] at books
  have directory : engine.activeOrders.toList.all engine.directoryHolds = true := by
    rw [List.all_eq_true]
    rintro ⟨orderId, identity⟩ inside
    rw [Std.ExtTreeMap.mem_toList_iff_getElem?_eq_some, stands.owners, Option.map_eq_some_iff]
      at inside
    obtain ⟨order, found, rfl⟩ := inside
    obtain ⟨member, rfl⟩ := stands.valid.find_eq_some_iff.mp found
    obtain ⟨desk, here, resting⟩ := stands.valid.desk_of_mem member
    obtain ⟨entry, book, agrees⟩ := stands.books.find?_image here
    have rank : engine.activePriorities[order.prioritySequence]? = some order.orderId := by
      rw [stands.ranks, stands.valid.holder_eq_some_iff.mpr ⟨member, rfl⟩, Option.map_some]
    have rests : entry.book.find order.orderId = some order := by
      rw [BookEntry.book, agrees.represents.find]
      exact agrees.represents.valid.find_eq_some_iff.mpr ⟨resting, rfl⟩
    have target : engine.findBook order.instrumentId = some entry := book
    simp [MultiInstrumentEngine.directoryHolds, target, rests, identityOf, rank]
  have ranks : engine.activePriorities.toList.all engine.priorityHolds = true := by
    rw [List.all_eq_true]
    rintro ⟨sequence, orderId⟩ inside
    rw [Std.ExtTreeMap.mem_toList_iff_getElem?_eq_some, stands.ranks, Option.map_eq_some_iff]
      at inside
    obtain ⟨order, found, rfl⟩ := inside
    obtain ⟨member, rfl⟩ := stands.valid.holder_eq_some_iff.mp found
    have owner : engine.activeOrders[order.orderId]? = some (identityOf order) := by
      rw [stands.owners, stands.valid.find_eq_some_iff.mpr ⟨member, rfl⟩, Option.map_some]
    simp [MultiInstrumentEngine.priorityHolds, owner, identityOf, (stands.valid.unfilled member).2]
  have total := stands.valid.total
  rw [MultiInstrumentEngine.validateInvariants, books, stands.owners_size, stands.ranks_size,
    stands.config, stands.sequencer, stands.valid.sequenced]
  simp [directory, ranks, total]

/-- The snapshot of one side. -/
theorem snapshotSide_visible (levels : Levels) :
    snapshotSide (visibleLevels levels) = Market.snapshotLevels levels := by
  simp [snapshotSide, visibleLevels, Market.snapshotLevels, Function.comp_def]

/-- The snapshot of an engine is that of its market, also while a preparation is live. -/
theorem snapshot (stands : Stands engine market active lease) (leases : Leases active lease) :
    engine.snapshot = .ok market.snapshot := by
  have books : engine.books.map (fun entry => snapshotBook entry.1 entry.2.book) =
      market.books.map (fun entry => Market.snapshotDesk entry.1 entry.2) := by
    refine stands.books.map_eq fun instrument entry desk agrees => ?_
    have represents := agrees.represents
    rw [snapshotBook, Market.snapshotDesk, BookEntry.book, represents.activeOrderCount,
      represents.visible (Or.inl rfl), represents.visible (Or.inr rfl), snapshotSide_visible,
      snapshotSide_visible]
    rfl
  have catalog : engine.books.map (fun entry => entry.2.config) =
      market.books.map (fun entry => entry.2.config) :=
    stands.books.map_eq fun instrument entry desk agrees => agrees.config
  rw [MultiInstrumentEngine.snapshot, stands.validateInvariants leases]
  simp only [Run.ok_bind, Bool.not_true, Bool.false_eq_true, ↓reduceIte, books, catalog,
    stands.config, stands.sequencer, stands.owners_size, Run.pure_eq]
  rfl

end Stands

end AtlasLob
