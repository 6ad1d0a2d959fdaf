import AtlasLob.Spec.Equivariance
import AtlasLob.Verif.Runs

/-!
# What the engine does not depend on

Two laws about two runs of one engine. Exchanging buying and selling and reflecting every price at
an anchor reflects every reply and every book; renaming orders and clients renames them. Both are
instances of equivariance, carried to the engine by the refinement.
-/

namespace AtlasLob

open PriceLevel

namespace Relabeling

variable (labels : Relabeling)

/-- A resting order of a snapshot. -/
def orderSnapshot (order : OrderSnapshot) : OrderSnapshot where
  orderId := labels.orderId order.orderId
  clientId := labels.clientId order.clientId
  instrumentId := order.instrumentId
  side := labels.side order.side
  price := labels.price order.price
  remainingQuantity := order.remainingQuantity
  prioritySequence := labels.sequence order.prioritySequence

/-- The levels of one side of a snapshot. -/
def levelSnapshots (levels : List PriceLevelSnapshot) : List PriceLevelSnapshot :=
  levels.map fun level =>
    ⟨labels.price level.price, level.aggregateQuantity, level.orders.map labels.orderSnapshot⟩

/-- One book of a snapshot; its sides are exchanged by a mirror. -/
def instrumentSnapshot (instrument : InstrumentSnapshot) : InstrumentSnapshot :=
  if labels.mirrored then
    ⟨instrument.instrumentId, instrument.activeOrderCount, labels.levelSnapshots instrument.asks,
      labels.levelSnapshots instrument.bids⟩
  else
    ⟨instrument.instrumentId, instrument.activeOrderCount, labels.levelSnapshots instrument.bids,
      labels.levelSnapshots instrument.asks⟩

/-- The books of a snapshot. -/
def engineSnapshot (snapshot : EngineSnapshot) : EngineSnapshot :=
  { snapshot with instruments := snapshot.instruments.map labels.instrumentSnapshot }

variable {labels : Relabeling}

/-- The snapshot of a relabeled side. -/
theorem snapshotLevels (levels : Levels) :
    Market.snapshotLevels (labels.levels levels) =
      labels.levelSnapshots (Market.snapshotLevels levels) := by
  simp only [Market.snapshotLevels, Relabeling.levels, SortedMap.rename, levelSnapshots,
    List.map_map, Function.comp_def, aggregate_map]
  rfl

/-- The snapshot of a relabeled desk. -/
theorem snapshotDesk (instrument : InstrumentId) (desk : Desk) :
    Market.snapshotDesk instrument (labels.desk desk) =
      labels.instrumentSnapshot (Market.snapshotDesk instrument desk) := by
  rw [Market.snapshotDesk, Market.snapshotDesk, desk_ladder, length_ladder]
  cases mirrored : labels.mirrored <;>
    simp [Relabeling.ladder, instrumentSnapshot, mirrored, snapshotLevels]

/-- The instruments of a relabeled market. -/
theorem Images.instruments {market image : Market} (images : labels.Images market image) :
    image.snapshot.instruments =
      market.snapshot.instruments.map labels.instrumentSnapshot := by
  simp only [Market.snapshot, images.books, Relabeling.books, SortedMap.mapValues, List.map_map,
    Function.comp_def, snapshotDesk]

/-- The snapshot of a relabeled market with the same counter. -/
theorem Images.snapshot {market image : Market} (images : labels.Images market image)
    (counters : image.sequencer = market.sequencer) :
    image.snapshot = labels.engineSnapshot market.snapshot := by
  have instruments := images.instruments
  have catalog : image.snapshot.catalog = market.snapshot.catalog := by
    simp only [Market.snapshot, images.books, Relabeling.books, SortedMap.mapValues,
      List.map_map, Function.comp_def, desk_config]
  have rest : image.snapshot = { market.snapshot with
      catalog := image.snapshot.catalog
      instruments := image.snapshot.instruments } := by
    simp only [Market.snapshot, images.config, images.length, counters]
  rw [rest, instruments, catalog]
  rfl

/-- The desks of a catalog before the first command. -/
theorem openingBooks_members {catalog : List InstrumentConfig}
    {books : List (InstrumentId × Desk)} {instrument : InstrumentId} {desk : Desk}
    (member : (instrument, desk) ∈ Market.openingBooks books catalog) :
    (instrument, desk) ∈ books ∨ (desk.config ∈ catalog ∧ desk.ladder = .empty) := by
  induction catalog generalizing books with
  | nil => exact Or.inl member
  | cons first rest ih =>
    rcases ih member with inserted | ⟨later, empty⟩
    · rcases SortedMap.mem_insert.mp inserted with fresh | old
      · cases fresh
        exact Or.inr ⟨List.mem_cons_self, rfl⟩
      · exact Or.inl old
    · exact Or.inr ⟨List.mem_cons_of_mem _ later, empty⟩

/-- Nothing is relabeled before the first command. -/
theorem images_opening (catalog : List InstrumentConfig)
    (config : MultiInstrumentEngineConfig) :
    labels.Images (Market.opening catalog config) (Market.opening catalog config) := by
  refine ⟨rfl, ?_⟩
  have empty : ∀ entry ∈ (Market.opening catalog config).books, labels.desk entry.2 = entry.2 := by
    intro entry member
    rcases openingBooks_members member with absent | ⟨-, empty⟩
    · cases absent
    · have same : labels.ladder Ladder.empty = Ladder.empty := by
        cases mirrored : labels.mirrored <;> simp [Relabeling.ladder, mirrored] <;> rfl
      rw [Relabeling.desk, empty, same, ← empty]
  rw [Relabeling.books, SortedMap.mapValues]
  conv_lhs => rw [← List.map_id (Market.opening catalog config).books]
  refine List.map_congr_left fun entry member => ?_
  rw [empty entry member]
  rfl

/-- An empty market lies in every scope. -/
theorem within_opening (scope : PriceTicks → Prop) {ticks : PriceTicks → Prop}
    {catalog : List InstrumentConfig}
    (gridded : ∀ instrument ∈ catalog, ticks instrument.matching.tickIncrement)
    (config : MultiInstrumentEngineConfig) :
    (Market.opening catalog config).Within scope ticks := by
  constructor
  · intro instrument desk member side known price inside
    rcases openingBooks_members member with absent | ⟨-, empty⟩
    · cases absent
    · rw [empty] at inside
      rcases known with rfl | rfl <;> cases inside
  · intro instrument desk member
    rcases openingBooks_members member with absent | ⟨listed, -⟩
    · cases absent
    · exact gridded _ listed

/-- Running relabeled commands on an engine replies with the relabeled events of the run of the
commands themselves and ends in relabeled books. -/
def Corresponds (labels : Relabeling) (checks : Bool) (initial : MultiInstrumentEngine)
    (commands : List Command) : Prop :=
  ∃ engine results image imageResults snapshot,
    initial.run checks commands = .ok (engine, results) ∧
      initial.run checks (commands.map labels.command) = .ok (image, imageResults) ∧
        imageResults.map EngineResult.reply =
          (results.map EngineResult.reply).map labels.reply ∧
        engine.snapshot = .ok snapshot ∧
          image.snapshot = .ok (labels.engineSnapshot snapshot)

/-- Relabeled commands on the empty engine of a catalog. -/
theorem run_corresponds {scope ticks : PriceTicks → Prop} (faithful : labels.Faithful scope ticks)
    (same : ∀ sequence, labels.sequence sequence = sequence) (checks : Bool)
    {catalog : List InstrumentConfig} {config : MultiInstrumentEngineConfig}
    {initial : MultiInstrumentEngine}
    (created : MultiInstrumentEngine.create catalog config = .ok initial)
    (gridded : ∀ instrument ∈ catalog, ticks instrument.matching.tickIncrement)
    {commands : List Command} (priced : ∀ command ∈ commands, command.Priced scope) :
    labels.Corresponds checks initial commands := by
  have stands := create_stands created
  obtain ⟨engine, results, ran, after, replies⟩ := stands.run checks commands
  obtain ⟨image, imageResults, imageRan, imageAfter, imageReplies⟩ :=
    stands.run checks (commands.map labels.command)
  obtain ⟨images, replied, counters⟩ := (@images_opening labels catalog config).run
    faithful stands.valid (within_opening scope gridded config) rfl same priced
  refine ⟨engine, results, image, imageResults, _, ran, imageRan, ?_,
    after.snapshot (by simp [Stands.Leases]), ?_⟩
  · rw [imageReplies, replies, replied]
  · rw [imageAfter.snapshot (by simp [Stands.Leases]), images.snapshot counters]

/-- Exchange buying and selling and reflect the prices at an anchor. -/
def mirror (anchor : PriceTicks) : Relabeling := ⟨id, id, id, fun price => anchor - price, true⟩

/-- The prices a mirror reflects. -/
def Reflected (anchor price : PriceTicks) : Prop := 0 < price ∧ price < anchor

/-- The ticks that divide an anchor. -/
def Divides (anchor tick : PriceTicks) : Prop := isTickAligned anchor tick = true

/-- A reflected price, exactly. -/
theorem toInt_reflect {anchor price : PriceTicks} (inside : Reflected anchor price) :
    (anchor - price).toInt = anchor.toInt - price.toInt := by
  have low := Int64.lt_iff_toInt_lt.mp inside.1
  have high := Int64.lt_iff_toInt_lt.mp inside.2
  have bound := anchor.toInt_lt
  rw [Int64.toInt_zero] at low
  rw [Int64.toInt_sub, Int.bmod_eq_of_le] <;> omega

/-- Reflecting prices at a multiple of every tick changes nothing that matching reads. -/
theorem faithful_mirror (anchor : PriceTicks) :
    (mirror anchor).Faithful (Reflected anchor) (Divides anchor) where
  orderId := Function.injective_id
  orderId_zero := rfl
  clientId := Function.injective_id
  clientId_zero := rfl
  positive price inside := by
    have exact := toInt_reflect inside
    have low := Int64.lt_iff_toInt_lt.mp inside.1
    have high := Int64.lt_iff_toInt_lt.mp inside.2
    show anchor - price ≤ 0 ↔ price ≤ 0
    rw [Int64.le_iff_toInt_le, Int64.le_iff_toInt_le, exact]
    rw [Int64.toInt_zero] at low ⊢
    omega
  ahead side known left right leftInside rightInside := by
    have exactLeft := toInt_reflect leftInside
    have exactRight := toInt_reflect rightInside
    have apart : Side.sell ≠ Side.buy := by decide
    rcases known with rfl | rfl
    · simp only [Relabeling.side, mirror, bestPriceFirst, Int64.lt_iff_toInt_lt, exactLeft,
        exactRight, Bool.not_true, Bool.false_eq_true, ↓reduceIte, apart]
      exact decide_eq_decide.mpr (by omega)
    · simp only [Relabeling.side, mirror, bestPriceFirst, Int64.lt_iff_toInt_lt, exactLeft,
        exactRight, Bool.not_true, Bool.false_eq_true, ↓reduceIte, apart]
      exact decide_eq_decide.mpr (by omega)
  aligned tick divides price inside := by
    have exact := toInt_reflect inside
    have aligned : ∀ price : PriceTicks,
        price % tick = 0 ↔ tick.toInt ∣ price.toInt := by
      intro price
      rw [← Int64.toInt_inj, Int64.toInt_mod, Int64.toInt_zero, Int.dvd_iff_tmod_eq_zero]
    have anchored := (aligned anchor).mp (of_decide_eq_true divides)
    show isTickAligned (anchor - price) tick = _
    simp only [isTickAligned, aligned, exact]
    exact decide_eq_decide.mpr (dvd_sub_right anchored)

/-- Give orders and clients other IDs. -/
def rename (orderId : OrderId → OrderId) (clientId : ClientId → ClientId) : Relabeling :=
  ⟨orderId, clientId, id, id, false⟩

/-- Telling IDs apart and keeping zero changes nothing else that matching reads. -/
theorem faithful_rename {orderId : OrderId → OrderId} {clientId : ClientId → ClientId}
    (orders : Function.Injective orderId) (orderZero : orderId 0 = 0)
    (clients : Function.Injective clientId) (clientZero : clientId 0 = 0) :
    (rename orderId clientId).Faithful (fun _ => True) (fun _ => True) where
  orderId := orders
  orderId_zero := orderZero
  clientId := clients
  clientId_zero := clientZero
  positive _ _ := Iff.rfl
  ahead _ _ _ _ _ _ := rfl
  aligned _ _ _ _ := rfl

end Relabeling

variable (checks : Bool) {catalog : List InstrumentConfig} {config : MultiInstrumentEngineConfig}
  {initial : MultiInstrumentEngine}

/-- Mirror symmetry: where every tick divides an anchor and every price lies strictly between zero
and the anchor, the mirrored commands have the mirrored replies and lead to the mirrored books,
with the same queues and priorities. -/
theorem run_mirrored (created : MultiInstrumentEngine.create catalog config = .ok initial)
    {anchor : PriceTicks}
    (divides : ∀ instrument ∈ catalog, Relabeling.Divides anchor instrument.matching.tickIncrement)
    {commands : List Command}
    (priced : ∀ command ∈ commands, command.Priced (Relabeling.Reflected anchor)) :
    (Relabeling.mirror anchor).Corresponds checks initial commands :=
  Relabeling.run_corresponds (Relabeling.faithful_mirror anchor) (fun _ => rfl) checks created
    divides priced

/-- A bid that an ask takes in part, and their reflections at 20. -/
theorem run_mirrored_single :
    (Relabeling.mirror 20).Corresponds true (singleEngine ⟨1, ⟨100, 5, 3⟩⟩ ⟨2⟩)
      [.newOrder ⟨1, 1, 1, .buy, .limit, .gtc, some 15, 7⟩,
        .newOrder ⟨2, 2, 1, .sell, .limit, .gtc, some 10, 3⟩] := by
  refine run_mirrored true session_created ?_ ?_
  · intro instrument member
    rw [List.mem_singleton.mp member]
    show isTickAligned 20 5 = true
    decide
  · intro command member
    simp only [List.mem_cons, List.not_mem_nil, or_false] at member
    rcases member with rfl | rfl
    · intro limit given
      cases given
      exact ⟨by decide, by decide⟩
    · intro limit given
      cases given
      exact ⟨by decide, by decide⟩

/-- Names do not matter: renaming order IDs and client IDs injectively, with zero kept, renames the
replies and the books and changes nothing else. -/
theorem run_renamed (created : MultiInstrumentEngine.create catalog config = .ok initial)
    {orderId : OrderId → OrderId} {clientId : ClientId → ClientId}
    (orders : Function.Injective orderId) (orderZero : orderId 0 = 0)
    (clients : Function.Injective clientId) (clientZero : clientId 0 = 0)
    (commands : List Command) :
    (Relabeling.rename orderId clientId).Corresponds checks initial commands :=
  Relabeling.run_corresponds (Relabeling.faithful_rename orders orderZero clients clientZero)
    (fun _ => rfl) checks created (fun _ _ => trivial) fun command _ => by
      cases command with
      | newOrder order => exact fun _ _ => trivial
      | cancel order => trivial
      | replace order => trivial

/-- Two orders exchange their IDs and two clients theirs. -/
theorem run_renamed_single :
    (Relabeling.rename (Equiv.swap 1 2) (Equiv.swap 1 2)).Corresponds true
      (singleEngine ⟨1, ⟨100, 5, 3⟩⟩ ⟨2⟩)
      [.newOrder ⟨1, 1, 1, .buy, .limit, .gtc, some 15, 7⟩,
        .replace ⟨1, 1, 2, 1, 10, 3⟩, .cancel ⟨2, 2, 1⟩] :=
  run_renamed true session_created
    (Equiv.swap (1 : OrderId) 2).injective (by decide)
    (Equiv.swap (1 : ClientId) 2).injective (by decide) _

end AtlasLob
