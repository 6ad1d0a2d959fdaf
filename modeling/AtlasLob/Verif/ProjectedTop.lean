import AtlasLob.Verif.Projection

/-!
# Projected tops

The projections of a new order, a withdrawal and an exchange give the top of the ladder after
them. They fail in one case only: the level of a residual would not fit a word.
-/

namespace AtlasLob

open PriceLevel

namespace Represents

variable {instrument : InstrumentId} {book : InstrumentBook} {ladder : Ladder}
  {pending : Option Pending} {order : NewOrder} {replaced : Option OrderNodeSpec}
  {old : OrderNodeSpec} {sequence : Sequence} (checks : Bool)

/-- The order of the levels on which a residual may rest. -/
theorem joined_sorted (aggresses : Aggresses instrument ladder order replaced sequence)
    (rests : ladder.disposition order = .rest) (fits : ladder.overflows order replaced = false) :
    SortedMap.Sorted (bestPriceFirst order.side)
      (((withoutReplaced ladder replaced).side order.side).join order.side
        (ladder.rested order sequence)) := by
  have sorted := ((aggresses.after_valid fits).side aggresses.wellFormed.side).sorted
  rwa [aggresses.after_own_rest rests] at sorted

/-- Choosing by the fit of a residual is choosing by its overflow. -/
theorem ite_fits (aggresses : Aggresses instrument ladder order replaced sequence)
    (rests : ladder.disposition order = .rest) {α : Type} (kept refused : α) :
    (if total (((withoutReplaced ladder replaced).side order.side).queueAt
        (order.limitPrice.getD 0)) + (ladder.left order).toNat < 2 ^ 64 then kept else refused) =
      if ladder.overflows order replaced then refused else kept := by
  have fits := aggresses.overflows_eq rests
  cases overflows : ladder.overflows order replaced with
  | true => rw [if_neg fun small => by simp [fits.mpr small] at overflows, if_pos rfl]
  | false => rw [if_pos (fits.mp overflows), if_neg Bool.false_ne_true]

/-- The own side of a new order whose residual rests. -/
theorem projectRest (represents : Represents instrument book ladder pending)
    (aggresses : Aggresses instrument ladder order none sequence)
    (rests : ladder.disposition order = .rest) :
    AtlasLob.applyRestingResidual book order.side
        ⟨order.limitPrice.getD 0, ladder.left order⟩ (Ladder.best (ladder.side order.side)) =
      if ladder.overflows order none then .error .aggregateOverflow
      else .ok (Ladder.best ((ladder.after order none sequence).side order.side)) := by
  have own := represents.applyRestingResidual (ladder.rested order sequence)
    aggresses.wellFormed.side fun fits =>
      joined_sorted aggresses rests ((aggresses.overflows_eq rests).mpr fits)
  rw [aggresses.after_own_rest rests, ← ite_fits aggresses rests]
  exact own

/-- The own side of an exchange. -/
theorem projectReplace (represents : Represents instrument book ladder pending)
    (aggresses : Aggresses instrument ladder order (some old) sequence) :
    AtlasLob.projectSideAfterReplace book order.side (makeCancelProjectionTarget old)
        (Aggresses.projected ladder order) =
      if ladder.overflows order (some old) then .error .aggregateOverflow
      else .ok (Ladder.best ((ladder.after order (some old) sequence).side order.side)) := by
  obtain ⟨member, -, sided, -⟩ := aggresses.replaces old rfl
  by_cases rests : ladder.disposition order = .rest
  · have sorted := fun fits => joined_sorted aggresses rests
      ((aggresses.overflows_eq rests).mpr fits)
    rw [aggresses.after_own_rest rests, ← ite_fits aggresses rests, Aggresses.projected,
      if_pos rests]
    rw [← sided] at sorted ⊢
    exact represents.projectSideAfterReplace_rest member (ladder.rested order sequence)
      (aggresses.rest_terms rests).1 sorted
  · have fits : ladder.overflows order (some old) = false := by simp [Ladder.overflows, rests]
    rw [aggresses.after_own rests, Aggresses.projected, if_neg rests, fits,
      if_neg Bool.false_ne_true, ← sided]
    exact represents.projectSideAfterReplace_none member

/-- The top after an aggressor, from its two sides. -/
theorem top_of_sides {projected : TopOfBookSnapshot}
    (own : projected.side order.side =
      Ladder.best ((ladder.after order replaced sequence).side order.side))
    (other : projected.side order.side.opposite =
      Ladder.best ((ladder.struck order replaced).side order.side.opposite)) :
    projected = (ladder.after order replaced sequence).top := by
  refine TopOfBookSnapshot.eq_of_sides order.side ?_ ?_
  · rw [own, Ladder.top_side]
  · rw [other, Ladder.top_side, Aggresses.after_opposite]

/-- The top after an aggressor, once both sides are projected. -/
theorem setSides (ladder : Ladder) (order : NewOrder) (replaced : Option OrderNodeSpec)
    (sequence : Sequence) (top : TopOfBookSnapshot) :
    (top.setSide order.side.opposite (Ladder.best
        ((ladder.struck order replaced).side order.side.opposite))).setSide order.side
          (Ladder.best ((ladder.after order replaced sequence).side order.side)) =
      (ladder.after order replaced sequence).top :=
  top_of_sides (by rw [TopOfBookSnapshot.side_setSide]) (by simp)

/-- The projection of a new order. -/
theorem projectNewTopOfBook (represents : Represents instrument book ladder none)
    (aggresses : Aggresses instrument ladder order none sequence) :
    AtlasLob.projectNewTopOfBook checks book order.side (planOf ladder order)
        (Aggresses.projected ladder order) =
      .ok (if ladder.overflows order none then .error .aggregateOverflow
        else .ok (ladder.after order none sequence).top) := by
  have validSide : order.side.isValid = true := by
    simpa [Side.isValid] using aggresses.wellFormed.side
  have trades := represents.projectTrades aggresses
  rw [AtlasLob.projectNewTopOfBook]
  simp only [validSide, represents.checkedInvariants checks (by simp), Run.ok_bind,
    aggresses.validShape, aggresses.validRestingResidual, Bool.not_true, Bool.false_eq_true,
    ↓reduceIte, trades, Run.pure_eq]
  rw [represents.snapshotTopOfBook, Aggresses.projected]
  by_cases rests : ladder.disposition order = .rest
  · have own := represents.projectRest aggresses rests
    rw [if_pos rests]
    simp only [bind, Except.bind, pure, Except.pure, TopOfBookSnapshot.side_setSide_opposite,
      Ladder.top_side, own]
    cases fits : ladder.overflows order none with
    | true => rfl
    | false =>
      simp only [Bool.false_eq_true, ↓reduceIte, setSides,
        (aggresses.after_valid fits).top_isCrossed]
  · have fits : ladder.overflows order none = false := by simp [Ladder.overflows, rests]
    have top : ladder.top.setSide order.side.opposite (Ladder.best
        ((ladder.struck order none).side order.side.opposite)) =
          (ladder.after order none sequence).top :=
      top_of_sides (by
        rw [TopOfBookSnapshot.side_setSide_opposite, Ladder.top_side, aggresses.after_own rests]
        rfl) (by simp)
    rw [if_neg rests, fits]
    simp only [bind, Except.bind, pure, Except.pure, top,
      (aggresses.after_valid fits).top_isCrossed, Bool.false_eq_true, ↓reduceIte]

/-- A resting order is its own target. -/
theorem matchesCancelTarget (represents : Represents instrument book ladder pending)
    (member : old ∈ ladder.orders) :
    AtlasLob.matchesCancelTarget book (makeCancelProjectionTarget old) = true := by
  have valid := represents.valid
  obtain ⟨before, behind, split, present⟩ := valid.queueAt_split member
  have queue := (valid.queueAt (valid.sided member) present).1
  have inside : old ∈ (ladder.side old.side).queueAt old.price := by rw [split]; simp
  have positive : ¬ old.price ≤ 0 := by
    have := queue.positive
    grind
  have found : book.find old.orderId = some old := by
    rw [represents.find]
    exact valid.find_eq_some_iff.mpr ⟨member, rfl⟩
  simp [AtlasLob.matchesCancelTarget, makeCancelProjectionTarget, found, positive,
    valid.named_order member, queue.unfilled old inside, queue.issued old inside]

/-- The order of an exchange fits the order it replaces. -/
theorem validReplaceOrder (represents : Represents instrument book ladder pending)
    (aggresses : Aggresses instrument ladder order (some old) sequence) :
    AtlasLob.validReplaceOrder book (makeCancelProjectionTarget old) order = true := by
  obtain ⟨member, client, sided, limit, gtc⟩ := aggresses.replaces old rfl
  have accepted : order.validate = .none := NewOrder.validate_eq_none_iff.mpr aggresses.wellFormed
  have routed : order.instrumentId = book.instrumentId :=
    aggresses.routed.trans represents.routed.symm
  have found : book.find old.orderId = some old := by
    rw [represents.find]
    exact represents.valid.find_eq_some_iff.mpr ⟨member, rfl⟩
  have priced : order.limitPrice.isSome = true := by
    rcases aggresses.wellFormed.terms with ⟨price, -, given, -⟩ | ⟨market, -⟩
    · rw [given]
      rfl
    · rw [limit] at market
      exact absurd market (by decide)
  have apart : order.orderId ≠ old.orderId := by
    intro same
    exact aggresses.fresh (List.mem_map.mpr ⟨old, member, same.symm⟩)
  simp [AtlasLob.validReplaceOrder, makeCancelProjectionTarget, found, accepted, routed, limit, gtc,
    priced, client, sided, apart, represents.find_fresh aggresses.fresh]

/-- The projection of an exchange. -/
theorem projectReplaceTopOfBook (represents : Represents instrument book ladder none)
    (aggresses : Aggresses instrument ladder order (some old) sequence) :
    AtlasLob.projectReplaceTopOfBook checks book (makeCancelProjectionTarget old) order
        (planOf ladder order) (Aggresses.projected ladder order) =
      .ok (if ladder.overflows order (some old) then .error .aggregateOverflow
        else .ok (ladder.after order (some old) sequence).top) := by
  obtain ⟨member, client, sided, limit, gtc⟩ := aggresses.replaces old rfl
  have validSide : order.side.isValid = true := by
    simpa [Side.isValid] using aggresses.wellFormed.side
  have targetSide : (makeCancelProjectionTarget old).side.isValid = true := by
    rw [show (makeCancelProjectionTarget old).side = old.side from rfl, sided, validSide]
  have priced : ((Aggresses.projected ladder order).any fun rested =>
      decide (some rested.price ≠ order.limitPrice)) = false := by
    rw [Aggresses.projected]
    split_ifs with rests
    · obtain ⟨-, price, -, given, -⟩ := aggresses.rest_terms rests
      simp [given]
    · rfl
  have trades := represents.projectTrades aggresses
  have own := represents.projectReplace aggresses
  rw [AtlasLob.projectReplaceTopOfBook]
  simp only [validSide, targetSide, represents.checkedInvariants checks (by simp), Run.ok_bind,
    represents.matchesCancelTarget member, represents.validReplaceOrder aggresses,
    aggresses.validForOrder, aggresses.validRestingResidual, priced, Bool.not_true, Bool.or_self,
    Bool.false_eq_true, ↓reduceIte, trades, own, Run.pure_eq]
  cases fits : ladder.overflows order (some old) with
  | true => rfl
  | false =>
    simp only [bind, Except.bind, pure, Except.pure, Bool.false_eq_true, ↓reduceIte, setSides,
      (aggresses.after_valid fits).top_isCrossed]

/-- The projection of an aggressor. -/
theorem projectTop (represents : Represents instrument book ladder none)
    (aggresses : Aggresses instrument ladder order replaced sequence) :
    CommandExecutor.projectTop checks book order replaced (planOf ladder order)
        (Aggresses.projected ladder order) =
      .ok (if ladder.overflows order replaced then .error .aggregateOverflow
        else .ok (ladder.after order replaced sequence).top) := by
  cases replaced with
  | none => exact represents.projectNewTopOfBook checks aggresses
  | some old => exact represents.projectReplaceTopOfBook checks aggresses

/-- The first level left of a side that loses an order: the old first one, unless the order was
all of it. -/
theorem first_left {first : PriceTicks × List OrderNodeSpec} {rest : Levels}
    (sum : PriceTicks → Quantity) (distinct : (SortedMap.keys (first :: rest)).Nodup)
    (nonzero : ∀ level ∈ first :: rest, aggregate level.2 ≠ 0)
    {price : PriceTicks} {after : Quantity}
    (sums : ∀ level ∈ first :: rest, sum level.1 =
      if level.1 = price then after else aggregate level.2) :
    ((first :: rest).find? fun level => decide (sum level.1 ≠ 0)).map
        (fun level => (⟨level.1, sum level.1⟩ : TopOfBookLevel)) =
      if first.1 ≠ price then some ⟨first.1, aggregate first.2⟩
      else if after ≠ 0 then some ⟨first.1, after⟩
      else rest.head?.map fun level => ⟨level.1, aggregate level.2⟩ := by
  have here := sums first (by simp)
  by_cases apart : first.1 = price
  · rw [if_pos apart] at here
    rw [if_neg (not_not.mpr apart)]
    by_cases gone : after = 0
    · rw [if_neg (not_not.mpr gone), List.find?_cons_of_neg (by simp [here, gone])]
      cases rest with
      | nil => rfl
      | cons second later =>
        have other : second.1 ≠ price := by
          rw [SortedMap.keys_cons, SortedMap.keys_cons, List.nodup_cons] at distinct
          rintro same
          exact distinct.1 (by rw [apart, same]; simp)
        have next := sums second (by simp)
        rw [if_neg other] at next
        rw [List.find?_cons_of_pos (by simpa [next] using nonzero second (by simp))]
        simp [next]
    · rw [if_pos gone, List.find?_cons_of_pos (by simpa [here] using gone)]
      simp [here]
  · rw [if_neg apart] at here
    rw [if_pos apart, List.find?_cons_of_pos (by simpa [here] using nonzero first (by simp))]
    simp [here]

/-- The side of an order once it has left. -/
theorem projectSideAfterCancel (represents : Represents instrument book ladder pending)
    (member : old ∈ ladder.orders) :
    AtlasLob.projectSideAfterCancel book old.side (makeCancelProjectionTarget old)
        (Ladder.best (ladder.side old.side)) =
      .ok (Ladder.best ((ladder.side old.side).revise
        (reduceBy old.orderId old.remainingQuantity))) := by
  have valid := represents.valid
  have known := valid.sided member
  obtain ⟨-, -, -, present⟩ := valid.queueAt_split member
  have changed := Ladder.best_eq_find? (valid.side known).sorted
    ((valid.side known).revise (reduceBy_shrinks old.orderId old.remainingQuantity)).sorted
    (show ∀ price, price ∈ SortedMap.keys ((ladder.side old.side).revise
        (reduceBy old.orderId old.remainingQuantity)) ↔
      price ∈ SortedMap.keys (ladder.side old.side) ∧ decide (aggregate (((ladder.side
        old.side).revise (reduceBy old.orderId old.remainingQuantity)).queueAt price) ≠ 0) = true by
      simpa using valid.mem_keys_without member)
  have nonzero : ∀ price queue, (price, queue) ∈ ladder.side old.side → aggregate queue ≠ 0 :=
    fun price queue level => ((valid.side known).queue price queue level).aggregate_ne_zero
      ((valid.side known).nonempty price queue level)
  have keys := valid.keys_nodup known
  unfold AtlasLob.projectSideAfterCancel
  rw [show (makeCancelProjectionTarget old).price = old.price from rfl,
    show (makeCancelProjectionTarget old).remainingQuantity = old.remainingQuantity from rfl,
    represents.findLevel_of_mem old.side present, represents.side_eq]
  simp only [describe_aggregateQuantity]
  rw [oldAfter valid member, changed]
  cases split : ladder.side old.side with
  | nil => simp [split] at present
  | cons first rest =>
    have sums := fun level inside => valid.aggregate_without member
      (show (Prod.fst level, Prod.snd level) ∈ ladder.side old.side by rw [split]; exact inside)
    rw [split] at nonzero keys sums
    have left := first_left (fun price => aggregate ((Levels.revise
      (reduceBy old.orderId old.remainingQuantity) (first :: rest)).queueAt price)) keys
      (fun level inside => nonzero level.1 level.2 inside) sums
    beta_reduce at left
    rw [left]
    simp only [Ladder.best, List.head?_cons, Option.map_some, describeSide, SortedMap.mapValues,
      List.map_cons, describe_price, List.head?_map, Option.map_map, ne_eq]
    by_cases apart : first.1 = old.price
    · rw [if_neg (not_not.mpr apart), if_neg (not_not.mpr apart), if_neg (not_not.mpr apart)]
      split_ifs
      · rfl
      · cases rest.head? <;> rfl
    · rw [if_pos apart, if_pos apart]

/-- A withdrawal takes the order away and touches nothing else. -/
theorem without_eq (ladder : Ladder) (old : OrderNodeSpec) :
    ladder.without old = ladder.revise (reduceBy old.orderId old.remainingQuantity) := by
  have alone : settle [removalOf old] = reduceBy old.orderId old.remainingQuantity := by
    funext order
    rw [settle, removalOf]
    cases reduceBy old.orderId old.remainingQuantity order <;> rfl
  rw [Ladder.without, alone]

/-- The projection of a withdrawal. -/
theorem projectCancelTopOfBook (represents : Represents instrument book ladder none)
    (member : old ∈ ladder.orders) :
    AtlasLob.projectCancelTopOfBook checks book (makeCancelProjectionTarget old) =
      .ok (.ok (ladder.without old).top) := by
  have valid := represents.valid
  have known := valid.sided member
  have validSide : (makeCancelProjectionTarget old).side.isValid = true := by
    rw [show (makeCancelProjectionTarget old).side = old.side from rfl]
    simpa [Side.isValid] using known
  have own := represents.projectSideAfterCancel member
  have other : (ladder.without old).side old.side.opposite = ladder.side old.side.opposite := by
    rw [without_eq, Ladder.side_revise]
    refine Levels.revise_of_fixed (valid.side (Side.opposite_known known)).nonempty
      fun order inside => reduceBy_of_ne fun same => ?_
    have elsewhere := (valid.side (Side.opposite_known known)).sided order inside
    rw [valid.eq_of_orderId ((ladder.orders_perm old.side).mem_iff.mpr
      (List.mem_append_right _ inside)) member same] at elsewhere
    exact Side.opposite_ne known elsewhere.symm
  have top : ladder.top.setSide old.side (Ladder.best ((ladder.side old.side).revise
      (reduceBy old.orderId old.remainingQuantity))) = (ladder.without old).top := by
    refine TopOfBookSnapshot.eq_of_sides old.side ?_ ?_
    · rw [TopOfBookSnapshot.side_setSide, Ladder.top_side, without_eq, Ladder.side_revise]
    · rw [TopOfBookSnapshot.side_opposite_setSide, Ladder.top_side, Ladder.top_side, other]
  rw [AtlasLob.projectCancelTopOfBook]
  simp only [validSide, represents.checkedInvariants checks (by simp), Run.ok_bind,
    represents.matchesCancelTarget member, Bool.not_true, Bool.false_eq_true, ↓reduceIte,
    represents.snapshotTopOfBook, Run.pure_eq, Ladder.top_side]
  rw [show (makeCancelProjectionTarget old).side = old.side from rfl, own, ← top]
  rfl

end Represents

end AtlasLob
