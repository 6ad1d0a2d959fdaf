import AtlasLob.Verif.Shrinking

/-!
# The passes of the reducers

Each pass descends in an order of its own: deletions in the length, the price and quantity passes
in a complexity, the others in a weight of each command. What a pass proposes is representable;
for a price beyond the width this rests on the comparison of complexities, and for an identifier
on the number of different ones.
-/

namespace AtlasLob.Oracle

open Interruptible

/-- A measure gives an order in which searches descend. -/
theorem descending_measure {Measure : Type} [Preorder Measure] (measure : List Command → Measure) :
    Descending fun left right => measure left < measure right :=
  ⟨fun _ => lt_irrefl _, fun _ _ _ => lt_trans⟩

/-- The order in which a search compares with its start only. -/
theorem descending_origin (origin : List Command) :
    Descending fun left right => right = origin ∧ left ≠ origin :=
  ⟨fun _ both => both.2 both.1, fun _ _ _ left right => absurd left.1 right.2⟩

/-- The order of complexities. -/
theorem descending_complexity (complexity : List Command → Complexity) :
    Descending fun left right => (complexity left).less (complexity right) := by
  constructor
  · rintro current (less | ⟨_, less⟩)
    · exact lt_irrefl _ less
    · exact lt_irrefl _ less
  · rintro first second third (left | ⟨sameLeft, left⟩) (right | ⟨sameRight, right⟩)
    · exact Or.inl (lt_trans left right)
    · exact Or.inl (sameRight ▸ left)
    · exact Or.inl (sameLeft ▸ right)
    · exact Or.inr ⟨sameLeft.trans sameRight, lt_trans left right⟩

section Deletion

variable {Key Signature : Type} [DecidableEq Key] [DecidableEq Signature]
  {checked : CandidateEvaluator Key Signature} {original origin : List Command}
  {log : List (List Command)}

/-- Part of a proper sequence is proper when it is not empty. -/
theorem Proposable.part {whole part : List Command} (proposable : Proposable whole)
    (filled : part ≠ []) (inside : ∀ command ∈ part, command ∈ whole) : Proposable part :=
  ⟨filled, fun command member => proposable.2 command (inside command member)⟩

/-- A sequence without a chunk is shorter. -/
theorem mem_chunkCandidates {current candidate : List Command} {chunkSize : Nat}
    (positive : 0 < chunkSize) (inside : candidate ∈ chunkCandidates current chunkSize) :
    candidate ≠ [] ∧ candidate.length < current.length ∧
      ∀ command ∈ candidate, command ∈ current := by
  unfold chunkCandidates at inside
  obtain ⟨member, filled⟩ := List.mem_filter.mp inside
  obtain ⟨chunk, range, rfl⟩ := List.mem_map.mp member
  have count := List.mem_range.mp range
  have start : chunk * chunkSize < current.length := by
    have below : chunk * chunkSize + chunkSize ≤ current.length + chunkSize - 1 := by
      calc chunk * chunkSize + chunkSize = (chunk + 1) * chunkSize := by ring
        _ ≤ (current.length + chunkSize - 1) / chunkSize * chunkSize :=
          Nat.mul_le_mul_right _ count
        _ ≤ current.length + chunkSize - 1 := Nat.div_mul_le_self _ _
    omega
  refine ⟨by simpa using filled, ?_, ?_⟩
  · rw [List.length_append, List.length_take, List.length_drop]
    omega
  · intro command present
    cases List.mem_append.mp present with
    | inl before => exact List.mem_of_mem_take before
    | inr after => exact List.mem_of_mem_drop after

/-- The rounds `_delete_chunks` has left: deleting a chunk shortens the sequence, and otherwise
the granularity comes closer to its length. -/
def chunkRounds (current : List Command) (granularity : Nat) : Nat :=
  current.length * (current.length + 1) + (current.length - granularity)

/-- A shorter sequence leaves fewer rounds at any granularity. -/
theorem chunkRounds_shorter {candidate current : List Command} (granularity next : Nat)
    (shorter : candidate.length < current.length) :
    chunkRounds candidate next < chunkRounds current granularity := by
  unfold chunkRounds
  have products : (candidate.length + 1) * (candidate.length + 1) ≤
      current.length * (current.length + 1) :=
    Nat.mul_le_mul shorter (Nat.succ_le_succ (Nat.le_of_lt shorter))
  have split : (candidate.length + 1) * (candidate.length + 1) =
      candidate.length * (candidate.length + 1) + (candidate.length + 1) := by ring
  omega

/-- The loop of `_delete_chunks` descends in the length and ends. -/
theorem deleteChunksLoop_holds (rounds granularity : Nat) (current : List Command)
    (coarse : 2 ≤ granularity) (enough : chunkRounds current granularity < rounds) :
    Holds (Reached checked original (fun left right => left.length < right.length) origin log
        current)
      (deleteChunksLoop (preserves checked) rounds granularity current)
      (Reached checked original (fun left right => left.length < right.length) origin log)
      (CutSearch checked (fun left right => left.length < right.length) origin log) := by
  induction rounds generalizing granularity current with
  | zero => exact absurd enough (Nat.not_lt_zero _)
  | succ rounds ih =>
    unfold deleteChunksLoop
    refine Holds.ite (fun _ => Holds.pure fun _ pre => pre) fun several => ?_
    have positive : 0 < (current.length + granularity - 1) / granularity :=
      Nat.div_pos (by omega) (by omega)
    intro state reached
    have candidates : ∀ candidate ∈ chunkCandidates current
        ((current.length + granularity - 1) / granularity), Proposable candidate ∧
          candidate.length ≤ current.length ∧ candidate.length < current.length := by
      intro candidate inside
      obtain ⟨filled, shorter, members⟩ := mem_chunkCandidates positive inside
      exact ⟨reached.admissible.proposable.part filled members, Nat.le_of_lt shorter, shorter⟩
    refine Holds.bind (Reached.first (descending_measure List.length) _ candidates)
      (fun found => ?_) state reached
    cases found with
    | some candidate =>
      by_cases inside : candidate ∈ chunkCandidates current
          ((current.length + granularity - 1) / granularity)
      · have shorter := (candidates candidate inside).2.2
        have fewer := chunkRounds_shorter granularity (max 2 (granularity - 1)) shorter
        exact (ih (max 2 (granularity - 1)) candidate (Nat.le_max_left _ _)
          (by omega)).from_stronger fun _ post => post.1
      · exact fun next post => absurd (post.2 candidate rfl) inside
    | none =>
      refine Holds.ite (fun _ => Holds.pure fun _ post => post.1) fun finer => ?_
      have closer : chunkRounds current (min current.length (granularity * 2)) <
          chunkRounds current granularity := by
        unfold chunkRounds
        omega
      exact (ih (min current.length (granularity * 2)) current (by omega)
        (by omega)).from_stronger fun _ post => post.1

/-- `_delete_chunks` keeps the failure. -/
theorem deleteChunks_keeps : PassKeeps checked original (deleteChunks (preserves checked)) := by
  intro origin log admissible
  refine ⟨fun left right => left.length < right.length, ?_, ?_⟩
  · rintro current shorter rfl
    exact lt_irrefl _ shorter
  · unfold deleteChunks
    refine (deleteChunksLoop_holds _ 2 origin (Nat.le_refl 2) ?_).from_stronger
      fun _ ready => Reached.start admissible ready
    have square : (origin.length + 1) * (origin.length + 1) =
        origin.length * (origin.length + 1) + (origin.length + 1) := by ring
    unfold chunkRounds
    omega

/-- The loop of `_delete_individual` descends in the length. -/
theorem deleteIndividualLoop_holds (kept rest : List Command) :
    Holds (Reached checked original (fun left right => left.length < right.length) origin log
        (kept ++ rest))
      (deleteIndividualLoop (preserves checked) kept rest)
      (Reached checked original (fun left right => left.length < right.length) origin log)
      (CutSearch checked (fun left right => left.length < right.length) origin log) := by
  induction rest generalizing kept with
  | nil =>
    rw [List.append_nil]
    exact Holds.pure fun _ pre => pre
  | cons command rest ih =>
    have keeping := ih (kept ++ [command])
    rw [List.append_assoc, List.singleton_append] at keeping
    unfold deleteIndividualLoop
    refine Holds.ite (fun _ => keeping) fun filled => ?_
    intro state reached
    have proposable : Proposable (kept ++ rest) := by
      refine reached.admissible.proposable.part filled fun other inside => ?_
      cases List.mem_append.mp inside with
      | inl before => exact List.mem_append_left _ before
      | inr after => exact List.mem_append_right _ (List.mem_cons_of_mem _ after)
    have shorter : (kept ++ rest).length < (kept ++ command :: rest).length := by simp
    refine Holds.bind (Reached.test (descending_measure List.length) proposable
      (Nat.le_of_lt shorter) shorter) (fun answer => ?_) state reached
    cases answer with
    | true => exact ih kept
    | false => exact keeping

/-- `_delete_individual` keeps the failure. -/
theorem deleteIndividual_keeps :
    PassKeeps checked original (deleteIndividual (preserves checked)) := by
  intro origin log admissible
  refine ⟨fun left right => left.length < right.length, ?_, ?_⟩
  · rintro current shorter rfl
    exact lt_irrefl _ shorter
  · exact (deleteIndividualLoop_holds [] origin).from_stronger
      fun _ ready => Reached.start admissible ready

end Deletion

section Identifiers

/-- A dictionary of new names: different nonzero identifiers of a width, named from one on. -/
structure Naming (maximum : Int) (table : List (Int × Int)) : Prop where
  distinct : (table.map Prod.fst).Nodup
  bounded : ∀ entry ∈ table, 1 ≤ entry.1 ∧ entry.1 ≤ maximum
  named : ∀ entry ∈ table, 1 ≤ entry.2 ∧ entry.2 ≤ table.length

/-- There are at most as many names as identifiers of the width. -/
theorem Naming.length_le {maximum : Int} {table : List (Int × Int)}
    (naming : Naming maximum table) (positive : 0 ≤ maximum) : (table.length : Int) ≤ maximum := by
  have inside : (table.map Prod.fst).toFinset ⊆ Finset.Icc 1 maximum := by
    intro value member
    obtain ⟨entry, present, rfl⟩ := List.mem_map.mp (List.mem_toFinset.mp member)
    exact Finset.mem_Icc.mpr (naming.bounded entry present)
  have count := Finset.card_le_card inside
  rw [List.toFinset_card_of_nodup naming.distinct, List.length_map, Int.card_Icc] at count
  omega

/-- The empty dictionary. -/
theorem Naming.empty (maximum : Int) : Naming maximum [] :=
  ⟨List.nodup_nil, nofun, nofun⟩

/-- A lookup that finds nothing finds no key. -/
theorem lookup_eq_none {table : List (Int × Int)} {value : Int}
    (missing : table.lookup value = none) : value ∉ table.map Prod.fst := by
  intro inside
  obtain ⟨entry, present, rfl⟩ := List.mem_map.mp inside
  rw [List.lookup_eq_none_iff] at missing
  exact absurd (missing entry present) (by simp)

/-- A lookup finds an entry. -/
theorem lookup_mem {table : List (Int × Int)} {value name : Int}
    (found : table.lookup value = some name) : (value, name) ∈ table := by
  induction table with
  | nil => exact absurd found (by simp)
  | cons entry rest ih =>
    rw [List.lookup_cons] at found
    by_cases same : value = entry.1
    · rw [beq_iff_eq.mpr same] at found
      rw [same, ← Option.some.inj found]
      exact List.mem_cons_self
    · rw [beq_eq_false_iff_ne.mpr same] at found
      exact List.mem_cons_of_mem _ (ih found)

/-- A new name has the width of the old one. -/
theorem rename_fits {maximum value : Int} {table : List (Int × Int)}
    (naming : Naming maximum table) (fits : Fits maximum value) :
    Naming maximum (rename table value).2 ∧ Fits maximum (rename table value).1 := by
  have positive : 0 ≤ maximum := le_trans fits.1 fits.2
  unfold rename
  by_cases zero : value = 0
  · rw [if_pos zero]
    exact ⟨naming, le_refl 0, positive⟩
  · rw [if_neg zero]
    cases found : table.lookup value with
    | some name =>
      have known := naming.named _ (lookup_mem found)
      have count := naming.length_le positive
      have fitting : Fits maximum name := ⟨by omega, by omega⟩
      exact ⟨naming, fitting⟩
    | none =>
      have extended : Naming maximum (table ++ [(value, (table.length + 1 : Int))]) := by
        constructor
        · rw [List.map_append, List.nodup_append]
          refine ⟨naming.distinct, List.nodup_singleton _, ?_⟩
          intro known inside other single
          rw [List.map_singleton, List.mem_singleton] at single
          rintro rfl
          rw [single] at inside
          exact lookup_eq_none found inside
        · intro entry inside
          cases List.mem_append.mp inside with
          | inl known => exact naming.bounded entry known
          | inr single =>
            rw [List.mem_singleton.mp single]
            have lower := fits.1
            exact ⟨by show 1 ≤ value; omega, fits.2⟩
        · intro entry inside
          rw [List.length_append, List.length_singleton]
          cases List.mem_append.mp inside with
          | inl known =>
            have bounds := naming.named entry known
            exact ⟨bounds.1, by push_cast; omega⟩
          | inr single =>
            rw [List.mem_singleton.mp single]
            exact ⟨by show (1 : Int) ≤ table.length + 1; omega, by push_cast; exact le_refl _⟩
      have count := extended.length_le positive
      rw [List.length_append, List.length_singleton] at count
      push_cast at count
      exact ⟨extended, by show (0 : Int) ≤ table.length + 1; omega, count⟩

/-- The dictionaries of a renaming. -/
def IdentifierTables.Valid (tables : IdentifierTables) : Prop :=
  Naming u64Max tables.orderIds ∧ Naming u32Max tables.clientIds

/-- A renamed command is representable. -/
theorem remapCommand_representable {instrumentId : Int → Int}
    (routed : ∀ value, Fits u32Max value → Fits u32Max (instrumentId value))
    {tables : IdentifierTables} (valid : tables.Valid) {command : Command}
    (representable : command.Representable) :
    (remapCommand instrumentId tables command).2.Valid ∧
      (remapCommand instrumentId tables command).1.Representable := by
  cases command with
  | newOrder order =>
    obtain ⟨client, name, instrument, shape⟩ := representable
    have clients := rename_fits valid.2 client
    have orders := rename_fits valid.1 name
    exact ⟨⟨orders.1, clients.1⟩, clients.2, orders.2, routed _ instrument, shape⟩
  | cancel order =>
    obtain ⟨client, name, instrument⟩ := representable
    have clients := rename_fits valid.2 client
    have orders := rename_fits valid.1 name
    exact ⟨⟨orders.1, clients.1⟩, clients.2, orders.2, routed _ instrument⟩
  | replace order =>
    obtain ⟨client, old, new, instrument, shape⟩ := representable
    have clients := rename_fits valid.2 client
    have olds := rename_fits valid.1 old
    have news := rename_fits olds.1 new
    exact ⟨⟨news.1, clients.1⟩, clients.2, olds.2, news.2, routed _ instrument, shape⟩

/-- Renamed commands are representable, and as many as before. -/
theorem remapLoop_proposable {instrumentId : Int → Int}
    (routed : ∀ value, Fits u32Max value → Fits u32Max (instrumentId value))
    {tables : IdentifierTables} (valid : tables.Valid) {commands : List Command}
    (representable : ∀ command ∈ commands, command.Representable) :
    (remapLoop instrumentId tables commands).length = commands.length ∧
      ∀ command ∈ remapLoop instrumentId tables commands, command.Representable := by
  induction commands generalizing tables with
  | nil => exact ⟨rfl, nofun⟩
  | cons command rest ih =>
    have first := remapCommand_representable routed valid (representable command List.mem_cons_self)
    have later := ih first.1 fun other inside =>
      representable other (List.mem_cons_of_mem _ inside)
    unfold remapLoop
    refine ⟨congrArg (· + 1) later.1, fun other inside => ?_⟩
    cases List.mem_cons.mp inside with
    | inl same => exact same ▸ first.2
    | inr member => exact later.2 other member

end Identifiers

section Positions

variable {Key Signature : Type} [DecidableEq Key] [DecidableEq Signature]
  {checked : CandidateEvaluator Key Signature} {original : List Command}

/-- The stage of the identifiers keeps the failure when its renaming keeps the sequence proper. -/
theorem remapStage_keeps {remap : List Command → List Command}
    (proper : ∀ commands : List Command, (∀ command ∈ commands, command.Representable) →
      (remap commands).length = commands.length ∧
        ∀ command ∈ remap commands, command.Representable) :
    PassKeeps checked original (remapStage (preserves checked) remap) := by
  intro origin log admissible
  refine ⟨fun left right => right = origin ∧ left ≠ origin, fun _ moved => moved.2, ?_⟩
  obtain ⟨length, representable⟩ := proper origin admissible.proposable.2
  have filled : remap origin ≠ [] := by
    intro empty
    rw [empty] at length
    exact admissible.proposable.1 (List.eq_nil_of_length_eq_zero length.symm)
  have started : ∀ state, Ready checked log state → Reached checked original
      (fun left right => right = origin ∧ left ≠ origin) origin log origin state :=
    fun _ ready => Reached.start admissible ready
  unfold remapStage
  refine Holds.ite (fun _ => Holds.pure started) fun moved => ?_
  have tested := (Reached.test (descending_origin origin) ⟨filled, representable⟩
    (le_of_eq length) ⟨rfl, moved⟩ : Holds (Reached checked original _ origin log origin) _ _ _)
  refine (tested.from_stronger started).bind fun answer => ?_
  cases answer with
  | true => exact Holds.pure fun _ post => post
  | false => exact Holds.pure fun _ post => post

/-- A pass that rewrites each position with what lies below keeps the search going. -/
theorem simplifyEach_holds {below : List Command → List Command → Prop}
    (descending : Descending below) {origin : List Command} {log : List (List Command)}
    {alternatives : List Command → Command → List Command → List Command}
    (each : ∀ kept command rest, ∀ candidate ∈ alternatives kept command rest,
      Proposable (kept ++ command :: rest) →
        candidate.Representable ∧ below (kept ++ candidate :: rest) (kept ++ command :: rest))
    (current : List Command) :
    Holds (Reached checked original below origin log current)
      (simplifyEach (preserves checked) alternatives current)
      (Reached checked original below origin log) (CutSearch checked below origin log) :=
  Holds.eachPosition [] current fun kept command rest =>
    Reached.position descending _ (each kept command rest)

/-- The total weight of a sequence. -/
def totalWeight (weight : Command → Nat) (commands : List Command) : Nat :=
  (commands.map weight).sum

/-- The order of the total weights. -/
def Lighter (weight : Command → Nat) (left right : List Command) : Prop :=
  totalWeight weight left < totalWeight weight right

/-- A lighter command makes a lighter sequence. -/
theorem lighter_splice {weight : Command → Nat} {kept rest : List Command}
    {lighter heavier : Command} (lower : weight lighter < weight heavier) :
    Lighter weight (kept ++ lighter :: rest) (kept ++ heavier :: rest) := by
  unfold Lighter totalWeight
  rw [List.map_append, List.map_append, List.sum_append, List.sum_append, List.map_cons,
    List.map_cons, List.sum_cons, List.sum_cons]
  omega

/-- A pass that makes each command lighter, or leaves it, keeps the failure. -/
theorem simplifyEach_keeps (weight : Command → Nat) {alternatives : Command → List Command}
    (each : ∀ command candidate, candidate ∈ alternatives command → command.Representable →
      candidate.Representable ∧ weight candidate < weight command) :
    PassKeeps checked original
      (simplifyEach (preserves checked) fun _ command _ => alternatives command) := by
  intro origin log admissible
  refine ⟨Lighter weight, ?_, ?_⟩
  · rintro current lighter rfl
    exact lt_irrefl _ lighter
  · refine (simplifyEach_holds (descending_measure (totalWeight weight)) ?_ origin).from_stronger
      fun _ ready => Reached.start admissible ready
    intro kept command rest candidate inside proposable
    have representable := proposable.2 command
      (List.mem_append_right kept List.mem_cons_self)
    obtain ⟨proper, lighter⟩ := each command candidate inside representable
    exact ⟨proper, lighter_splice lighter⟩

end Positions

section Values

/-- The values of a list, each once. -/
theorem mem_unique {value : Int} {values : List Int} : value ∈ unique values ↔ value ∈ values := by
  induction values with
  | nil => exact Iff.rfl
  | cons first rest ih =>
    unfold unique
    rw [List.mem_cons, List.mem_cons, List.mem_filter, ih, decide_eq_true_iff]
    by_cases same : value = first
    · simp [same]
    · simp [same]

/-- The values of a set, in order. -/
theorem mem_sortedSet {value : Int} {values : List Int} :
    value ∈ sortedSet values ↔ value ∈ values := by
  unfold sortedSet
  rw [List.mem_insertionSort, mem_unique]

/-- Every price that is tried is positive. -/
theorem mem_priceCandidates {context : ShrinkContext} {commands : List Command} {price : Int}
    (inside : price ∈ priceCandidates context commands) : 0 < price := by
  have tick := context.tick_valid
  have aligned : 0 < i64Max - i64Max % context.tickIncrement := by
    have remainder := Int.emod_lt_of_pos i64Max (b := context.tickIncrement) (by omega)
    omega
  unfold priceCandidates at inside
  rw [mem_unique] at inside
  simp only [List.mem_cons, List.not_mem_nil, or_false] at inside
  rcases inside with rfl | rfl | rfl | central
  · omega
  · exact lt_min aligned (by omega)
  · exact lt_min aligned (by omega)
  · rw [central]
    cases found : (sortedSet ((commands.flatMap Command.prices).filter fun price =>
        price > 0 ∧ price % context.tickIncrement = 0))[(sortedSet
          ((commands.flatMap Command.prices).filter fun price =>
            price > 0 ∧ price % context.tickIncrement = 0)).length / 2]? with
    | none =>
      rw [Option.getD_none]
      omega
    | some observed =>
      have member := mem_sortedSet.mp (List.mem_of_getElem? found)
      have positive := of_decide_eq_true (List.mem_filter.mp member).2
      exact positive.1

/-- Every quantity that is tried is positive and in range. -/
theorem mem_quantityCandidates {context : ShrinkContext} {commands : List Command} {quantity : Int}
    (inside : quantity ∈ quantityCandidates context commands) : Fits u64Max quantity := by
  have range := context.quantity_valid
  have observed : ∀ value ∈ sortedSet ((commands.flatMap Command.quantities).filter fun quantity =>
      1 ≤ quantity ∧ quantity ≤ context.maxQuantity), 1 ≤ value ∧ value ≤ context.maxQuantity :=
    fun value member => of_decide_eq_true (List.mem_filter.mp (mem_sortedSet.mp member)).2
  unfold quantityCandidates at inside
  rw [mem_unique, List.mem_append, List.mem_append, List.mem_append] at inside
  rcases inside with ((one | two) | seen) | lowered
  · rw [List.mem_singleton.mp one]
    exact ⟨by omega, by omega⟩
  · by_cases wide : context.maxQuantity ≥ 2
    · rw [if_pos wide] at two
      rw [List.mem_singleton.mp two]
      exact ⟨by omega, by omega⟩
    · rw [if_neg wide] at two
      exact absurd two List.not_mem_nil
  · have bounds := observed quantity seen
    exact ⟨by omega, by omega⟩
  · obtain ⟨value, member, rfl⟩ := List.mem_map.mp lowered
    have bounds := of_decide_eq_true (List.mem_filter.mp member).2
    exact ⟨by omega, by omega⟩

/-- Values that are nowhere smaller are not less complex. -/
theorem not_less_of_le {left right : List Int} (grown : List.Forall₂ (· ≤ ·) left right) :
    ¬Complexity.less (right.sum, right) (left.sum, left) := by
  have compared : left.sum ≤ right.sum ∧ (left.sum = right.sum → left = right) := by
    induction grown with
    | nil => exact ⟨le_refl _, fun _ => rfl⟩
    | @cons first second lefts rights head tail ih =>
      rw [List.sum_cons, List.sum_cons]
      refine ⟨by omega, fun same => ?_⟩
      rw [ih.2 (by omega), show first = second by omega]
  rintro (less | ⟨same, less⟩)
  · exact absurd compared.1 (not_le_of_gt less)
  · have equal : left = right := compared.2 same.symm
    exact lt_irrefl _ (equal ▸ less)

/-- A representable command keeps its widths under a price of the width. -/
theorem withPrice_representable {command : Command} {price : Int}
    (representable : command.Representable) (fits : FitsSigned price) :
    (command.withPrice price).Representable := by
  cases command with
  | newOrder order =>
    show Command.Representable (if order.limitPrice.isSome then
      .newOrder { order with limitPrice := some price } else .newOrder order)
    by_cases present : order.limitPrice.isSome
    · rw [if_pos present]
      obtain ⟨client, name, instrument, side, type, force, _, quantity⟩ := representable
      refine ⟨client, name, instrument, side, type, force, ?_, quantity⟩
      intro other same
      rw [← Option.mem_some.mp same]
      exact fits
    · rw [if_neg present]
      exact representable
  | cancel order => exact representable
  | replace order =>
    obtain ⟨client, old, new, instrument, _, quantity⟩ := representable
    exact ⟨client, old, new, instrument, fits, quantity⟩

/-- A representable command keeps its widths under a quantity of the width. -/
theorem withQuantity_representable {command : Command} {quantity : Int}
    (representable : command.Representable) (fits : Fits u64Max quantity) :
    (command.withQuantity quantity).Representable := by
  cases command with
  | newOrder order =>
    obtain ⟨client, name, instrument, side, type, force, price, _⟩ := representable
    exact ⟨client, name, instrument, side, type, force, price, fits⟩
  | cancel order => exact representable
  | replace order =>
    obtain ⟨client, old, new, instrument, price, _⟩ := representable
    exact ⟨client, old, new, instrument, price, fits⟩

/-- The sizes of the prices of one command. -/
def priceSizes (command : Command) : List Int := command.prices.map fun price => |price|

/-- The complexity of a sequence is made of the sizes of its prices. -/
theorem priceComplexity_eq (commands : List Command) :
    priceComplexity commands =
      ((commands.flatMap priceSizes).sum, commands.flatMap priceSizes) := by
  have sizes : (commands.flatMap Command.prices).map (fun price => |price|) =
      commands.flatMap priceSizes := List.map_flatMap
  unfold priceComplexity
  rw [sizes]

/-- A price beyond the width is at least as large as every price of the width. -/
theorem withPrice_sizes {command : Command} {price : Int} (representable : command.Representable)
    (beyond : i64Max < price) :
    List.Forall₂ (· ≤ ·) (priceSizes command) (priceSizes (command.withPrice price)) := by
  have larger : ∀ value, FitsSigned value → |value| ≤ |price| := by
    intro value fits
    have lower : i64Min = -9223372036854775808 := rfl
    have upper : i64Max = 9223372036854775807 := rfl
    have low := fits.1
    have high := fits.2
    rw [abs_of_pos (by omega : 0 < price), abs_le]
    exact ⟨by omega, by omega⟩
  cases command with
  | newOrder order =>
    obtain ⟨_, _, _, _, _, _, fits, _⟩ := representable
    cases limit : order.limitPrice with
    | none => simp [priceSizes, Command.withPrice, Command.prices, limit]
    | some value =>
      rw [limit] at fits
      simpa [priceSizes, Command.withPrice, Command.prices, limit]
        using larger value (fits value rfl)
  | cancel order => exact List.Forall₂.nil
  | replace order =>
    obtain ⟨_, _, _, _, fits, _⟩ := representable
    exact List.Forall₂.cons (larger _ fits) List.Forall₂.nil

/-- One price for all commands that lowers the complexity has the width. -/
theorem withPrice_map_fits {commands : List Command} {price : Int} (positive : 0 < price)
    (representable : ∀ command ∈ commands, command.Representable)
    (less : (priceComplexity (commands.map (Command.withPrice price))).less
      (priceComplexity commands)) : FitsSigned price := by
  by_contra outside
  have beyond : i64Max < price := by
    have lower : i64Min = -9223372036854775808 := rfl
    unfold FitsSigned at outside
    omega
  rw [priceComplexity_eq, priceComplexity_eq] at less
  refine not_less_of_le ?_ less
  clear less
  induction commands with
  | nil => exact List.Forall₂.nil
  | cons command rest ih =>
    rw [List.map_cons, List.flatMap_cons, List.flatMap_cons]
    exact List.rel_append (withPrice_sizes (representable command List.mem_cons_self) beyond)
      (ih fun other inside => representable other (List.mem_cons_of_mem _ inside))

/-- A price for one command that lowers the complexity has the width. -/
theorem withPrice_splice_fits {kept rest : List Command} {command : Command} {price : Int}
    (positive : 0 < price) (representable : command.Representable)
    (less : (priceComplexity (kept ++ command.withPrice price :: rest)).less
      (priceComplexity (kept ++ command :: rest))) : FitsSigned price := by
  by_contra outside
  have beyond : i64Max < price := by
    have lower : i64Min = -9223372036854775808 := rfl
    unfold FitsSigned at outside
    omega
  rw [priceComplexity_eq, priceComplexity_eq] at less
  refine not_less_of_le ?_ less
  rw [List.flatMap_append, List.flatMap_append, List.flatMap_cons, List.flatMap_cons]
  exact List.rel_append (List.forall₂_refl _)
    (List.rel_append (withPrice_sizes representable beyond) (List.forall₂_refl _))

end Values

section Descents

variable {Key Signature : Type} [DecidableEq Key] [DecidableEq Signature]
  {checked : CandidateEvaluator Key Signature} {original : List Command}

/-- A pass that lowers a complexity at each position keeps the failure. -/
theorem lowering_holds {complexity : List Command → Complexity} {origin : List Command}
    {log : List (List Command)} {alternatives : Command → List Command}
    (each : ∀ kept command rest, ∀ candidate ∈ alternatives command, command.Representable →
      (complexity (kept ++ candidate :: rest)).less (complexity (kept ++ command :: rest)) →
        candidate.Representable) (current : List Command) :
    Holds
      (Reached checked original (fun left right => (complexity left).less (complexity right)) origin
        log current)
      (simplifyEach (preserves checked) (fun kept command rest =>
        lowering complexity kept rest command (alternatives command)) current)
      (Reached checked original (fun left right => (complexity left).less (complexity right)) origin
        log)
      (CutSearch checked (fun left right => (complexity left).less (complexity right))
        origin log) := by
  refine simplifyEach_holds (descending_complexity complexity) ?_ current
  intro kept command rest candidate inside proposable
  obtain ⟨member, condition⟩ := List.mem_filter.mp inside
  have lower := (of_decide_eq_true condition).2
  have representable := proposable.2 command (List.mem_append_right kept List.mem_cons_self)
  exact ⟨each kept command rest candidate member representable lower, lower⟩

/-- `_simplify_prices` keeps the failure. -/
theorem simplifyPrices_keeps (context : ShrinkContext) :
    PassKeeps checked original (simplifyPrices (preserves checked) context) := by
  intro origin log admissible
  refine ⟨fun left right => (priceComplexity left).less (priceComplexity right), ?_, ?_⟩
  · rintro current less rfl
    exact (descending_complexity priceComplexity).irreflexive _ less
  · unfold simplifyPrices
    have candidates : ∀ candidate ∈ ((priceCandidates context origin).map fun price =>
        origin.map (Command.withPrice price)).filter fun candidate =>
          candidate ≠ origin ∧ (priceComplexity candidate).less (priceComplexity origin),
        Proposable candidate ∧ candidate.length ≤ origin.length ∧
          (priceComplexity candidate).less (priceComplexity origin) := by
      intro candidate inside
      obtain ⟨member, condition⟩ := List.mem_filter.mp inside
      obtain ⟨price, tried, rfl⟩ := List.mem_map.mp member
      have lower := (of_decide_eq_true condition).2
      have fits := withPrice_map_fits (mem_priceCandidates tried) admissible.proposable.2 lower
      refine ⟨⟨?_, ?_⟩, le_of_eq (List.length_map _), lower⟩
      · exact fun empty => admissible.proposable.1 (List.map_eq_nil_iff.mp empty)
      · intro command changed
        obtain ⟨before, present, rfl⟩ := List.mem_map.mp changed
        exact withPrice_representable (admissible.proposable.2 before present) fits
    have global := (Reached.first (descending_complexity priceComplexity) _ candidates :
      Holds (Reached checked original _ origin log origin) _ _ _)
    refine (global.from_stronger fun _ ready => Reached.start admissible ready).bind fun found => ?_
    refine (lowering_holds ?_ (found.getD origin)).from_stronger fun _ post => post.1
    intro kept command rest candidate inside representable lower
    obtain ⟨price, tried, rfl⟩ := List.mem_map.mp inside
    exact withPrice_representable representable
      (withPrice_splice_fits (mem_priceCandidates tried) representable lower)

/-- `_simplify_quantities` keeps the failure. -/
theorem simplifyQuantities_keeps (context : ShrinkContext) :
    PassKeeps checked original (simplifyQuantities (preserves checked) context) := by
  intro origin log admissible
  refine ⟨fun left right => (quantityComplexity left).less (quantityComplexity right), ?_, ?_⟩
  · rintro current less rfl
    exact (descending_complexity quantityComplexity).irreflexive _ less
  · unfold simplifyQuantities
    refine (lowering_holds ?_ origin).from_stronger fun _ ready => Reached.start admissible ready
    intro kept command rest candidate inside representable _
    obtain ⟨quantity, tried, rfl⟩ := List.mem_map.mp inside
    exact withQuantity_representable representable (mem_quantityCandidates tried)

end Descents

section Alternatives

/-- How far a command is from a plain one. -/
def commandWeight : Command → Nat
  | .newOrder order => if order.orderType = limit then 1 else 0
  | .cancel _ => 0
  | .replace _ => 1

/-- A simpler kind of command is representable. -/
theorem mem_commandAlternatives {command candidate : Command}
    (inside : candidate ∈ commandAlternatives command) (representable : command.Representable) :
    candidate.Representable ∧ commandWeight candidate < commandWeight command := by
  cases command with
  | newOrder order =>
    unfold commandAlternatives at inside
    by_cases limited : order.orderType = limit
    · simp only [if_pos limited] at inside
      rw [List.mem_singleton.mp inside]
      obtain ⟨client, name, instrument, side, _, _, _, quantity⟩ := representable
      have marketFits : Fits u8Max market := by decide
      have iocFits : Fits u8Max ioc := by decide
      have unlimited : market ≠ limit := by decide
      refine ⟨⟨client, name, instrument, side, marketFits, iocFits, nofun, quantity⟩, ?_⟩
      simp only [commandWeight, if_pos limited, if_neg unlimited]
      exact Nat.zero_lt_one
    · simp only [if_neg limited] at inside
      exact absurd inside List.not_mem_nil
  | cancel order => exact absurd inside List.not_mem_nil
  | replace order =>
    rw [List.mem_singleton.mp inside]
    obtain ⟨client, old, _, instrument, _, _⟩ := representable
    exact ⟨⟨client, old, instrument⟩, Nat.zero_lt_one⟩

/-- How many of a quantity may still shrink. -/
def quantityWeight : Command → Nat
  | .newOrder order => if order.quantity = 0 ∨ order.quantity = 1 then 0 else 1
  | .cancel _ => 0
  | .replace order => if order.newQuantity = 0 ∨ order.newQuantity = 1 then 0 else 1

/-- A unit quantity is representable. -/
theorem mem_unitQuantity {command candidate : Command}
    (inside : candidate ∈ unitQuantity command) (representable : command.Representable) :
    candidate.Representable ∧ quantityWeight candidate < quantityWeight command := by
  cases command with
  | newOrder order =>
    unfold unitQuantity at inside
    by_cases small : order.quantity = 0 ∨ order.quantity = 1
    · simp only [if_pos small] at inside
      exact absurd inside List.not_mem_nil
    · simp only [if_neg small] at inside
      rw [List.mem_singleton.mp inside]
      refine ⟨withQuantity_representable representable (by decide), ?_⟩
      simp only [quantityWeight, if_neg small, or_true, if_true]
      exact Nat.zero_lt_one
  | cancel order => exact absurd inside List.not_mem_nil
  | replace order =>
    unfold unitQuantity at inside
    by_cases small : order.newQuantity = 0 ∨ order.newQuantity = 1
    · simp only [if_pos small] at inside
      exact absurd inside List.not_mem_nil
    · simp only [if_neg small] at inside
      rw [List.mem_singleton.mp inside]
      refine ⟨withQuantity_representable representable (by decide), ?_⟩
      simp only [quantityWeight, if_neg small, or_true, if_true]
      exact Nat.zero_lt_one

/-- The tick of an instrument is a positive price. -/
theorem configuredTick_fits (catalog : List InstrumentConfig) (instrumentId : Int) :
    FitsSigned (configuredTick catalog instrumentId) := by
  unfold configuredTick
  cases catalog.find? fun entry => entry.instrumentId = instrumentId with
  | none => decide
  | some entry =>
    have tick := entry.matching.bounds.2.1
    have lower : i64Min = -9223372036854775808 := rfl
    exact ⟨by show i64Min ≤ entry.matching.tickIncrement; omega, tick.2⟩

/-- How many prices may still move to the tick. -/
def tickWeight (catalog : List InstrumentConfig) : Command → Nat
  | .newOrder order =>
    match order.limitPrice with
    | none => 0
    | some price =>
      if price = 0 ∨ price = configuredTick catalog order.instrumentId then 0 else 1
  | .cancel _ => 0
  | .replace order =>
    if order.newLimitPrice = 0 ∨ order.newLimitPrice = configuredTick catalog order.instrumentId
      then 0 else 1

/-- A price of one tick is representable. -/
theorem mem_tickPrice {catalog : List InstrumentConfig} {command candidate : Command}
    (inside : candidate ∈ tickPrice catalog command) (representable : command.Representable) :
    candidate.Representable ∧ tickWeight catalog candidate < tickWeight catalog command := by
  cases command with
  | newOrder order =>
    obtain ⟨client, name, instrument, side, type, force, _, quantity⟩ := representable
    cases limit : order.limitPrice with
    | none =>
      unfold tickPrice at inside
      simp only [limit] at inside
      exact absurd inside List.not_mem_nil
    | some price =>
      unfold tickPrice at inside
      simp only [limit] at inside
      by_cases settled : price = 0 ∨ price = configuredTick catalog order.instrumentId
      · simp only [if_pos settled] at inside
        exact absurd inside List.not_mem_nil
      · simp only [if_neg settled] at inside
        rw [List.mem_singleton.mp inside]
        refine ⟨⟨client, name, instrument, side, type, force, ?_, quantity⟩, ?_⟩
        · intro other same
          rw [← Option.mem_some.mp same]
          exact configuredTick_fits catalog order.instrumentId
        · simp only [tickWeight, limit, if_neg settled, or_true, if_true]
          exact Nat.zero_lt_one
  | cancel order => exact absurd inside List.not_mem_nil
  | replace order =>
    obtain ⟨client, old, new, instrument, _, quantity⟩ := representable
    unfold tickPrice at inside
    by_cases settled : order.newLimitPrice = 0 ∨
        order.newLimitPrice = configuredTick catalog order.instrumentId
    · simp only [if_pos settled] at inside
      exact absurd inside List.not_mem_nil
    · simp only [if_neg settled] at inside
      rw [List.mem_singleton.mp inside]
      refine ⟨⟨client, old, new, instrument, configuredTick_fits catalog _, quantity⟩, ?_⟩
      simp only [tickWeight, if_neg settled, or_true, if_true]
      exact Nat.zero_lt_one

/-- How far an order is from a resting bid: the time in force counts more than the side, because
its alternative restores the side. -/
def normalWeight : Command → Nat
  | .newOrder order =>
    (if order.orderType = limit ∧ order.timeInForce ≠ gtc then 2 else 0) +
      if order.side ≠ buy then 1 else 0
  | _ => 0

/-- A normal form of an order is representable. -/
theorem mem_normalAlternatives {command candidate : Command}
    (inside : candidate ∈ normalAlternatives command) (representable : command.Representable) :
    candidate.Representable ∧ normalWeight candidate < normalWeight command := by
  cases command with
  | newOrder order =>
    obtain ⟨client, name, instrument, side, type, force, price, quantity⟩ := representable
    unfold normalAlternatives at inside
    rcases List.mem_append.mp inside with sided | timed
    · by_cases bid : order.side ≠ buy
      · rw [if_pos bid] at sided
        rw [List.mem_singleton.mp sided]
        refine ⟨⟨client, name, instrument, by show Fits u8Max buy; decide, type, force, price,
          quantity⟩, ?_⟩
        simp only [normalWeight, if_pos bid, ne_eq, not_true, if_false]
        omega
      · rw [if_neg bid] at sided
        exact absurd sided List.not_mem_nil
    · by_cases brief : order.orderType = limit ∧ order.timeInForce ≠ gtc
      · rw [if_pos brief] at timed
        rw [List.mem_singleton.mp timed]
        refine ⟨⟨client, name, instrument, side, type, by show Fits u8Max gtc; decide, price,
          quantity⟩, ?_⟩
        simp only [normalWeight, if_pos brief, ne_eq, not_true, and_false, if_false]
        omega
      · rw [if_neg brief] at timed
        exact absurd timed List.not_mem_nil
  | cancel order => exact absurd inside List.not_mem_nil
  | replace order => exact absurd inside List.not_mem_nil

/-- Every alternative of an order lies below the ones before it. -/
theorem normalAlternatives_pairwise (command : Command) :
    (normalAlternatives command).Pairwise fun earlier later =>
      normalWeight later < normalWeight earlier := by
  cases command with
  | newOrder order =>
    show List.Pairwise _ ((if order.side ≠ buy then [Command.newOrder { order with side := buy }]
      else []) ++ if order.orderType = limit ∧ order.timeInForce ≠ gtc then
        [Command.newOrder { order with timeInForce := gtc }] else [])
    by_cases bid : order.side ≠ buy
    · by_cases brief : order.orderType = limit ∧ order.timeInForce ≠ gtc
      · rw [if_pos bid, if_pos brief, List.singleton_append, List.pairwise_pair]
        simp only [normalWeight, if_pos brief, if_pos bid, ne_eq, not_true, and_false, if_false]
        decide
      · rw [if_pos bid, if_neg brief]
        exact List.pairwise_singleton _ _
    · rw [if_neg bid]
      by_cases brief : order.orderType = limit ∧ order.timeInForce ≠ gtc
      · rw [if_pos brief]
        exact List.pairwise_singleton _ _
      · rw [if_neg brief]
        exact List.Pairwise.nil
  | cancel order => exact List.Pairwise.nil
  | replace order => exact List.Pairwise.nil

end Alternatives

section Normalization

variable {Key Signature : Type} [DecidableEq Key] [DecidableEq Signature]
  {checked : CandidateEvaluator Key Signature} {original : List Command}

/-- Alternatives in falling weight, each tried in the place of the last one adopted. -/
theorem adoptEach_holds (weight : Command → Nat) {origin kept rest : List Command}
    {log : List (List Command)} (alternatives : List Command) (chosen : Command)
    (each : ∀ candidate ∈ alternatives,
      candidate.Representable ∧ weight candidate < weight chosen)
    (falling : alternatives.Pairwise fun earlier later => weight later < weight earlier) :
    Holds
      (Reached checked original (Lighter weight) origin log (kept ++ chosen :: rest))
      (carry (fun chosen alternative => do
        if ← preserves checked (kept ++ alternative :: rest) then pure alternative
        else pure chosen) chosen alternatives)
      (fun chosen => Reached checked original (Lighter weight) origin log
        (kept ++ chosen :: rest))
      (CutSearch checked (Lighter weight) origin log) := by
  induction alternatives generalizing chosen with
  | nil => exact Holds.pure fun _ pre => pre
  | cons candidate others ih =>
    obtain ⟨lower, fallingRest⟩ := List.pairwise_cons.mp falling
    obtain ⟨representable, lighter⟩ := each candidate List.mem_cons_self
    have refused := ih chosen (fun other inside => each other (List.mem_cons_of_mem _ inside))
      fallingRest
    have adopted := ih candidate (fun other inside =>
      ⟨(each other (List.mem_cons_of_mem _ inside)).1, lower other inside⟩) fallingRest
    intro state reached
    have proposable : Proposable (kept ++ candidate :: rest) := by
      refine ⟨by simp, fun other member => ?_⟩
      rcases List.mem_append.mp member with before | after
      · exact reached.admissible.proposable.2 other (List.mem_append_left _ before)
      · cases List.mem_cons.mp after with
        | inl same => exact same ▸ representable
        | inr later =>
          exact reached.admissible.proposable.2 other
            (List.mem_append_right _ (List.mem_cons_of_mem _ later))
    have tested := (Reached.test (descending_measure (totalWeight weight)) proposable
      (by simp) (lighter_splice lighter) :
        Holds (Reached checked original _ origin log (kept ++ chosen :: rest)) _ _ _)
    unfold carry
    refine Holds.through (fun next state => (next = candidate ∨ next = chosen) ∧
      Reached checked original (Lighter weight) origin log (kept ++ next :: rest) state)
      (tested.bind fun answer => ?_) (fun next => ?_) state reached
    · cases answer with
      | true => exact Holds.pure fun _ post => ⟨Or.inl rfl, post⟩
      | false => exact Holds.pure fun _ post => ⟨Or.inr rfl, post⟩
    · intro after post
      rcases post with ⟨rfl | rfl, moved⟩
      · exact adopted after moved
      · exact refused after moved

/-- `_normalize_side_and_tif` keeps the failure. -/
theorem normalizeSideAndTif_keeps :
    PassKeeps checked original (normalizeSideAndTif (preserves checked)) := by
  intro origin log admissible
  refine ⟨Lighter normalWeight, ?_, ?_⟩
  · rintro current lighter rfl
    exact lt_irrefl _ lighter
  · have position : ∀ kept command rest,
        Holds (Reached checked original (Lighter normalWeight) origin log (kept ++ command :: rest))
          (carry (fun chosen alternative => do
            if ← preserves checked (kept ++ alternative :: rest) then pure alternative
            else pure chosen) command (normalAlternatives command))
          (fun chosen => Reached checked original (Lighter normalWeight) origin log
            (kept ++ chosen :: rest))
          (CutSearch checked (Lighter normalWeight) origin log) := by
      intro kept command rest state reached
      have representable := reached.admissible.proposable.2 command
        (List.mem_append_right kept List.mem_cons_self)
      exact adoptEach_holds normalWeight (normalAlternatives command) command
        (fun candidate inside => mem_normalAlternatives inside representable)
        (normalAlternatives_pairwise command) state reached
    exact (Holds.eachPosition [] origin position).from_stronger
      fun _ ready => Reached.start admissible ready

/-- Every stage of `shrink_failure` keeps the failure. -/
theorem shrinkStages_keep (context : ShrinkContext) :
    ∀ stage ∈ shrinkStages (preserves checked) context, PassKeeps checked original stage.pass := by
  have routed : ∀ value, Fits u32Max value →
      Fits u32Max (if value ≠ 0 then context.routedInstrument else 0) := by
    intro value _
    have range := context.routed_valid
    by_cases zero : value ≠ 0
    · rw [if_pos zero]
      exact ⟨by omega, range.2⟩
    · rw [if_neg zero]
      exact ⟨le_refl 0, by omega⟩
  have remapped : PassKeeps checked original
      (remapStage (preserves checked) (remapIdentifiers context.routedInstrument)) :=
    remapStage_keeps fun _ representable =>
      remapLoop_proposable routed ⟨Naming.empty _, Naming.empty _⟩ representable
  intro stage inside
  simp only [shrinkStages, List.mem_cons, List.not_mem_nil, or_false] at inside
  rcases inside with rfl | rfl | rfl | rfl | rfl | rfl | rfl | rfl | rfl | rfl
  · exact deleteChunks_keeps
  · exact deleteIndividual_keeps
  · exact remapped
  · exact simplifyPrices_keeps context
  · exact simplifyQuantities_keeps context
  · exact simplifyEach_keeps commandWeight fun _ _ => mem_commandAlternatives
  · exact normalizeSideAndTif_keeps
  · exact simplifyPrices_keeps context
  · exact simplifyQuantities_keeps context
  · exact deleteIndividual_keeps

/-- Every stage of `shrink_multi_failure` keeps the failure. -/
theorem shrinkMultiStages_keep (catalog : List InstrumentConfig) :
    ∀ stage ∈ shrinkMultiStages (preserves checked) catalog,
      PassKeeps checked original stage.pass := by
  have remapped :
      PassKeeps checked original (remapStage (preserves checked) remapGlobalIdentifiers) :=
    remapStage_keeps fun _ representable =>
      remapLoop_proposable (fun _ fits => fits) ⟨Naming.empty _, Naming.empty _⟩ representable
  intro stage inside
  simp only [shrinkMultiStages, List.mem_cons, List.not_mem_nil, or_false] at inside
  rcases inside with rfl | rfl | rfl | rfl | rfl | rfl
  · exact deleteChunks_keeps
  · exact deleteIndividual_keeps
  · exact remapped
  · exact simplifyEach_keeps quantityWeight fun _ _ => mem_unitQuantity
  · exact simplifyEach_keeps (tickWeight catalog) fun _ _ => mem_tickPrice
  · exact deleteIndividual_keeps

end Normalization

end AtlasLob.Oracle
