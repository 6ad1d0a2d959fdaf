import AtlasLob.Library.IntrusiveList

/-!
# Links followed in a finite heap

From any node of a finite heap, following one link either falls off the end or comes back. Two
pointers of different speed find out which within as many steps as there are nodes, whatever the
links are.
-/

namespace AtlasLob.Intrusive

variable {κ α ρ : Type} [Ord κ] [Std.TransOrd κ]

/-- The pointer after a number of steps along a link. -/
def orbit (link : Node κ α ρ → Option κ) (heap : Heap κ α ρ) (steps : Nat)
    (pointer : Option κ) : Option κ :=
  (fun pointer => pointer.bind (follow link heap))^[steps] pointer

section Orbit

variable {link : Node κ α ρ → Option κ} {heap : Heap κ α ρ} {pointer : Option κ}

/-- One more step, taken last. -/
theorem orbit_succ (steps : Nat) :
    orbit link heap (steps + 1) pointer =
      (orbit link heap steps pointer).bind (follow link heap) :=
  Function.iterate_succ_apply' _ steps pointer

/-- One more step, taken first. -/
theorem orbit_succ_left (steps : Nat) :
    orbit link heap (steps + 1) pointer =
      orbit link heap steps (pointer.bind (follow link heap)) :=
  Function.iterate_succ_apply _ steps pointer

/-- Steps in two parts. -/
theorem orbit_add (first second : Nat) :
    orbit link heap (first + second) pointer =
      orbit link heap first (orbit link heap second pointer) :=
  Function.iterate_add_apply _ first second pointer

/-- What has fallen off stays off. -/
theorem orbit_none (steps : Nat) : orbit link heap steps none = none := by
  induction steps with
  | zero => rfl
  | succ steps ih => rw [orbit_succ, ih, Option.bind_none]

/-- What has fallen off after some steps has after more. -/
theorem orbit_none_of_le {steps more : Nat} (ended : orbit link heap steps pointer = none)
    (later : steps ≤ more) : orbit link heap more pointer = none := by
  obtain ⟨rest, rfl⟩ := Nat.exists_eq_add_of_le later
  rw [Nat.add_comm, orbit_add, ended, orbit_none]

/-- A pointer with a next step points into the heap. -/
theorem mem_of_follow {key : κ} (found : follow link heap key ≠ none) : key ∈ heap := by
  rw [Std.ExtTreeMap.mem_iff_isSome_getElem?]
  unfold follow at found
  cases held : heap[key]? with
  | none =>
    rw [held] at found
    exact absurd rfl found
  | some node => rfl

/-- A pointer that goes on points into the heap. -/
theorem mem_of_orbit {steps : Nat} {key : κ} (here : orbit link heap steps pointer = some key)
    (goes : orbit link heap (steps + 1) pointer ≠ none) : key ∈ heap := by
  have moved : follow link heap key ≠ none := by
    rw [orbit_succ, here] at goes
    exact goes
  exact mem_of_follow moved

/-- Two pointers at one place move on together. -/
theorem orbit_shift {first second : Nat}
    (same : orbit link heap first pointer = orbit link heap second pointer) (more : Nat) :
    orbit link heap (first + more) pointer = orbit link heap (second + more) pointer := by
  rw [Nat.add_comm first, Nat.add_comm second, orbit_add, orbit_add, same]

/-- From a place visited twice the way repeats. -/
theorem orbit_period {start period : Nat}
    (same : orbit link heap (start + period) pointer = orbit link heap start pointer)
    {place : Nat} (behind : start ≤ place) (rounds : Nat) :
    orbit link heap (place + rounds * period) pointer = orbit link heap place pointer := by
  induction rounds with
  | zero => rw [Nat.zero_mul, Nat.add_zero]
  | succ rounds ih =>
    obtain ⟨rest, rfl⟩ := Nat.exists_eq_add_of_le behind
    have moved := orbit_shift same (rest + rounds * period)
    have left : start + rest + (rounds + 1) * period =
        start + period + (rest + rounds * period) := by
      ring
    rw [left, moved, ← Nat.add_assoc, ih]

end Orbit

section Pursuit

variable [DecidableEq κ] {link : Node κ α ρ → Option κ} {heap : Heap κ α ρ} {start : κ}

/-- One step of the two pointers. -/
theorem pursue_step (steps place : Nat) :
    pursue link heap (steps + 1) (orbit link heap place (some start))
        (orbit link heap (2 * place) (some start)) =
      if orbit link heap (2 * place + 1) (some start) = none then some false
      else if orbit link heap (place + 1) (some start) =
          orbit link heap (2 * (place + 1)) (some start) then some true
      else pursue link heap steps (orbit link heap (place + 1) (some start))
        (orbit link heap (2 * (place + 1)) (some start)) := by
  have ahead : 2 * (place + 1) = 2 * place + 1 + 1 := by
    ring
  rw [ahead, orbit_succ (2 * place + 1), orbit_succ (2 * place), orbit_succ place, pursue]
  cases (orbit link heap (2 * place) (some start)).bind (follow link heap) with
  | none => rfl
  | some second =>
    rw [if_neg (Option.some_ne_none second)]
    rfl

/-- The pursuit decides when the fast pointer falls off or meets the slow one in time. -/
theorem pursue_decides {steps place finish : Nat} (later : place < finish)
    (inTime : finish ≤ place + steps)
    (decided : orbit link heap (2 * finish - 1) (some start) = none ∨
      orbit link heap finish (some start) = orbit link heap (2 * finish) (some start)) :
    ∃ verdict, pursue link heap steps (orbit link heap place (some start))
      (orbit link heap (2 * place) (some start)) = some verdict := by
  induction steps generalizing place with
  | zero =>
    exfalso
    omega
  | succ steps ih =>
    rw [pursue_step]
    by_cases fallen : orbit link heap (2 * place + 1) (some start) = none
    · exact ⟨false, by rw [if_pos fallen]⟩
    · by_cases met : orbit link heap (place + 1) (some start) =
          orbit link heap (2 * (place + 1)) (some start)
      · exact ⟨true, by rw [if_neg fallen, if_pos met]⟩
      · rw [if_neg fallen, if_neg met]
        have further : place + 1 ≠ finish := by
          rintro rfl
          cases decided with
          | inl ended =>
            have same : 2 * (place + 1) - 1 = 2 * place + 1 := by
              omega
            exact fallen (same ▸ ended)
          | inr meets => exact met meets
        exact ih (by omega) (by omega)

/-- A pursuit without a meeting ends with the end of the way. -/
theorem orbit_of_pursue {steps place : Nat}
    (verdict : pursue link heap steps (orbit link heap place (some start))
      (orbit link heap (2 * place) (some start)) = some false) :
    ∃ ended, orbit link heap ended (some start) = none := by
  induction steps generalizing place with
  | zero => cases verdict
  | succ steps ih =>
    rw [pursue_step] at verdict
    split at verdict
    · next fallen => exact ⟨_, fallen⟩
    · split at verdict
      · cases verdict
      · exact ih verdict

/-- A pursuit from the start of a way that has no meeting ends with the end of the way. -/
theorem orbit_ends_of_pursue {steps : Nat}
    (verdict : pursue link heap steps (some start) (some start) = some false) :
    ∃ ended, orbit link heap ended (some start) = none :=
  @orbit_of_pursue κ α ρ _ _ _ link heap start steps 0 verdict

/-- A pursuit sees nothing of a heap but the way its link leads. -/
theorem pursue_congr {β : Type} {other : Node κ β ρ → Option κ} {image : Heap κ β ρ}
    (same : ∀ key, follow other image key = follow link heap key) (steps : Nat)
    (slow fast : Option κ) :
    pursue other image steps slow fast = pursue link heap steps slow fast := by
  induction steps generalizing slow fast with
  | zero => rfl
  | succ steps ih =>
    have ways : follow other image = follow link heap := funext same
    rw [pursue, pursue, ways]
    cases fast.bind (follow link heap) with
    | none => rfl
    | some second => simp only [ih]

variable [Std.LawfulEqOrd κ]

/-- A way through more places than the heap has nodes visits one twice. -/
theorem orbit_revisits
    (going : ∀ steps ≤ heap.size, ∃ key ∈ heap, orbit link heap steps (some start) = some key) :
    ∃ first period, 0 < period ∧ first + period ≤ heap.size ∧
      orbit link heap (first + period) (some start) = orbit link heap first (some start) := by
  have maps : ∀ steps ∈ Finset.range (heap.size + 1),
      orbit link heap steps (some start) ∈ (heap.keys.map some).toFinset := by
    intro steps inside
    obtain ⟨key, member, here⟩ := going steps (Nat.le_of_lt_succ (Finset.mem_range.mp inside))
    rw [List.mem_toFinset, here]
    exact List.mem_map_of_mem (Std.ExtTreeMap.mem_keys.mpr member)
  have fewer : (heap.keys.map some).toFinset.card < (Finset.range (heap.size + 1)).card := by
    rw [Finset.card_range]
    calc (heap.keys.map some).toFinset.card
        ≤ (heap.keys.map some).length := List.toFinset_card_le _
      _ = heap.size := by rw [List.length_map, Std.ExtTreeMap.length_keys]
      _ < heap.size + 1 := Nat.lt_succ_self _
  obtain ⟨left, leftIn, right, rightIn, different, same⟩ :=
    Finset.exists_ne_map_eq_of_card_lt_of_maps_to fewer maps
  rw [Finset.mem_range] at leftIn rightIn
  rcases Nat.lt_or_gt_of_ne different with less | more
  · refine ⟨left, right - left, by omega, by omega, ?_⟩
    rw [Nat.add_sub_cancel' (Nat.le_of_lt less), same]
  · refine ⟨right, left - right, by omega, by omega, ?_⟩
    rw [Nat.add_sub_cancel' (Nat.le_of_lt more), same]

/-- A way longer than the heap comes back to where it was. -/
theorem orbit_repeats (long : orbit link heap (heap.size + 1) (some start) ≠ none) :
    ∃ first period, 0 < period ∧ first + period ≤ heap.size ∧
      orbit link heap (first + period) (some start) = orbit link heap first (some start) := by
  apply orbit_revisits
  intro steps bound
  have next : orbit link heap (steps + 1) (some start) ≠ none :=
    fun ended => long (orbit_none_of_le ended (by omega))
  cases here : orbit link heap steps (some start) with
  | none => exact absurd (orbit_none_of_le here (Nat.le_succ steps)) next
  | some key => exact ⟨key, mem_of_orbit here next, rfl⟩

/-- The pursuit decides on every finite heap, with one step more than there are nodes. -/
theorem pursue_total :
    ∃ verdict, pursue link heap (heap.size + 1) (some start) (some start) = some verdict := by
  have decides : ∀ finish, 0 < finish → finish ≤ heap.size + 1 →
      (orbit link heap (2 * finish - 1) (some start) = none ∨
        orbit link heap finish (some start) = orbit link heap (2 * finish) (some start)) →
      ∃ verdict, pursue link heap (heap.size + 1) (some start) (some start) = some verdict :=
    fun finish positive bound =>
      @pursue_decides κ α ρ _ _ _ link heap start _ 0 finish positive (by omega)
  by_cases ended : orbit link heap (heap.size + 1) (some start) = none
  · exact decides (heap.size + 1) (by omega) (le_refl _)
      (Or.inl (orbit_none_of_le ended (by omega)))
  · obtain ⟨first, period, positive, bound, same⟩ := orbit_repeats ended
    -- They meet at the first multiple of the period that is not before the repetition.
    obtain ⟨rounds, enough, near⟩ : ∃ rounds, first ≤ rounds * period ∧
        0 < rounds * period ∧ rounds * period ≤ first + period := by
      refine ⟨first / period + 1, ?_, ?_, ?_⟩
      · have split := Nat.div_add_mod first period
        have small := Nat.mod_lt first positive
        rw [Nat.add_mul, Nat.one_mul, Nat.mul_comm]
        omega
      · exact Nat.mul_pos (Nat.succ_pos _) positive
      · have part := Nat.div_mul_le_self first period
        rw [Nat.add_mul, Nat.one_mul]
        omega
    refine decides (rounds * period) near.1 (by omega) (Or.inr ?_)
    rw [Nat.two_mul]
    exact (orbit_period same enough rounds).symm

omit [DecidableEq κ] [Std.LawfulEqOrd κ] in
/-- Where every link leads into the heap, so does every way that starts in it. -/
theorem orbit_mem (closed : ∀ (key : κ) (node : Node κ α ρ) (next : κ),
    heap[key]? = some node → link node = some next → next ∈ heap) (inside : start ∈ heap)
    {steps : Nat} {key : κ} (here : orbit link heap steps (some start) = some key) :
    key ∈ heap := by
  cases steps with
  | zero =>
    rw [← Option.some.inj here]
    exact inside
  | succ steps =>
    rw [orbit_succ] at here
    obtain ⟨before, _, followed⟩ := Option.bind_eq_some_iff.mp here
    obtain ⟨node, held, linked⟩ := Option.bind_eq_some_iff.mp followed
    exact closed before node key held linked

/-- A way that ends does within as many steps as there are nodes. -/
theorem orbit_ends (closed : ∀ (key : κ) (node : Node κ α ρ) (next : κ),
    heap[key]? = some node → link node = some next → next ∈ heap) (inside : start ∈ heap)
    {ended : Nat} (falls : orbit link heap ended (some start) = none) :
    orbit link heap heap.size (some start) = none := by
  by_contra long
  obtain ⟨first, period, positive, _, same⟩ : ∃ first period, 0 < period ∧
      first + period ≤ heap.size ∧
      orbit link heap (first + period) (some start) = orbit link heap first (some start) := by
    apply orbit_revisits
    intro steps bound
    cases here : orbit link heap steps (some start) with
    | none => exact absurd (orbit_none_of_le here bound) long
    | some key => exact ⟨key, orbit_mem closed inside here, rfl⟩
  -- Going round often enough passes the end, which is then already where the rounds begin.
  have far : ended ≤ first + ended * period :=
    le_trans (Nat.le_mul_of_pos_right ended positive) (Nat.le_add_left _ first)
  have fallen : orbit link heap first (some start) = none := by
    rw [← orbit_period same (le_refl first) ended]
    exact orbit_none_of_le falls far
  have short : ¬first ≤ heap.size := fun bound => long (orbit_none_of_le fallen bound)
  omega

end Pursuit

section Chains

variable {key : α → κ} {heap : Heap κ α ρ} {owner : ρ}

/-- The items found by following forward links from a pointer to the end, each with its own
backward link and owner in place. -/
def Chain (key : α → κ) (heap : Heap κ α ρ) (owner : ρ) :
    Option κ → Option κ → List α → Prop
  | _, pointer, [] => pointer = none
  | previous, pointer, item :: rest =>
    pointer = some (key item) ∧
      heap[key item]? = some ⟨item, previous, rest.head?.map key, some owner⟩ ∧
      Chain key heap owner (some (key item)) (rest.head?.map key) rest

/-- A chain begins at its first item. -/
theorem Chain.pointer_eq {previous pointer : Option κ} {items : List α}
    (chain : Chain key heap owner previous pointer items) :
    pointer = items.head?.map key := by
  cases items with
  | nil => exact chain
  | cons item rest => exact chain.1

/-- Every item of a chain has its links in place. -/
theorem Chain.linked {previous pointer : Option κ} {items : List α}
    (chain : Chain key heap owner previous pointer items) {front back : List α} {item : α}
    (split : items = front ++ item :: back) :
    heap[key item]? = some ⟨item, (front.getLast?.map key).or previous, back.head?.map key,
      some owner⟩ := by
  induction front generalizing previous pointer items with
  | nil =>
    subst split
    exact chain.2.1
  | cons first rest ih =>
    subst split
    have later := ih chain.2.2 rfl
    rw [later]
    cases rest with
    | nil => rfl
    | cons second others =>
      rw [List.getLast?_cons_cons, List.getLast?_eq_some_getLast (List.cons_ne_nil second others)]
      rfl

/-- A chain of distinct items from the head to the tail spans them. -/
theorem Chain.spans {ends : Ends κ} {items : List α}
    (chain : Chain key heap owner none ends.head items) (distinct : (items.map key).Nodup)
    (tail : ends.tail = items.getLast?.map key) : Spans key heap owner ends items where
  linked front item back split := by
    rw [chain.linked split, Option.or_none]
  distinct := distinct
  head := chain.pointer_eq
  tail := tail

end Chains

end AtlasLob.Intrusive
