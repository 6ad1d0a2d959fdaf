import Mathlib

/-!
# Intrusive doubly linked lists

Nodes live in one heap under their keys and carry their own links and the name of the list
that holds them. A list is the pair of its end pointers. `Spans` says that following the links
between the ends visits exactly the given items in order, with consistent backward links; it
is the only fact about links the rest of the development uses.
-/

namespace AtlasLob.Intrusive

/-- A payload with its intrusive links and the list that holds it. -/
structure Node (κ α ρ : Type) where
  /-- The stored value. -/
  payload : α
  /-- The neighbour towards the head. -/
  previous : Option κ
  /-- The neighbour towards the tail. -/
  next : Option κ
  /-- The list this node is linked into. -/
  owner : Option ρ
  deriving DecidableEq

/-- The end pointers of one list. -/
structure Ends (κ : Type) where
  /-- The first node. -/
  head : Option κ
  /-- The last node. -/
  tail : Option κ
  deriving DecidableEq

/-- The end pointers of the empty list. -/
def Ends.empty {κ : Type} : Ends κ := ⟨none, none⟩

/-- Nodes under their keys. -/
abbrev Heap (κ α ρ : Type) [Ord κ] := Std.ExtTreeMap κ (Node κ α ρ) compare

section Operations

variable {κ α ρ : Type} [Ord κ] [Std.TransOrd κ] [DecidableEq κ]

/-- A node outside every list. -/
def Node.detached (payload : α) : Node κ α ρ := ⟨payload, none, none, none⟩

/-- A node outside every list has no link at all. -/
def Node.isLinked (node : Node κ α ρ) : Bool :=
  node.previous.isSome || node.next.isSome || node.owner.isSome

/-- Rewrite the node under a key. -/
def update (key : κ) (change : Node κ α ρ → Node κ α ρ) (heap : Heap κ α ρ) : Heap κ α ρ :=
  match heap[key]? with
  | none => heap
  | some node => heap.insert key (change node)

/-- Link a node behind the tail. -/
def pushBack (owner : ρ) (key : κ) (heap : Heap κ α ρ) (ends : Ends κ) : Heap κ α ρ × Ends κ :=
  let linked := update key
    (fun node => { node with previous := ends.tail, next := none, owner := some owner }) heap
  match ends.tail with
  | none => (linked, ⟨some key, some key⟩)
  | some last => (update last (fun node => { node with next := some key }) linked,
      ⟨ends.head, some key⟩)

/-- Take a node out, joining its neighbours. -/
def unlink (key : κ) (heap : Heap κ α ρ) (ends : Ends κ) : Heap κ α ρ × Ends κ :=
  match heap[key]? with
  | none => (heap, ends)
  | some node =>
    let (forward, head) := match node.previous with
      | none => (heap, node.next)
      | some before => (update before (fun other => { other with next := node.next }) heap,
          ends.head)
    let (joined, tail) := match node.next with
      | none => (forward, node.previous)
      | some behind => (update behind (fun other => { other with previous := node.previous })
          forward, ends.tail)
    (update key (fun own => { own with previous := none, next := none, owner := none }) joined,
      ⟨head, tail⟩)

/-- The nodes met by following forward links for at most the given number of steps. -/
def walk (heap : Heap κ α ρ) : Nat → Option κ → List (Node κ α ρ)
  | 0, _ => []
  | _ + 1, none => []
  | steps + 1, some key =>
    match heap[key]? with
    | none => []
    | some node => node :: walk heap steps node.next

/-- The pointer behind a link; a missing node has no links. -/
def follow (link : Node κ α ρ → Option κ) (heap : Heap κ α ρ) (key : κ) : Option κ :=
  heap[key]?.bind link

/-- Two pointers run along one link, the second twice as fast: `some true` when they meet,
`some false` when the fast one falls off the end, `none` when the steps run out. -/
def pursue (link : Node κ α ρ → Option κ) (heap : Heap κ α ρ) :
    Nat → Option κ → Option κ → Option Bool
  | 0, _, _ => none
  | steps + 1, slow, fast =>
    match fast.bind (follow link heap) with
    | none => some false
    | some second =>
      let behind := slow.bind (follow link heap)
      let ahead := follow link heap second
      if behind = ahead then some true else pursue link heap steps behind ahead

/-- Along a chain without repetition the fast pointer falls off the end. -/
theorem pursue_of_chain {link : Node κ α ρ → Option κ} {heap : Heap κ α ρ} {chain : List κ}
    (linked : ∀ position, ∀ key ∈ chain[position]?, follow link heap key = chain[position + 1]?)
    (distinct : chain.Nodup) (steps position : Nat) (inside : position ≤ chain.length)
    (enough : chain.length < position + steps) :
    pursue link heap steps chain[position]? chain[2 * position]? = some false := by
  have advance : ∀ place, (chain[place]?).bind (follow link heap) = chain[place + 1]? := by
    intro place
    cases held : chain[place]? with
    | none =>
      rw [List.getElem?_eq_none_iff] at held
      rw [Option.bind_none, eq_comm, List.getElem?_eq_none_iff]
      omega
    | some key => exact linked place key held
  induction steps generalizing position with
  | zero =>
    exfalso
    omega
  | succ steps ih =>
    rw [pursue, advance]
    cases second : chain[2 * position + 1]? with
    | none => rfl
    | some key =>
      have ahead : follow link heap key = chain[2 * (position + 1)]? := linked _ key second
      have bound : 2 * position + 1 < chain.length := (List.getElem?_eq_some_iff.mp second).1
      simp only [advance, ahead]
      rw [if_neg]
      · exact ih (position + 1) (by omega) (by omega)
      · intro same
        have next : position + 1 < chain.length := by omega
        rw [List.getElem?_eq_getElem next, eq_comm] at same
        obtain ⟨far, equal⟩ := List.getElem?_eq_some_iff.mp same
        have := (List.Nodup.getElem_inj_iff distinct).mp equal
        omega

variable [Std.LawfulEqOrd κ]

/-- A lookup after a rewrite. -/
theorem getElem?_update (key other : κ) (change : Node κ α ρ → Node κ α ρ)
    (heap : Heap κ α ρ) :
    (update key change heap)[other]? =
      if other = key then heap[key]?.map change else heap[other]? := by
  unfold update
  by_cases same : other = key
  · subst same
    cases found : heap[other]? with
    | none => simp [found]
    | some node => simp
  · cases found : heap[key]? with
    | none => simp [same]
    | some node => grind

/-- Rewriting a node moves no key. -/
@[simp] theorem mem_update {key other : κ} {change : Node κ α ρ → Node κ α ρ}
    {heap : Heap κ α ρ} : other ∈ update key change heap ↔ other ∈ heap := by
  rw [Std.ExtTreeMap.mem_iff_isSome_getElem?, Std.ExtTreeMap.mem_iff_isSome_getElem?,
    getElem?_update]
  by_cases same : other = key
  · subst same
    simp
  · simp [same]

/-- Linking a node moves no key. -/
@[simp] theorem mem_pushBack {owner : ρ} {key other : κ} {heap : Heap κ α ρ} {ends : Ends κ} :
    other ∈ (pushBack owner key heap ends).1 ↔ other ∈ heap := by
  rw [pushBack]
  cases ends.tail <;> simp

/-- Unlinking a node moves no key. -/
@[simp] theorem mem_unlink {key other : κ} {heap : Heap κ α ρ} {ends : Ends κ} :
    other ∈ (unlink key heap ends).1 ↔ other ∈ heap := by
  rw [unlink]
  cases heap[key]? with
  | none => rfl
  | some node =>
    obtain ⟨payload, previous, next, owner⟩ := node
    cases previous <;> cases next <;> simp

end Operations

/-- The items between the ends, in order, with every link and owner in place. -/
structure Spans {κ α ρ : Type} [Ord κ] [Std.TransOrd κ] (key : α → κ) (heap : Heap κ α ρ)
    (owner : ρ)
    (ends : Ends κ) (items : List α) : Prop where
  /-- Each item's node points to its neighbours and to its list. -/
  linked : ∀ front item back, items = front ++ item :: back →
    heap[key item]? = some ⟨item, front.getLast?.map key, back.head?.map key, some owner⟩
  /-- No key occurs twice. -/
  distinct : (items.map key).Nodup
  /-- The head pointer names the first item. -/
  head : ends.head = items.head?.map key
  /-- The tail pointer names the last item. -/
  tail : ends.tail = items.getLast?.map key

namespace Spans

/-- An item before a split point differs from the item there. -/
private theorem key_ne {κ α : Type} {key : α → κ} {front back : List α} {item other : α}
    (distinct : ((front ++ item :: back).map key).Nodup) (member : other ∈ front ∨ other ∈ back) :
    key other ≠ key item := by
  simp only [List.map_append, List.map_cons, List.nodup_append, List.nodup_cons,
    List.mem_map, List.mem_cons] at distinct
  obtain ⟨-, ⟨notBack, -⟩, apart⟩ := distinct
  rcases member with inFront | inBack
  · exact apart _ ⟨other, inFront, rfl⟩ _ (Or.inl rfl)
  · exact fun same => notBack ⟨other, inBack, same⟩

variable {κ α ρ : Type} [Ord κ] [Std.TransOrd κ] {key : α → κ}
  {heap : Heap κ α ρ} {owner : ρ} {ends : Ends κ} {items : List α}

/-- Empty ends span no item. -/
theorem nil : Spans key heap owner Ends.empty [] where
  linked := by simp
  distinct := by simp
  head := rfl
  tail := rfl

/-- The items determine the end pointers. -/
theorem ends_eq (spans : Spans key heap owner ends items) :
    ends = ⟨items.head?.map key, items.getLast?.map key⟩ := by
  rw [← spans.head, ← spans.tail]

/-- Every item's node is in the heap. -/
theorem getElem?_of_mem (spans : Spans key heap owner ends items) {item : α}
    (member : item ∈ items) : ∃ previous next,
      heap[key item]? = some ⟨item, previous, next, some owner⟩ := by
  obtain ⟨front, back, split⟩ := List.append_of_mem member
  exact ⟨_, _, spans.linked front item back split⟩

/-- A heap with the same nodes under the items' keys spans the same items. -/
theorem congr (spans : Spans key heap owner ends items) {other : Heap κ α ρ}
    (same : ∀ item ∈ items, other[key item]? = heap[key item]?) :
    Spans key other owner ends items where
  linked front item back split := by
    rw [same item (by simp [split])]
    exact spans.linked front item back split
  distinct := spans.distinct
  head := spans.head
  tail := spans.tail

/-- Following the links from any spanned position visits the rest of the items. -/
theorem walk_suffix (spans : Spans key heap owner ends items) :
    ∀ back front steps, items = front ++ back → back.length ≤ steps →
      (walk heap steps (back.head?.map key)).map Node.payload = back := by
  intro back
  induction back with
  | nil =>
    intro front steps _ _
    cases steps <;> simp [walk]
  | cons item rest ih =>
    intro front steps split enough
    cases steps with
    | zero => simp at enough
    | succ steps =>
      have stored := spans.linked front item rest split
      have tail := ih (front ++ [item]) steps (by simp [split]) (by simpa using enough)
      simp [walk, stored, tail]

/-- Following the links from the head visits exactly the items. -/
theorem walk_head (spans : Spans key heap owner ends items) {steps : Nat}
    (enough : items.length ≤ steps) :
    (walk heap steps ends.head).map Node.payload = items := by
  rw [spans.head]
  exact spans.walk_suffix items [] steps rfl enough

/-- Every node met on the way belongs to the list. -/
theorem mem_walk (spans : Spans key heap owner ends items) :
    ∀ back front steps, items = front ++ back →
      ∀ node ∈ walk heap steps (back.head?.map key), node.payload ∈ back ∧
        node.owner = some owner := by
  intro back
  induction back with
  | nil =>
    intro front steps _ node member
    cases steps <;> simp [walk] at member
  | cons item rest ih =>
    intro front steps split node member
    cases steps with
    | zero => simp [walk] at member
    | succ steps =>
      have stored := spans.linked front item rest split
      simp only [List.head?_cons, Option.map_some, walk, stored, List.mem_cons] at member
      rcases member with rfl | later
      · simp
      · have tail := ih (front ++ [item]) steps (by simp [split]) node later
        exact ⟨List.mem_cons_of_mem _ tail.1, tail.2⟩

/-- The forward links run through the keys in order. -/
theorem follow_next (spans : Spans key heap owner ends items) (position : Nat) :
    ∀ own ∈ (items.map key)[position]?,
      follow Node.next heap own = (items.map key)[position + 1]? := by
  intro own held
  rw [Option.mem_def, List.getElem?_map, Option.map_eq_some_iff] at held
  obtain ⟨item, place, rfl⟩ := held
  obtain ⟨inside, rfl⟩ := List.getElem?_eq_some_iff.mp place
  have stored := spans.linked (items.take position) items[position] (items.drop (position + 1))
    (by simp)
  rw [follow, stored, List.getElem?_map]
  simp

/-- The backward links run through the keys in reverse. -/
theorem follow_previous (spans : Spans key heap owner ends items) (position : Nat) :
    ∀ own ∈ (items.map key).reverse[position]?,
      follow Node.previous heap own = (items.map key).reverse[position + 1]? := by
  intro own held
  have bound : position < items.length := by
    have := (List.getElem?_eq_some_iff.mp held).1
    simpa using this
  rw [Option.mem_def, List.getElem?_reverse (by simpa using bound), List.getElem?_map,
    Option.map_eq_some_iff] at held
  obtain ⟨item, place, rfl⟩ := held
  obtain ⟨inside, rfl⟩ := List.getElem?_eq_some_iff.mp place
  have stored := spans.linked (items.take ((items.map key).length - 1 - position))
    items[(items.map key).length - 1 - position]
    (items.drop ((items.map key).length - 1 - position + 1)) (by simp)
  rw [follow, stored]
  simp only [List.length_map, Option.bind_some, List.getLast?_take]
  by_cases last : position + 1 < items.length
  · rw [List.getElem?_reverse (by simpa using last), List.getElem?_map, List.length_map,
      if_neg (by omega), show items.length - 1 - position - 1 = items.length - 1 - (position + 1) by
        omega, List.getElem?_eq_getElem (by omega)]
    simp
  · rw [if_pos (by omega), eq_comm, Option.map_none, List.getElem?_eq_none_iff]
    simp only [List.length_reverse, List.length_map]
    omega

/-- Neither direction of a spanned list has a cycle. -/
theorem pursue_eq_false [DecidableEq κ] (spans : Spans key heap owner ends items) {steps : Nat}
    (enough : items.length < steps) :
    pursue Node.next heap steps ends.head ends.head = some false ∧
      pursue Node.previous heap steps ends.tail ends.tail = some false := by
  have forward := pursue_of_chain spans.follow_next spans.distinct steps 0 (by simp)
    (by simpa using enough)
  have backward := pursue_of_chain spans.follow_previous (List.nodup_reverse.mpr spans.distinct)
    steps 0 (by simp) (by simpa using enough)
  rw [spans.head, spans.tail]
  simp only [Nat.mul_zero, ← List.head?_eq_getElem?, List.head?_map, List.head?_reverse,
    List.getLast?_map] at forward backward
  exact ⟨forward, backward⟩

variable [Std.LawfulEqOrd κ]

/-- The keys of distinct stored items are at most as many as the heap's nodes. -/
theorem length_le_size (spans : Spans key heap owner ends items) : items.length ≤ heap.size := by
  have subset : (items.map key) ⊆ heap.keys := by
    intro own member
    obtain ⟨item, inside, rfl⟩ := List.mem_map.mp member
    obtain ⟨previous, next, stored⟩ := spans.getElem?_of_mem inside
    rw [Std.ExtTreeMap.mem_keys]
    exact Std.ExtTreeMap.mem_iff_isSome_getElem?.mpr (by simp [stored])
  have bound := (List.subperm_of_subset spans.distinct subset).length_le
  simpa [Std.ExtTreeMap.length_keys] using bound

variable [DecidableEq κ]

/-- Linking a node behind the tail appends its item. -/
theorem pushBack (spans : Spans key heap owner ends items) {item : α} {node : Node κ α ρ}
    (stored : heap[key item]? = some node) (payload : node.payload = item)
    (fresh : key item ∉ items.map key) :
    Spans key (Intrusive.pushBack owner (key item) heap ends).1 owner
      (Intrusive.pushBack owner (key item) heap ends).2 (items ++ [item]) := by
  subst payload
  -- The old tail, if any, is the only other node that changes.
  have lookup : ∀ other, (Intrusive.pushBack owner (key node.payload) heap ends).1[other]? =
      if other = key node.payload then
        some ⟨node.payload, items.getLast?.map key, none, some owner⟩
      else if some other = items.getLast?.map key then
        heap[other]?.map fun old => { old with next := some (key node.payload) }
      else heap[other]? := by
    intro other
    rw [Intrusive.pushBack, spans.tail]
    cases last : items.getLast? with
    | none => simp [getElem?_update, stored]
    | some final =>
      have differ : key node.payload ≠ key final := by
        intro same
        exact fresh (same ▸ List.mem_map.mpr ⟨final, List.mem_of_getLast? last, rfl⟩)
      simp only [Option.map_some, getElem?_update, stored, Option.some.injEq]
      by_cases own : other = key node.payload
      · subst own
        simp [differ]
      · by_cases old : other = key final
        · subst old
          simp [Ne.symm differ]
        · simp [own, old]
  constructor
  · intro front middle back split
    rw [lookup]
    rcases List.eq_nil_or_concat back with rfl | ⟨rest, final, rfl⟩
    · obtain ⟨rfl, rfl⟩ : items = front ∧ node.payload = middle := by
        have := List.append_inj' split rfl
        simpa using this
      simp
    · obtain ⟨rfl, rfl⟩ : items = front ++ middle :: rest ∧ node.payload = final := by
        have shaped : items ++ [node.payload] = (front ++ middle :: rest) ++ [final] := by
          simpa using split
        have := List.append_inj' shaped rfl
        simpa using this
      have own : key middle ≠ key node.payload := by
        intro same
        exact fresh (same ▸ List.mem_map.mpr ⟨middle, by simp, rfl⟩)
      have old := spans.linked front middle rest rfl
      rw [if_neg own]
      cases rest with
      | nil => simp [old]
      | cons second others =>
        have ahead :
          some (key middle) ≠ ((front ++ middle :: second :: others).getLast?.map key) := by
          have lastMember : (second :: others).getLast (by simp) ∈ second :: others :=
            List.getLast_mem _
          have differ := key_ne spans.distinct (Or.inr lastMember)
          rw [List.getLast?_append_cons, List.getLast?_eq_some_getLast (by simp),
            List.getLast_cons (by simp)]
          simpa using Ne.symm differ
        rw [if_neg ahead, old]
        simp
  · simp only [List.map_append, List.map_cons, List.map_nil]
    rw [List.nodup_append]
    refine ⟨spans.distinct, by simp, ?_⟩
    intro first member second single
    rw [List.mem_singleton] at single
    exact fun same => fresh (single ▸ same ▸ member)
  · cases items with
    | nil =>
      have tail : ends.tail = none := spans.tail
      simp [Intrusive.pushBack, tail]
    | cons first rest =>
      have tail : ends.tail = ((first :: rest).getLast?).map key := spans.tail
      rw [List.getLast?_eq_some_getLast (by simp)] at tail
      simp [Intrusive.pushBack, tail, spans.head]
  · cases tail : ends.tail <;> simp [Intrusive.pushBack, tail]

/-- Linking behind the tail touches only the linked node and the items already spanned. -/
theorem pushBack_frame (spans : Spans key heap owner ends items) (own other : κ)
    (apart : other ≠ own) (outside : other ∉ items.map key) :
    (Intrusive.pushBack owner own heap ends).1[other]? = heap[other]? := by
  rw [Intrusive.pushBack, spans.tail]
  cases last : items.getLast? with
  | none => simp [getElem?_update, apart]
  | some final =>
    have differ : other ≠ key final := by
      intro same
      exact outside (same ▸ List.mem_map.mpr ⟨final, List.mem_of_getLast? last, rfl⟩)
    simp [getElem?_update, apart, differ]

/-- What taking a spanned node out leaves under every key. -/
theorem unlink_lookup {front back : List α} {item : α}
    (spans : Spans key heap owner ends (front ++ item :: back)) (other : κ) :
    (Intrusive.unlink (key item) heap ends).1[other]? =
      if other = key item then some (Node.detached item)
      else if some other = front.getLast?.map key then
        heap[other]?.map fun old => { old with next := back.head?.map key }
      else if some other = back.head?.map key then
        heap[other]?.map fun old => { old with previous := front.getLast?.map key }
      else heap[other]? := by
  have stored := spans.linked front item back rfl
  simp only [Intrusive.unlink, stored]
  cases before : front.getLast? with
  | none =>
    cases behind : back.head? with
    | none => simp [getElem?_update, stored, Node.detached]
    | some second =>
      have differ : key second ≠ key item :=
        key_ne spans.distinct (Or.inr (List.mem_of_head? behind))
      by_cases own : other = key item
      · subst own
        simp [getElem?_update, Ne.symm differ, stored, Node.detached]
      · by_cases next : other = key second
        · subst next
          simp [getElem?_update, own]
        · simp [getElem?_update, own, next]
  | some first =>
    have firstDiffer : key first ≠ key item :=
      key_ne spans.distinct (Or.inl (List.mem_of_getLast? before))
    cases behind : back.head? with
    | none =>
      by_cases own : other = key item
      · subst own
        simp [getElem?_update, Ne.symm firstDiffer, stored, Node.detached]
      · by_cases prior : other = key first
        · subst prior
          simp [getElem?_update, own]
        · simp [getElem?_update, own, prior]
    | some second =>
      have differ : key second ≠ key item :=
        key_ne spans.distinct (Or.inr (List.mem_of_head? behind))
      have apart : key first ≠ key second := by
        have distinct := spans.distinct
        simp only [List.map_append, List.map_cons, List.nodup_append] at distinct
        exact distinct.2.2 _ (List.mem_map.mpr ⟨first, List.mem_of_getLast? before, rfl⟩) _
          (List.mem_cons_of_mem _ (List.mem_map.mpr ⟨second, List.mem_of_head? behind, rfl⟩))
      by_cases own : other = key item
      · subst own
        simp [getElem?_update, Ne.symm firstDiffer, Ne.symm differ, stored, Node.detached]
      · by_cases prior : other = key first
        · subst prior
          simp [getElem?_update, own, apart]
        · by_cases next : other = key second
          · subst next
            simp [getElem?_update, own, prior]
          · simp [getElem?_update, own, prior, next]

/-- Taking a spanned node out touches only the items spanned with it. -/
theorem unlink_frame {front back : List α} {item : α}
    (spans : Spans key heap owner ends (front ++ item :: back)) (other : κ)
    (outside : other ∉ (front ++ item :: back).map key) :
    (Intrusive.unlink (key item) heap ends).1[other]? = heap[other]? := by
  simp only [List.map_append, List.map_cons, List.mem_append, List.mem_cons, not_or] at outside
  have before : some other ≠ front.getLast?.map key := by
    intro same
    obtain ⟨last, final, rfl⟩ := Option.map_eq_some_iff.mp same.symm
    exact outside.1 (List.mem_map.mpr ⟨last, List.mem_of_getLast? final, rfl⟩)
  have behind : some other ≠ back.head?.map key := by
    intro same
    obtain ⟨first, start, rfl⟩ := Option.map_eq_some_iff.mp same.symm
    exact outside.2.2 (List.mem_map.mpr ⟨first, List.mem_of_head? start, rfl⟩)
  rw [spans.unlink_lookup, if_neg outside.2.1, if_neg before, if_neg behind]

/-- Taking a spanned node out removes its item. -/
theorem unlink {front back : List α} {item : α}
    (spans : Spans key heap owner ends (front ++ item :: back)) :
    Spans key (Intrusive.unlink (key item) heap ends).1 owner
      (Intrusive.unlink (key item) heap ends).2 (front ++ back) := by
  have stored := spans.linked front item back rfl
  have distinct := spans.distinct
  constructor
  · intro ahead middle behind split
    rw [spans.unlink_lookup]
    rcases List.append_eq_append_iff.mp split with ⟨gap, rfl, rest⟩ | ⟨gap, rfl, rest⟩
    · -- The remaining item stands behind the removed one.
      subst rest
      have old := spans.linked (front ++ item :: gap) middle behind (by simp)
      have own : key middle ≠ key item := key_ne distinct (Or.inr (by simp))
      have notPrior : some (key middle) ≠ front.getLast?.map key := by
        cases before : front.getLast? with
        | none => simp
        | some first =>
          simp only [List.map_append, List.map_cons, List.nodup_append] at distinct
          have apart := distinct.2.2 _
            (List.mem_map.mpr ⟨first, List.mem_of_getLast? before, rfl⟩) (key middle) (by simp)
          simpa using Ne.symm apart
      rw [if_neg own, if_neg notPrior]
      cases gap with
      | nil => simp [old]
      | cons second others =>
        have notNext :
          some (key middle) ≠ ((second :: others) ++ middle :: behind).head?.map key := by
          have tailDistinct : ((second :: others ++ middle :: behind).map key).Nodup := by
            simp only [List.map_append, List.map_cons, List.nodup_append,
              List.nodup_cons] at distinct ⊢
            exact ⟨distinct.2.1.2.1, distinct.2.1.2.2.1, distinct.2.1.2.2.2⟩
          have differ := key_ne tailDistinct (Or.inl (List.mem_cons_self (a := second)))
          simpa using Ne.symm differ
        rw [if_neg notNext, old]
        simp
    · cases gap with
      | nil =>
        -- The split point is exactly where the item was removed.
        simp only [List.nil_append] at rest
        subst rest
        have old := spans.linked (ahead ++ [item]) middle behind (by simp)
        have own : key middle ≠ key item := key_ne distinct (Or.inr (by simp))
        have notPrior : some (key middle) ≠ (ahead ++ []).getLast?.map key := by
          rw [List.append_nil]
          cases before : ahead.getLast? with
          | none => simp
          | some first =>
            simp only [List.append_nil, List.map_append, List.map_cons,
              List.nodup_append] at distinct
            have apart := distinct.2.2 _
              (List.mem_map.mpr ⟨first, List.mem_of_getLast? before, rfl⟩) (key middle) (by simp)
            simpa using Ne.symm apart
        rw [if_neg own, if_neg notPrior]
        simp [old]
      | cons first others =>
        -- The remaining item stands before the removed one.
        obtain ⟨rfl, rfl⟩ : first = middle ∧ others ++ back = behind := by
          simpa using rest.symm
        have old := spans.linked ahead first (others ++ item :: back) (by simp)
        have own : key first ≠ key item := key_ne distinct (Or.inl (by simp))
        rw [if_neg own]
        cases others with
        | nil => simp [old]
        | cons second later =>
          have notPrior : some (key first) ≠
              (ahead ++ first :: second :: later).getLast?.map key := by
            have frontDistinct : ((ahead ++ first :: second :: later).map key).Nodup := by
              rw [List.map_append] at distinct
              exact distinct.of_append_left
            have lastMember : (second :: later).getLast (by simp) ∈ second :: later :=
              List.getLast_mem _
            have differ := key_ne frontDistinct (Or.inr lastMember)
            rw [List.getLast?_append_cons, List.getLast?_eq_some_getLast (by simp),
              List.getLast_cons (by simp)]
            simpa using Ne.symm differ
          have notNext : some (key first) ≠ back.head?.map key := by
            cases next : back.head? with
            | none => simp
            | some following =>
              simp only [List.map_append, List.map_cons, List.nodup_append] at distinct
              have apart := distinct.2.2 (key first) (by simp) (key following)
                (List.mem_cons_of_mem _ (List.mem_map.mpr ⟨following, List.mem_of_head? next, rfl⟩))
              simpa using apart
          rw [if_neg notPrior, if_neg notNext, old]
          simp
  · refine List.Nodup.sublist ?_ distinct
    simp
  · simp only [Intrusive.unlink, stored]
    cases front with
    | nil => cases back <;> simp
    | cons first rest =>
      rw [List.getLast?_eq_some_getLast (by simp)]
      cases back <;> simp [spans.head]
  · simp only [Intrusive.unlink, stored]
    cases back with
    | nil => simp
    | cons second others =>
      have tail := spans.tail
      rw [List.getLast?_append_cons, List.getLast?_cons_cons] at tail
      rw [List.getLast?_append_cons]
      cases front.getLast? <;> simp [tail]

/-- Rewriting a spanned node's payload under the same key rewrites its item. -/
theorem replace {front back : List α} {item image : α}
    (spans : Spans key heap owner ends (front ++ item :: back)) (same : key image = key item) :
    Spans key (update (key item) (fun node => { node with payload := image }) heap) owner ends
      (front ++ image :: back) := by
  have stored := spans.linked front item back rfl
  constructor
  · intro ahead middle behind split
    rw [getElem?_update]
    rcases List.append_eq_append_iff.mp split with ⟨gap, rfl, rest⟩ | ⟨gap, rfl, rest⟩
    · cases gap with
      | nil =>
        obtain ⟨rfl, rfl⟩ : image = middle ∧ back = behind := by simpa using rest
        simp [same, stored]
      | cons first others =>
        obtain ⟨rfl, rfl⟩ : image = first ∧ back = others ++ middle :: behind := by
          simpa using rest
        have old := spans.linked (front ++ item :: others) middle behind (by simp)
        have own : key middle ≠ key item := key_ne spans.distinct (Or.inr (by simp))
        rw [if_neg own, old]
        rw [List.getLast?_append_cons, List.getLast?_append_cons]
        cases others with
        | nil => simp [same]
        | cons second others => simp [List.getLast?_cons_cons]
    · cases gap with
      | nil =>
        obtain ⟨rfl, rfl⟩ : middle = image ∧ behind = back := by simpa using rest
        simp only [List.append_nil] at stored
        simp [same, stored]
      | cons first others =>
        obtain ⟨rfl, rfl⟩ : middle = first ∧ behind = others ++ image :: back := by
          simpa using rest
        have old := spans.linked ahead middle (others ++ item :: back) (by simp)
        have own : key middle ≠ key item := key_ne spans.distinct (Or.inl (by simp))
        rw [if_neg own, old]
        cases others with
        | nil => simp [same]
        | cons second others => simp
  · have distinct := spans.distinct
    simpa [same] using distinct
  · rw [spans.head]
    cases front <;> simp [same]
  · rw [spans.tail, List.getLast?_append_cons, List.getLast?_append_cons]
    cases back with
    | nil => simp [same]
    | cons second others => simp [List.getLast?_cons_cons]

end Spans

end AtlasLob.Intrusive
