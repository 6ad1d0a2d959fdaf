import AtlasLob.Library.IntrusiveList

/-!
# What list operations leave alone

List operations write links and owners and never look at payloads, and they change the owner of
one node only.
-/

namespace AtlasLob.Intrusive

variable {κ α ρ : Type} [Ord κ] [Std.TransOrd κ]

/-- Two writes to one node are one. -/
theorem update_update [DecidableEq κ] [Std.LawfulEqOrd κ] (heap : Heap κ α ρ) (key : κ)
    (first second : Node κ α ρ → Node κ α ρ) :
    update key second (update key first heap) =
      update key (fun node => second (first node)) heap := by
  apply Std.ExtTreeMap.ext_getElem?
  intro other
  rw [getElem?_update, getElem?_update, getElem?_update, getElem?_update, if_pos rfl]
  by_cases same : other = key
  · rw [if_pos same, if_pos same, Option.map_map]
    rfl
  · rw [if_neg same, if_neg same, if_neg same]

section Payloads

variable {β : Type} [Std.LawfulEqOrd κ]

/-- The same links around other payloads. -/
def mapPayload (change : κ → α → β) (heap : Heap κ α ρ) : Heap κ β ρ :=
  heap.map fun key node => ⟨change key node.payload, node.previous, node.next, node.owner⟩

/-- A lookup among other payloads. -/
theorem getElem?_mapPayload (change : κ → α → β) (heap : Heap κ α ρ) (key : κ) :
    (mapPayload change heap)[key]? = heap[key]?.map fun node =>
      ⟨change key node.payload, node.previous, node.next, node.owner⟩ :=
  Std.ExtTreeMap.getElem?_map

omit [Std.LawfulEqOrd κ] in
/-- Other payloads are as many. -/
theorem size_mapPayload (change : κ → α → β) (heap : Heap κ α ρ) :
    (mapPayload change heap).size = heap.size :=
  Std.ExtTreeMap.size_map

omit [Std.TransOrd κ] [Std.LawfulEqOrd κ] in
/-- Payloads changed twice are changed once. -/
theorem mapPayload_mapPayload {γ : Type} (first : κ → α → β) (second : κ → β → γ)
    (heap : Heap κ α ρ) : mapPayload second (mapPayload first heap) =
      mapPayload (fun key payload => second key (first key payload)) heap :=
  Std.ExtTreeMap.map_map

/-- Forward links lead the same way around other payloads. -/
theorem follow_next_mapPayload (change : κ → α → β) (heap : Heap κ α ρ) (key : κ) :
    follow Node.next (mapPayload change heap) key = follow Node.next heap key := by
  rw [follow, follow, getElem?_mapPayload]
  cases heap[key]? <;> rfl

/-- Backward links lead the same way around other payloads. -/
theorem follow_previous_mapPayload (change : κ → α → β) (heap : Heap κ α ρ) (key : κ) :
    follow Node.previous (mapPayload change heap) key = follow Node.previous heap key := by
  rw [follow, follow, getElem?_mapPayload]
  cases heap[key]? <;> rfl

/-- Rewriting links before or after changing payloads is the same. -/
theorem mapPayload_update [DecidableEq κ] (change : κ → α → β) (heap : Heap κ α ρ) (key : κ)
    (old : Node κ α ρ → Node κ α ρ) (new : Node κ β ρ → Node κ β ρ)
    (agree : ∀ node, new ⟨change key node.payload, node.previous, node.next, node.owner⟩ =
      ⟨change key (old node).payload, (old node).previous, (old node).next, (old node).owner⟩) :
    mapPayload change (update key old heap) = update key new (mapPayload change heap) := by
  apply Std.ExtTreeMap.ext_getElem?
  intro other
  rw [getElem?_mapPayload, getElem?_update, getElem?_update, getElem?_mapPayload]
  by_cases same : other = key
  · subst same
    rw [if_pos rfl, if_pos rfl]
    cases heap[other]? with
    | none => rfl
    | some node => exact congrArg some (agree node).symm
  · rw [if_neg same, if_neg same, getElem?_mapPayload]

/-- A forward link is written the same way around other payloads. -/
theorem mapPayload_setNext [DecidableEq κ] (change : κ → α → β) (heap : Heap κ α ρ) (key : κ)
    (next : Option κ) :
    mapPayload change (update key (fun node => { node with next := next }) heap) =
      update key (fun node => { node with next := next }) (mapPayload change heap) :=
  mapPayload_update change heap key _ _ fun _ => rfl

/-- A backward link is written the same way around other payloads. -/
theorem mapPayload_setPrevious [DecidableEq κ] (change : κ → α → β) (heap : Heap κ α ρ) (key : κ)
    (previous : Option κ) :
    mapPayload change (update key (fun node => { node with previous := previous }) heap) =
      update key (fun node => { node with previous := previous }) (mapPayload change heap) :=
  mapPayload_update change heap key _ _ fun _ => rfl

/-- Links and owner together are written the same way around other payloads. -/
theorem mapPayload_setLinks [DecidableEq κ] (change : κ → α → β) (heap : Heap κ α ρ) (key : κ)
    (previous next : Option κ) (owner : Option ρ) :
    mapPayload change (update key (fun node =>
        { node with previous := previous, next := next, owner := owner }) heap) =
      update key (fun node =>
        { node with previous := previous, next := next, owner := owner })
          (mapPayload change heap) :=
  mapPayload_update change heap key _ _ fun _ => rfl

/-- Linking a node behind the tail sees no payload. -/
theorem mapPayload_pushBack [DecidableEq κ] (change : κ → α → β) (owner : ρ) (key : κ)
    (heap : Heap κ α ρ) (ends : Ends κ) :
    mapPayload change (pushBack owner key heap ends).1 =
      (pushBack owner key (mapPayload change heap) ends).1 ∧
    (pushBack owner key heap ends).2 = (pushBack owner key (mapPayload change heap) ends).2 := by
  unfold pushBack
  cases ends.tail with
  | none => exact ⟨mapPayload_setLinks change heap key none none (some owner), rfl⟩
  | some last => simp only [mapPayload_setNext, mapPayload_setLinks, and_self]

/-- Taking a node out sees no payload. -/
theorem mapPayload_unlink [DecidableEq κ] (change : κ → α → β) (key : κ) (heap : Heap κ α ρ)
    (ends : Ends κ) :
    mapPayload change (unlink key heap ends).1 = (unlink key (mapPayload change heap) ends).1 ∧
    (unlink key heap ends).2 = (unlink key (mapPayload change heap) ends).2 := by
  unfold unlink
  rw [getElem?_mapPayload]
  cases heap[key]? with
  | none => exact ⟨rfl, rfl⟩
  | some node =>
    obtain ⟨payload, previous, next, owner⟩ := node
    cases previous with
    | none =>
      cases next with
      | none => exact ⟨mapPayload_setLinks change heap key none none none, rfl⟩
      | some behind =>
        simp only [Option.map_some, mapPayload_setPrevious, mapPayload_setLinks, and_self]
    | some before =>
      cases next with
      | none => simp only [Option.map_some, mapPayload_setNext, mapPayload_setLinks, and_self]
      | some behind =>
        simp only [Option.map_some, mapPayload_setNext, mapPayload_setPrevious,
          mapPayload_setLinks, and_self]

/-- A list spanned around its payloads is spanned around others that keep the keys. -/
theorem Spans.mapPayload {key : α → κ} {image : β → κ} {change : κ → α → β} {heap : Heap κ α ρ}
    {owner : ρ} {ends : Ends κ} {items : List α} (spans : Spans key heap owner ends items)
    (keeps : ∀ item, image (change (key item) item) = key item) :
    Spans image (Intrusive.mapPayload change heap) owner ends
      (items.map fun item => change (key item) item) := by
  have keys : ∀ part : List α,
      (part.map fun item => change (key item) item).map image = part.map key := by
    intro part
    rw [List.map_map]
    exact List.map_congr_left fun item _ => keeps item
  constructor
  · intro front value back split
    obtain ⟨before, rest, rfl, rfl, later⟩ := List.map_eq_append_iff.mp split
    obtain ⟨item, behind, rfl, rfl, rfl⟩ := List.map_eq_cons_iff.mp later
    rw [keeps, getElem?_mapPayload, spans.linked before item behind rfl, Option.map_some,
      ← List.getLast?_map, ← List.getLast?_map, ← List.head?_map, ← List.head?_map, keys, keys]
  · rw [keys]
    exact spans.distinct
  · rw [spans.head, ← List.head?_map, ← List.head?_map, keys]
  · rw [spans.tail, ← List.getLast?_map, ← List.getLast?_map, keys]

end Payloads

section Owners

variable [DecidableEq κ] [Std.LawfulEqOrd κ]

/-- The list that the node under a key says it belongs to. -/
def ownerAt (heap : Heap κ α ρ) (key : κ) : Option ρ := heap[key]?.bind Node.owner

/-- Rewriting a node without its owner leaves every owner. -/
theorem ownerAt_update (heap : Heap κ α ρ) (key other : κ) {change : Node κ α ρ → Node κ α ρ}
    (keeps : ∀ node, (change node).owner = node.owner) :
    ownerAt (update key change heap) other = ownerAt heap other := by
  rw [ownerAt, ownerAt, getElem?_update]
  by_cases same : other = key
  · subst same
    rw [if_pos rfl]
    cases heap[other]? with
    | none => rfl
    | some node => exact keeps node
  · rw [if_neg same]

/-- Writing a forward link changes no owner. -/
theorem ownerAt_setNext (heap : Heap κ α ρ) (key other : κ) (next : Option κ) :
    ownerAt (update key (fun node => { node with next := next }) heap) other =
      ownerAt heap other :=
  ownerAt_update heap key other fun _ => rfl

/-- Writing a backward link changes no owner. -/
theorem ownerAt_setPrevious (heap : Heap κ α ρ) (key other : κ) (previous : Option κ) :
    ownerAt (update key (fun node => { node with previous := previous }) heap) other =
      ownerAt heap other :=
  ownerAt_update heap key other fun _ => rfl

/-- Writing links and owner of a node changes no other owner. -/
theorem ownerAt_setLinks (heap : Heap κ α ρ) {key other : κ} (apart : other ≠ key)
    (previous next : Option κ) (owner : Option ρ) :
    ownerAt (update key (fun node =>
        { node with previous := previous, next := next, owner := owner }) heap) other =
      ownerAt heap other := by
  rw [ownerAt, ownerAt, getElem?_update, if_neg apart]

/-- Linking a node behind the tail changes no other owner. -/
theorem ownerAt_pushBack (heap : Heap κ α ρ) (owner : ρ) {key other : κ} (ends : Ends κ)
    (apart : other ≠ key) :
    ownerAt (pushBack owner key heap ends).1 other = ownerAt heap other := by
  unfold pushBack
  cases ends.tail with
  | none => exact ownerAt_setLinks heap apart none none (some owner)
  | some last =>
    simp only
    rw [ownerAt_setNext, ownerAt_setLinks heap apart]

/-- Taking a node out leaves it without an owner. -/
theorem ownerAt_unlink_self (heap : Heap κ α ρ) (key : κ) (ends : Ends κ) :
    ownerAt (unlink key heap ends).1 key = none := by
  have cleared : ∀ heap : Heap κ α ρ, ownerAt (update key (fun node =>
      { node with previous := none, next := none, owner := none }) heap) key = none := by
    intro heap
    rw [ownerAt, getElem?_update, if_pos rfl]
    cases heap[key]? <;> rfl
  unfold unlink
  cases held : heap[key]? with
  | none =>
    show ownerAt heap key = none
    rw [ownerAt, held, Option.bind_none]
  | some node => exact cleared _

/-- Taking a node out changes no other owner. -/
theorem ownerAt_unlink (heap : Heap κ α ρ) {key other : κ} (ends : Ends κ) (apart : other ≠ key) :
    ownerAt (unlink key heap ends).1 other = ownerAt heap other := by
  unfold unlink
  cases heap[key]? with
  | none => rfl
  | some node =>
    obtain ⟨payload, previous, next, owner⟩ := node
    cases previous <;> cases next <;>
      simp only [ownerAt_setLinks _ apart, ownerAt_setNext, ownerAt_setPrevious]

end Owners

end AtlasLob.Intrusive
