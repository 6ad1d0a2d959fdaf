import Mathlib

/-!
# Indexes

A map indexes a list of entries when it answers exactly with them. Inserting a fresh key adds one
entry and erasing keys removes the entries under them, so a directory that is maintained by
insertions and removals can be compared with the list it stands for.
-/

namespace AtlasLob.Index

variable {κ ν : Type} [Ord κ] [Std.TransOrd κ] {map : Std.ExtTreeMap κ ν compare}
  {entries : List (κ × ν)}

/-- A map answers exactly with the entries of a list. -/
def Indexes (map : Std.ExtTreeMap κ ν compare) (entries : List (κ × ν)) : Prop :=
  ∀ key value, map[key]? = some value ↔ (key, value) ∈ entries

/-- Only the entries matter, not their order. -/
theorem Indexes.congr {others : List (κ × ν)} (indexes : Indexes map entries)
    (same : ∀ entry, entry ∈ entries ↔ entry ∈ others) : Indexes map others :=
  fun key value => (indexes key value).trans (same (key, value))

/-- A key without an entry is not contained. -/
theorem Indexes.contains (indexes : Indexes map entries) {key : κ}
    (fresh : key ∉ entries.map Prod.fst) : map.contains key = false := by
  rw [Std.ExtTreeMap.contains_eq_isSome_getElem?, Option.isSome_eq_false_iff,
    Option.isNone_iff_eq_none]
  cases found : map[key]? with
  | none => rfl
  | some value => exact absurd (List.mem_map.mpr ⟨_, (indexes key value).mp found, rfl⟩) fresh

variable [DecidableEq κ] {α : Type} {items : List α} {key : α → κ}

omit [Ord κ] [Std.TransOrd κ] in
/-- With distinct keys, a search finds exactly the items of the list. -/
theorem find?_key_iff (distinct : (items.map key).Nodup) {item : α} {searched : κ} :
    items.find? (fun other => key other = searched) = some item ↔
      item ∈ items ∧ key item = searched := by
  constructor
  · intro found
    exact ⟨List.mem_of_find?_eq_some found, by simpa using List.find?_some found⟩
  · rintro ⟨member, rfl⟩
    cases found : items.find? fun other => key other = key item with
    | none =>
      have missed := List.find?_eq_none.mp found item member
      simp at missed
    | some other =>
      have same : key other = key item := by simpa using List.find?_some found
      rw [List.inj_on_of_nodup_map distinct (List.mem_of_find?_eq_some found) member same]

/-- A map indexes items with distinct keys exactly when it answers like a search. -/
theorem indexes_map_iff {value : α → ν} (distinct : (items.map key).Nodup) :
    Indexes map (items.map fun item => (key item, value item)) ↔
      ∀ searched, map[searched]? =
        (items.find? fun item => key item = searched).map value := by
  have searches : ∀ searched found,
      (searched, found) ∈ items.map (fun item => (key item, value item)) ↔
        (items.find? fun item => key item = searched).map value = some found := by
    intro searched found
    rw [Option.map_eq_some_iff, List.mem_map]
    constructor
    · rintro ⟨item, member, same⟩
      obtain ⟨rfl, rfl⟩ := Prod.mk.inj same
      exact ⟨item, (find?_key_iff distinct).mpr ⟨member, rfl⟩, rfl⟩
    · rintro ⟨item, rests, rfl⟩
      obtain ⟨member, rfl⟩ := (find?_key_iff distinct).mp rests
      exact ⟨item, member, rfl⟩
  constructor
  · intro indexes searched
    refine Option.ext fun found => ?_
    rw [indexes, searches]
  · intro answers searched found
    rw [answers, searches]

variable [Std.LawfulEqOrd κ]

omit [DecidableEq κ] in
/-- A fresh key adds its entry. -/
theorem Indexes.insert (indexes : Indexes map entries) {key : κ} (value : ν)
    (fresh : key ∉ entries.map Prod.fst) :
    Indexes (map.insert key value) ((key, value) :: entries) := by
  intro other found
  rw [Std.ExtTreeMap.getElem?_insert]
  by_cases same : key = other
  · subst same
    have absent : ∀ held, (key, held) ∉ entries := fun held inside =>
      fresh (List.mem_map.mpr ⟨_, inside, rfl⟩)
    simp [absent, eq_comm]
  · have apart : compare key other ≠ .eq := fun equal => same (Std.LawfulEqCmp.eq_of_compare equal)
    have different : (other, found) ≠ (key, value) := fun equal => same (Prod.mk.inj equal).1.symm
    rw [if_neg apart, indexes, List.mem_cons, or_iff_right different]

/-- Erasing a key removes its entries. -/
theorem Indexes.erase (indexes : Indexes map entries) (key : κ) :
    Indexes (map.erase key) (entries.filter fun entry => entry.1 ≠ key) := by
  intro other found
  rw [Std.ExtTreeMap.getElem?_erase]
  by_cases same : key = other
  · subst same
    simp
  · have apart : compare key other ≠ .eq := fun equal => same (Std.LawfulEqCmp.eq_of_compare equal)
    rw [if_neg apart, indexes, List.mem_filter]
    simp [Ne.symm same]

end AtlasLob.Index
