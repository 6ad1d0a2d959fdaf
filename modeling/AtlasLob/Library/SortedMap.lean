import Mathlib

/-!
# Ordered maps as association lists

An ordered map is the list of its entries in iteration order. The comparison is a parameter,
so one development serves ascending and descending maps. `mapValues` and `Agree` keep a concrete
map beside the abstract map it represents: the first where the abstract value determines the
concrete one, the second where they are only related.
-/

namespace AtlasLob.SortedMap

variable {κ ν μ : Type}

/-- The keys in iteration order. -/
def keys (entries : List (κ × ν)) : List κ := entries.map Prod.fst

@[simp] theorem keys_nil : keys ([] : List (κ × ν)) = [] := rfl

@[simp] theorem keys_cons (entry : κ × ν) (rest : List (κ × ν)) :
    keys (entry :: rest) = entry.1 :: keys rest := rfl

@[simp] theorem keys_append (left right : List (κ × ν)) :
    keys (left ++ right) = keys left ++ keys right := by
  simp [keys]

/-- An entry puts its key among the keys. -/
theorem mem_keys {key : κ} {value : ν} {entries : List (κ × ν)} (member : (key, value) ∈ entries) :
    key ∈ keys entries :=
  List.mem_map.mpr ⟨_, member, rfl⟩

/-- Insert an absent key at its place in the iteration order. -/
def insert (before : κ → κ → Bool) (key : κ) (value : ν) : List (κ × ν) → List (κ × ν)
  | [] => [(key, value)]
  | (stored, old) :: rest =>
    if before stored key then (stored, old) :: insert before key value rest
    else (key, value) :: (stored, old) :: rest

/-- The keys of an insertion. -/
theorem mem_keys_insert {before : κ → κ → Bool} {key other : κ} {value : ν}
    {entries : List (κ × ν)} :
    other ∈ keys (insert before key value entries) ↔ other = key ∨ other ∈ keys entries := by
  induction entries with
  | nil => simp [insert]
  | cons entry rest ih =>
    obtain ⟨stored, old⟩ := entry
    by_cases earlier : before stored key
    · simp only [insert, earlier, ↓reduceIte, keys_cons, List.mem_cons, ih]
      tauto
    · simp [insert, earlier]

/-- The entries of an insertion. -/
theorem mem_insert {before : κ → κ → Bool} {key : κ} {value : ν} {entry : κ × ν}
    {entries : List (κ × ν)} :
    entry ∈ insert before key value entries ↔ entry = (key, value) ∨ entry ∈ entries := by
  induction entries with
  | nil => simp [insert]
  | cons first rest ih =>
    obtain ⟨stored, old⟩ := first
    by_cases earlier : before stored key
    · simp only [insert, earlier, ↓reduceIte, List.mem_cons, ih]
      tauto
    · simp [insert, earlier]

/-- An inserted entry splits the map at its place. -/
theorem insert_split (before : κ → κ → Bool) (key : κ) (value : ν) (entries : List (κ × ν)) :
    ∃ front back, entries = front ++ back ∧
      insert before key value entries = front ++ (key, value) :: back := by
  induction entries with
  | nil => exact ⟨[], [], rfl, rfl⟩
  | cons entry rest ih =>
    obtain ⟨stored, old⟩ := entry
    by_cases earlier : before stored key
    · obtain ⟨front, back, split, inserted⟩ := ih
      exact ⟨(stored, old) :: front, back, by simp [split], by simp [insert, earlier, inserted]⟩
    · exact ⟨[], (stored, old) :: rest, rfl, by simp [insert, earlier]⟩

/-- A comparison that orders any two different keys. -/
structure StrictOrder (before : κ → κ → Bool) : Prop where
  /-- No key precedes itself. -/
  irrefl : ∀ key, before key key = false
  /-- Precedence composes. -/
  trans : ∀ {first second third}, before first second = true → before second third = true →
    before first third = true
  /-- Different keys are ordered one way or the other. -/
  total : ∀ {left right}, left ≠ right → before left right = false → before right left = true

/-- Entries in iteration order: every key strictly precedes the later ones. -/
def Sorted (before : κ → κ → Bool) (entries : List (κ × ν)) : Prop :=
  (keys entries).Pairwise fun left right => before left right = true

section Sorted

variable {before : κ → κ → Bool} {entries : List (κ × ν)}

/-- Sorted maps have distinct keys. -/
theorem Sorted.nodup (order : StrictOrder before) (sorted : Sorted before entries) :
    (keys entries).Nodup := by
  refine List.Pairwise.imp ?_ sorted
  intro left right precedes same
  subst same
  rw [order.irrefl] at precedes
  contradiction

/-- Inserting an absent key keeps the order. -/
theorem Sorted.insert (order : StrictOrder before) (sorted : Sorted before entries) {key : κ}
    (value : ν) (absent : key ∉ keys entries) :
    Sorted before (SortedMap.insert before key value entries) := by
  induction entries with
  | nil => simp [SortedMap.insert, Sorted]
  | cons entry rest ih =>
    obtain ⟨stored, old⟩ := entry
    simp only [Sorted, keys_cons, List.pairwise_cons] at sorted
    simp only [keys_cons, List.mem_cons, not_or] at absent
    by_cases earlier : before stored key
    · simp only [SortedMap.insert, earlier, ↓reduceIte, Sorted, keys_cons, List.pairwise_cons]
      refine ⟨?_, ih sorted.2 absent.2⟩
      intro other member
      rcases mem_keys_insert.mp member with rfl | inside
      · exact earlier
      · exact sorted.1 _ inside
    · have later := order.total (Ne.symm absent.1) (Bool.not_eq_true _ ▸ earlier)
      simp only [SortedMap.insert, earlier, Bool.false_eq_true, ↓reduceIte, Sorted, keys_cons,
        List.pairwise_cons, List.mem_cons, forall_eq_or_imp]
      exact ⟨⟨later, fun other member => order.trans later (sorted.1 _ member)⟩, sorted⟩

end Sorted

/-- The map with every value rewritten under its key. -/
def mapValues (image : κ → ν → μ) (entries : List (κ × ν)) : List (κ × μ) :=
  entries.map fun entry => (entry.1, image entry.1 entry.2)

@[simp] theorem mapValues_nil (image : κ → ν → μ) : mapValues image [] = [] := rfl

@[simp] theorem mapValues_cons (image : κ → ν → μ) (entry : κ × ν) (rest : List (κ × ν)) :
    mapValues image (entry :: rest) = (entry.1, image entry.1 entry.2) :: mapValues image rest :=
  rfl

@[simp] theorem mapValues_append (image : κ → ν → μ) (left right : List (κ × ν)) :
    mapValues image (left ++ right) = mapValues image left ++ mapValues image right := by
  simp [mapValues]

@[simp] theorem keys_mapValues (image : κ → ν → μ) (entries : List (κ × ν)) :
    keys (mapValues image entries) = keys entries := by
  simp [keys, mapValues]

/-- Rewriting values commutes with an insertion. -/
theorem mapValues_insert (image : κ → ν → μ) (before : κ → κ → Bool) (key : κ) (value : ν)
    (entries : List (κ × ν)) :
    mapValues image (insert before key value entries) =
      insert before key (image key value) (mapValues image entries) := by
  induction entries with
  | nil => rfl
  | cons entry rest ih =>
    obtain ⟨stored, old⟩ := entry
    by_cases earlier : before stored key <;> simp [insert, earlier, ih]

section Agree

variable (related : κ → ν → μ → Prop)

/-- Two maps with the same keys in the same order and related values. -/
def Agree (left : List (κ × ν)) (right : List (κ × μ)) : Prop :=
  List.Forall₂ (fun first second => first.1 = second.1 ∧ related first.1 first.2 second.2)
    left right

variable {related} {left : List (κ × ν)} {right : List (κ × μ)}

/-- The empty maps agree. -/
theorem Agree.nil : Agree related [] [] := List.Forall₂.nil

/-- One more entry under the same key with related values. -/
theorem Agree.cons {key : κ} {value : ν} {image : μ} (values : related key value image)
    (rest : Agree related left right) :
    Agree related ((key, value) :: left) ((key, image) :: right) :=
  List.Forall₂.cons ⟨rfl, values⟩ rest

/-- Agreeing maps have the same keys. -/
theorem Agree.keys_eq (agree : Agree related left right) : keys left = keys right := by
  induction agree with
  | nil => rfl
  | cons head _ ih => simp [head.1, ih]

/-- Related insertions keep agreement. -/
theorem Agree.insert (agree : Agree related left right) (before : κ → κ → Bool) {key : κ}
    {value : ν} {image : μ} (values : related key value image) :
    Agree related (SortedMap.insert before key value left)
      (SortedMap.insert before key image right) := by
  induction agree with
  | nil => exact Agree.cons values Agree.nil
  | @cons first second firsts seconds head tail ih =>
    obtain ⟨stored, old⟩ := first
    obtain ⟨other, oldImage⟩ := second
    obtain ⟨same, kept⟩ := head
    simp only at same kept
    subst same
    by_cases earlier : before stored key
    · simpa [SortedMap.insert, earlier] using Agree.cons kept ih
    · simpa [SortedMap.insert, earlier] using Agree.cons values (Agree.cons kept tail)

/-- Images of related entries make equal lists. -/
theorem Agree.map_eq {image : Type*} (agree : Agree related left right) {first : κ × ν → image}
    {second : κ × μ → image}
    (same : ∀ key value other, related key value other → first (key, value) = second (key, other)) :
    left.map first = right.map second := by
  induction agree with
  | nil => rfl
  | @cons one two ones twos head _ ih =>
    obtain ⟨stored, value⟩ := one
    obtain ⟨key, other⟩ := two
    obtain ⟨equal, values⟩ := head
    simp only at equal values
    subst equal
    rw [List.map_cons, List.map_cons, same _ _ _ values, ih]

/-- A map is determined by a map it agrees with when the relation determines the values. -/
theorem Agree.unique {other : List (κ × ν)} (agree : Agree related left right)
    (also : Agree related other right)
    (determines : ∀ key value again image, related key value image → related key again image →
      value = again) : left = other := by
  induction agree generalizing other with
  | nil =>
    cases also
    rfl
  | @cons first second firsts seconds head tail ih =>
    cases also with
    | @cons third _ thirds _ same rest =>
      obtain ⟨stored, value⟩ := first
      obtain ⟨kept, again⟩ := third
      obtain ⟨key, image⟩ := second
      obtain ⟨rfl, values⟩ := head
      obtain ⟨rfl, others⟩ := same
      rw [determines _ value again image values others, ih rest]

/-- Agreement follows the relation on the entries. -/
theorem Agree.imp {other : κ → ν → μ → Prop} (agree : Agree related left right)
    (weaken : ∀ key value image, (key, value) ∈ left → (key, image) ∈ right →
      related key value image → other key value image) : Agree other left right := by
  induction agree with
  | nil => exact Agree.nil
  | @cons first second firsts seconds head tail ih =>
    obtain ⟨stored, value⟩ := first
    obtain ⟨key, image⟩ := second
    obtain ⟨same, values⟩ := head
    simp only at same values
    subst same
    refine Agree.cons (weaken _ _ _ (by simp) (by simp) values) (ih ?_)
    intro key value image inLeft inRight
    exact weaken key value image (by simp [inLeft]) (by simp [inRight])

end Agree

variable [DecidableEq κ]

/-- The value stored under a key. -/
def find? (key : κ) : List (κ × ν) → Option ν
  | [] => none
  | (stored, value) :: rest => if stored = key then some value else find? key rest

/-- Replace the value stored under a key; every other entry keeps its place. -/
def set (key : κ) (value : ν) : List (κ × ν) → List (κ × ν)
  | [] => []
  | (stored, old) :: rest =>
    if stored = key then (stored, value) :: rest else (stored, old) :: set key value rest

/-- Remove the entry stored under a key. -/
def erase (key : κ) : List (κ × ν) → List (κ × ν)
  | [] => []
  | (stored, value) :: rest =>
    if stored = key then rest else (stored, value) :: erase key rest

/-- A key without an entry is not found. -/
theorem find?_eq_none {key : κ} {entries : List (κ × ν)} :
    find? key entries = none ↔ key ∉ keys entries := by
  induction entries with
  | nil => simp [find?]
  | cons entry rest ih =>
    obtain ⟨stored, value⟩ := entry
    by_cases same : stored = key
    · simp [find?, same]
    · simp [find?, same, ih, Ne.symm same]

/-- The entry that answers a lookup, with no earlier entry under its key. -/
theorem find?_split {key : κ} {value : ν} {entries : List (κ × ν)}
    (found : find? key entries = some value) :
    ∃ front back, entries = front ++ (key, value) :: back ∧ key ∉ keys front := by
  induction entries with
  | nil => simp [find?] at found
  | cons entry rest ih =>
    obtain ⟨stored, old⟩ := entry
    by_cases same : stored = key
    · simp only [find?, same, ↓reduceIte, Option.some.injEq] at found
      exact ⟨[], rest, by simp [same, found], by simp⟩
    · simp only [find?, same, ↓reduceIte] at found
      obtain ⟨front, back, split, absent⟩ := ih found
      exact ⟨(stored, old) :: front, back, by simp [split], by simp [absent, Ne.symm same]⟩

section Split

variable {key : κ} {value : ν} {front back : List (κ × ν)}

/-- A lookup reads the first entry under its key. -/
theorem find?_append (absent : key ∉ keys front) :
    find? key (front ++ (key, value) :: back) = some value := by
  induction front with
  | nil => simp [find?]
  | cons entry rest ih =>
    obtain ⟨stored, old⟩ := entry
    simp only [keys_cons, List.mem_cons, not_or] at absent
    simp [find?, Ne.symm absent.1, ih absent.2]

/-- A replacement changes exactly the entry a lookup reads. -/
theorem set_append (next : ν) (absent : key ∉ keys front) :
    set key next (front ++ (key, value) :: back) = front ++ (key, next) :: back := by
  induction front with
  | nil => simp [set]
  | cons entry rest ih =>
    obtain ⟨stored, old⟩ := entry
    simp only [keys_cons, List.mem_cons, not_or] at absent
    simp [set, Ne.symm absent.1, ih absent.2]

/-- A removal drops exactly the entry a lookup reads. -/
theorem erase_append (absent : key ∉ keys front) :
    erase key (front ++ (key, value) :: back) = front ++ back := by
  induction front with
  | nil => simp [erase]
  | cons entry rest ih =>
    obtain ⟨stored, old⟩ := entry
    simp only [keys_cons, List.mem_cons, not_or] at absent
    simp [erase, Ne.symm absent.1, ih absent.2]

end Split

/-- A lookup answers with an entry of the map. -/
theorem mem_of_find? {key : κ} {value : ν} {entries : List (κ × ν)}
    (found : find? key entries = some value) : (key, value) ∈ entries := by
  obtain ⟨front, back, split, -⟩ := find?_split found
  simp [split]

/-- With distinct keys every entry is the answer to its own lookup. -/
theorem find?_of_mem {key : κ} {value : ν} {entries : List (κ × ν)}
    (distinct : (keys entries).Nodup) (member : (key, value) ∈ entries) :
    find? key entries = some value := by
  obtain ⟨front, back, rfl⟩ := List.append_of_mem member
  apply find?_append
  simp only [keys_append, keys_cons] at distinct
  intro early
  exact (List.nodup_append.mp distinct).2.2 _ early _ (by simp) rfl

/-- Replacing a value keeps the keys. -/
@[simp] theorem keys_set (key : κ) (value : ν) (entries : List (κ × ν)) :
    keys (set key value entries) = keys entries := by
  induction entries with
  | nil => rfl
  | cons entry rest ih =>
    obtain ⟨stored, old⟩ := entry
    by_cases same : stored = key
    · simp [set, same]
    · simp [set, same, ih]

/-- Removing an entry leaves a sublist of the keys. -/
theorem keys_erase_sublist (key : κ) (entries : List (κ × ν)) :
    (keys (erase key entries)).Sublist (keys entries) := by
  induction entries with
  | nil => simp [erase]
  | cons entry rest ih =>
    obtain ⟨stored, old⟩ := entry
    by_cases same : stored = key
    · simp [erase, same]
    · simpa [erase, same] using ih

/-- A replacement is read back under its own key and nowhere else. -/
theorem find?_set {key other : κ} {value old : ν} {entries : List (κ × ν)}
    (found : find? key entries = some old) :
    find? other (set key value entries) =
      if other = key then some value else find? other entries := by
  induction entries with
  | nil => simp [find?] at found
  | cons entry rest ih =>
    obtain ⟨stored, kept⟩ := entry
    by_cases same : stored = key
    · by_cases asked : other = key
      · simp [set, find?, same, asked]
      · simp [set, find?, same, asked, Ne.symm asked]
    · simp only [find?, same, ↓reduceIte] at found
      by_cases here : stored = other
      · have differ : other ≠ key := fun eq => same (here.trans eq)
        simp [set, find?, here, differ]
      · simp [set, find?, same, here, ih found]

section Sorted

variable {before : κ → κ → Bool} {entries : List (κ × ν)}

/-- Replacing a value keeps the order. -/
theorem Sorted.set (sorted : Sorted before entries) (key : κ) (value : ν) :
    Sorted before (SortedMap.set key value entries) := by
  rw [Sorted, keys_set]
  exact sorted

/-- Removing an entry keeps the order. -/
theorem Sorted.erase (sorted : Sorted before entries) (key : κ) :
    Sorted before (SortedMap.erase key entries) :=
  List.Pairwise.sublist (keys_erase_sublist key entries) sorted

end Sorted

/-- A lookup after an insertion of an absent key. -/
theorem find?_insert {before : κ → κ → Bool} {key other : κ} {value : ν}
    {entries : List (κ × ν)} (absent : key ∉ keys entries) :
    find? other (insert before key value entries) =
      if other = key then some value else find? other entries := by
  obtain ⟨front, back, rfl, inserted⟩ := insert_split before key value entries
  rw [inserted]
  simp only [keys_append, List.mem_append, not_or] at absent
  have shift : ∀ front : List (κ × ν), key ∉ keys front →
      find? other (front ++ (key, value) :: back) =
        if other = key then some value else find? other (front ++ back) := by
    intro front
    induction front with
    | nil =>
      intro _
      by_cases same : key = other
      · simp [find?, same]
      · simp [find?, same, Ne.symm same]
    | cons entry rest ih =>
      intro missing
      obtain ⟨stored, old⟩ := entry
      simp only [keys_cons, List.mem_cons, not_or] at missing
      by_cases here : stored = other
      · have differ : other ≠ key := fun eq => missing.1 (eq.symm.trans here.symm)
        simp [find?, here, differ]
      · simp [find?, here, ih missing.2]
  exact shift front absent.1

/-- A lookup in a concatenation prefers the first part. -/
theorem find?_append_or (key : κ) (front back : List (κ × ν)) :
    find? key (front ++ back) = (find? key front).or (find? key back) := by
  induction front with
  | nil => rfl
  | cons entry rest ih =>
    obtain ⟨stored, value⟩ := entry
    by_cases same : stored = key <;> simp [find?, same, ih]

/-- A lookup of a rewritten map. -/
theorem find?_mapValues (image : κ → ν → μ) (key : κ) (entries : List (κ × ν)) :
    find? key (mapValues image entries) = (find? key entries).map (image key) := by
  induction entries with
  | nil => rfl
  | cons entry rest ih =>
    obtain ⟨stored, old⟩ := entry
    by_cases same : stored = key
    · subst same
      simp [find?]
    · simp [find?, same, ih]

/-- Rewriting values commutes with a replacement. -/
theorem mapValues_set (image : κ → ν → μ) (key : κ) (value : ν) (entries : List (κ × ν)) :
    mapValues image (set key value entries) =
      set key (image key value) (mapValues image entries) := by
  induction entries with
  | nil => rfl
  | cons entry rest ih =>
    obtain ⟨stored, old⟩ := entry
    by_cases same : stored = key
    · subst same
      simp [set]
    · simp [set, same, ih]

section AgreeLookup

variable {related : κ → ν → μ → Prop} {left : List (κ × ν)} {right : List (κ × μ)}

/-- Agreeing maps answer a lookup with related values. -/
theorem Agree.find? (agree : Agree related left right) (key : κ) :
    Option.Rel (related key) (SortedMap.find? key left) (SortedMap.find? key right) := by
  induction agree with
  | nil => exact Option.Rel.none
  | @cons first second firsts seconds head _ ih =>
    obtain ⟨stored, value⟩ := first
    obtain ⟨other, image⟩ := second
    obtain ⟨same, values⟩ := head
    simp only at same values
    subst same
    by_cases here : stored = key
    · subst here
      simpa [SortedMap.find?] using Option.Rel.some values
    · simpa [SortedMap.find?, here] using ih

/-- A found value has a related value on the other side. -/
theorem Agree.find?_some (agree : Agree related left right) {key : κ} {value : ν}
    (found : SortedMap.find? key left = some value) :
    ∃ image, SortedMap.find? key right = some image ∧ related key value image := by
  have answers := agree.find? key
  rw [found] at answers
  cases other : SortedMap.find? key right with
  | none => rw [other] at answers; cases answers
  | some image =>
    rw [other] at answers
    cases answers with
    | some values => exact ⟨image, rfl, values⟩

/-- A found image has a related value on the left side. -/
theorem Agree.find?_image (agree : Agree related left right) {key : κ} {image : μ}
    (found : SortedMap.find? key right = some image) :
    ∃ value, SortedMap.find? key left = some value ∧ related key value image := by
  have answers := agree.find? key
  rw [found] at answers
  cases other : SortedMap.find? key left with
  | none => rw [other] at answers; cases answers
  | some value =>
    rw [other] at answers
    cases answers with
    | some values => exact ⟨value, rfl, values⟩

/-- Both sides miss the same keys. -/
theorem Agree.find?_none (agree : Agree related left right) {key : κ} :
    SortedMap.find? key left = none ↔ SortedMap.find? key right = none := by
  rw [find?_eq_none, find?_eq_none, agree.keys_eq]

/-- Related replacements keep agreement. -/
theorem Agree.set (agree : Agree related left right) {key : κ} {value : ν} {image : μ}
    (values : related key value image) :
    Agree related (SortedMap.set key value left) (SortedMap.set key image right) := by
  induction agree with
  | nil => exact Agree.nil
  | @cons first second firsts seconds head tail ih =>
    obtain ⟨stored, old⟩ := first
    obtain ⟨other, oldImage⟩ := second
    obtain ⟨same, kept⟩ := head
    simp only at same kept
    subst same
    by_cases here : stored = key
    · subst here
      simpa [SortedMap.set] using Agree.cons values tail
    · simpa [SortedMap.set, here] using Agree.cons kept ih

/-- Related replacements at one key make any relation that the other keys keep. -/
theorem Agree.set_other {other : κ → ν → μ → Prop} (agree : Agree related left right)
    (distinct : (keys left).Nodup) {key : κ} {value : ν} {image : μ}
    (elsewhere : ∀ stored old oldImage, stored ≠ key → related stored old oldImage →
      other stored old oldImage) (values : other key value image) :
    Agree other (SortedMap.set key value left) (SortedMap.set key image right) := by
  induction agree with
  | nil => exact Agree.nil
  | @cons first second firsts seconds head tail ih =>
    obtain ⟨stored, old⟩ := first
    obtain ⟨same', oldImage⟩ := second
    obtain ⟨same, kept⟩ := head
    simp only at same kept
    subst same
    rw [keys_cons, List.nodup_cons] at distinct
    by_cases here : stored = key
    · subst here
      have rest : Agree other firsts seconds := by
        refine Agree.imp tail fun inner old oldImage inLeft _ related => ?_
        refine elsewhere inner old oldImage ?_ related
        rintro rfl
        exact distinct.1 (mem_keys inLeft)
      simpa [SortedMap.set] using Agree.cons values rest
    · simpa [SortedMap.set, here] using Agree.cons (elsewhere stored old oldImage here kept)
        (ih distinct.2)

/-- Replacing a value by itself. -/
theorem set_self {key : κ} {value : ν} {entries : List (κ × ν)}
    (found : SortedMap.find? key entries = some value) :
    SortedMap.set key value entries = entries := by
  obtain ⟨front, back, rfl, absent⟩ := find?_split found
  rw [set_append _ absent]

/-- Removing one key on both sides keeps agreement. -/
theorem Agree.erase (agree : Agree related left right) (key : κ) :
    Agree related (SortedMap.erase key left) (SortedMap.erase key right) := by
  induction agree with
  | nil => exact Agree.nil
  | @cons first second firsts seconds head tail ih =>
    obtain ⟨stored, old⟩ := first
    obtain ⟨other, oldImage⟩ := second
    obtain ⟨same, kept⟩ := head
    simp only at same kept
    subst same
    by_cases here : stored = key
    · subst here
      simp only [SortedMap.erase, ↓reduceIte]
      exact tail
    · simpa [SortedMap.erase, here] using Agree.cons kept ih

end AgreeLookup

end AtlasLob.SortedMap
