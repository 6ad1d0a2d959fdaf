import AtlasLob.Library.SortedMap

/-!
# Renaming ordered maps

The keys of an ordered map are exchanged for other keys and its values are rewritten. A renaming
that tells the stored keys apart commutes with lookup and replacement, and one that also keeps
their order commutes with insertion.
-/

namespace AtlasLob.SortedMap

variable {κ κ₂ ν μ : Type}

/-- Exchange the keys and rewrite the values. -/
def rename (key : κ → κ₂) (value : ν → μ) (entries : List (κ × ν)) : List (κ₂ × μ) :=
  entries.map fun entry => (key entry.1, value entry.2)

@[simp] theorem rename_nil (key : κ → κ₂) (value : ν → μ) : rename key value [] = [] := rfl

@[simp] theorem rename_cons (key : κ → κ₂) (value : ν → μ) (entry : κ × ν)
    (rest : List (κ × ν)) :
    rename key value (entry :: rest) = (key entry.1, value entry.2) :: rename key value rest := rfl

/-- An insertion into a renamed map, where the keys keep their order. -/
theorem rename_insert {key : κ → κ₂} {value : ν → μ} {before : κ → κ → Bool}
    {later : κ₂ → κ₂ → Bool} {stored : κ} {held : ν} {entries : List (κ × ν)}
    (ordered : ∀ other ∈ keys entries, later (key other) (key stored) = before other stored) :
    rename key value (insert before stored held entries) =
      insert later (key stored) (value held) (rename key value entries) := by
  induction entries with
  | nil => rfl
  | cons entry rest ih =>
    have first := ordered entry.1 (by simp)
    have others := ih fun other member => ordered other (by simp [member])
    by_cases earlier : before entry.1 stored
    · rw [insert, if_pos earlier, rename_cons, rename_cons, insert, first, if_pos earlier, others]
    · rw [insert, if_neg earlier, rename_cons, rename_cons, insert, first, if_neg earlier]

variable [DecidableEq κ] [DecidableEq κ₂]

/-- A lookup in a renamed map. -/
theorem find?_rename {key : κ → κ₂} {value : ν → μ} {stored : κ} {entries : List (κ × ν)}
    (apart : ∀ other ∈ keys entries, key other = key stored → other = stored) :
    find? (key stored) (rename key value entries) = (find? stored entries).map value := by
  induction entries with
  | nil => rfl
  | cons entry rest ih =>
    have first := apart entry.1 (by simp)
    have others := ih fun other member => apart other (by simp [member])
    by_cases own : entry.1 = stored
    · simp [find?, own]
    · have renamed : key entry.1 ≠ key stored := fun same => own (first same)
      simp [find?, own, renamed, others]

/-- A replacement in a renamed map. -/
theorem rename_set {key : κ → κ₂} {value : ν → μ} {stored : κ} {held : ν}
    {entries : List (κ × ν)}
    (apart : ∀ other ∈ keys entries, key other = key stored → other = stored) :
    rename key value (set stored held entries) =
      set (key stored) (value held) (rename key value entries) := by
  induction entries with
  | nil => rfl
  | cons entry rest ih =>
    have first := apart entry.1 (by simp)
    have others := ih fun other member => apart other (by simp [member])
    by_cases own : entry.1 = stored
    · simp [set, own]
    · have renamed : key entry.1 ≠ key stored := fun same => own (first same)
      simp [set, own, renamed, others]

end AtlasLob.SortedMap
