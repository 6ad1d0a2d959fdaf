import Mathlib

/-!
# Summaries of ordered histories

A history is summarised by merging the images of its items, oldest first, under an associative
merge. Summaries of adjacent parts merge to the summary of the whole, so a history may be
summarised in groups and the groups again in larger groups. Where the items are ordered by a key,
the parts are ranges of keys.
-/

namespace AtlasLob.History

section Summaries

variable {α β : Type} (merge : β → β → β) (image : α → β)

/-- The merge of all items, oldest first; none without items. -/
def summary : List α → Option β
  | [] => none
  | item :: rest => Option.merge merge (some (image item)) (summary rest)

@[simp] theorem summary_nil : summary merge image [] = none := rfl

/-- The summary of a longer history. -/
theorem summary_cons (item : α) (rest : List α) :
    summary merge image (item :: rest) =
      Option.merge merge (some (image item)) (summary merge image rest) := rfl

variable [Std.Associative merge]

/-- Adjacent histories are summarised by the merge of their summaries. -/
theorem summary_append (front back : List α) :
    summary merge image (front ++ back) =
      Option.merge merge (summary merge image front) (summary merge image back) := by
  induction front with
  | nil => rw [List.nil_append, summary_nil, Option.merge_none_left]
  | cons item rest ih =>
    rw [List.cons_append, summary_cons, ih, summary_cons]
    exact (Std.Associative.assoc _ _ _).symm

/-- A history grows at its end. -/
theorem summary_snoc (items : List α) (item : α) :
    summary merge image (items ++ [item]) =
      Option.merge merge (summary merge image items) (some (image item)) := by
  rw [summary_append, summary_cons, summary_nil, Option.merge_none_right]

end Summaries

section Ranges

variable {α : Type} {key : α → Int} {items : List α}

/-- Splitting an ordered history by its keys keeps its order. -/
theorem filter_split (ordered : items.Pairwise fun earlier later => key earlier ≤ key later)
    {early late : α → Bool}
    (apart : ∀ first second, early first = true → late second = true → key first < key second) :
    items.filter (fun item => early item || late item) =
      items.filter early ++ items.filter late := by
  induction items with
  | nil => rfl
  | cons item rest ih =>
    rw [List.pairwise_cons] at ordered
    have tail := ih ordered.2
    by_cases first : early item = true
    · have notLate : ¬late item = true :=
        fun second => Int.lt_irrefl _ (apart item item first second)
      rw [List.filter_cons_of_pos (by rw [first, Bool.true_or]), List.filter_cons_of_pos first,
        List.filter_cons_of_neg notLate, tail, List.cons_append]
    · by_cases second : late item = true
      · -- Nothing early comes after a late item.
        have none : rest.filter early = [] := by
          rw [List.filter_eq_nil_iff]
          intro other inside found
          have less := apart other item found second
          have order := ordered.1 other inside
          omega
        rw [List.filter_cons_of_pos (by rw [second, Bool.or_true]),
          List.filter_cons_of_neg first, List.filter_cons_of_pos second, tail, none,
          List.nil_append, List.nil_append]
      · have neither : ¬(early item || late item) = true := by
          rw [Bool.or_eq_true]
          exact fun either => either.elim first second
        rw [List.filter_cons_of_neg first, List.filter_cons_of_neg second, ← tail]
        exact List.filter_cons_of_neg neither

/-- The items of a range of keys. -/
def within (key : α → Int) (first last : Int) (items : List α) : List α :=
  items.filter fun item => first ≤ key item && key item ≤ last

/-- A range of keys is the ranges before and after a place in it. -/
theorem within_split (ordered : items.Pairwise fun earlier later => key earlier ≤ key later)
    {first middle last : Int} (lower : first ≤ middle + 1) (upper : middle ≤ last) :
    within key first last items =
      within key first middle items ++ within key (middle + 1) last items := by
  unfold within
  rw [← filter_split ordered]
  · apply List.filter_congr
    intro item _
    rw [← Bool.decide_and, ← Bool.decide_and, ← Bool.decide_and, ← Bool.decide_or, decide_eq_decide]
    omega
  · intro early late before after
    rw [Bool.and_eq_true, decide_eq_true_eq, decide_eq_true_eq] at before after
    omega

/-- An empty range has no items. -/
theorem within_empty {first last : Int} (empty : last < first) :
    within key first last items = [] := by
  rw [within, List.filter_eq_nil_iff]
  intro item _ inside
  rw [Bool.and_eq_true, decide_eq_true_eq, decide_eq_true_eq] at inside
  omega

/-- A range around every key has all items. -/
theorem within_all {first last : Int}
    (all : ∀ item ∈ items, first ≤ key item ∧ key item ≤ last) :
    within key first last items = items := by
  rw [within, List.filter_eq_self]
  intro item inside
  rw [Bool.and_eq_true, decide_eq_true_eq, decide_eq_true_eq]
  exact all item inside

/-- The range of one key. -/
theorem within_single (place : Int) :
    within key place place items = items.filter fun item => key item = place := by
  apply List.filter_congr
  intro item _
  rw [← Bool.decide_and, decide_eq_decide]
  omega

end Ranges

end AtlasLob.History
