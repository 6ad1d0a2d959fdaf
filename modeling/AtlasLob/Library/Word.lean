import Mathlib

/-!
# Checked arithmetic on machine words

Sums and differences of 64-bit words that refuse instead of wrapping, with their exact
natural-number readings. Every later argument about aggregates, residuals and counters goes
through these readings and never through the wrapping operations themselves.
-/

namespace AtlasLob.Word

/-- The greatest 64-bit word. -/
def max64 : UInt64 := 0xFFFFFFFFFFFFFFFF

/-- Whether a count is the greatest 64-bit word. -/
@[irreducible] def atMax64 (count : Nat) : Bool := decide (count = 2 ^ 64 - 1)

/-- A count short of the greatest word is not the greatest word. -/
theorem atMax64_of_lt {count : Nat} (below : count < 2 ^ 64 - 1) : atMax64 count = false := by
  rw [atMax64, decide_eq_false_iff_not]
  omega

/-- The natural reading of the greatest word. -/
@[simp] theorem max64_toNat : max64.toNat = 2 ^ 64 - 1 := rfl

/-- Every word is at most the greatest one. -/
theorem le_max64 (word : UInt64) : word.toNat ≤ 2 ^ 64 - 1 := by
  have bound := word.toNat_lt
  omega

/-- Equal natural readings are equal words. -/
theorem eq_of_toNat {left right : UInt64} (same : left.toNat = right.toNat) : left = right :=
  UInt64.toNat_inj.mp same

/-- A word is zero exactly when its reading is. -/
theorem eq_zero_iff {word : UInt64} : word = 0 ↔ word.toNat = 0 :=
  ⟨fun zero => by rw [zero]; rfl, fun zero => eq_of_toNat zero⟩

/-- A nonzero word has a positive reading. -/
theorem toNat_pos {word : UInt64} (nonzero : word ≠ 0) : 0 < word.toNat := by
  have := mt eq_zero_iff.mpr nonzero
  omega

/-- Addition that refuses to wrap. The guard compares readings, so that no conversion counts
through a word. -/
@[irreducible] def checkedAdd (left right : UInt64) : Option UInt64 :=
  if right.toNat > max64.toNat - left.toNat then none else some (left + right)

/-- Subtraction that refuses to wrap. -/
@[irreducible] def checkedSubtract (left right : UInt64) : Option UInt64 :=
  if right > left then none else some (left - right)

/-- A sum that fits has its natural reading. -/
theorem toNat_add_of_fits {left right : UInt64} (fits : left.toNat + right.toNat < 2 ^ 64) :
    (left + right).toNat = left.toNat + right.toNat := by
  rw [UInt64.toNat_add, Nat.mod_eq_of_lt fits]

/-- A sum that fits is accepted. -/
theorem checkedAdd_of_fits {left right : UInt64} (fits : left.toNat + right.toNat < 2 ^ 64) :
    checkedAdd left right = some (left + right) := by
  rw [checkedAdd, if_neg]
  rw [max64_toNat]
  omega

/-- A sum that does not fit is refused. -/
theorem checkedAdd_of_overflow {left right : UInt64}
    (overflow : 2 ^ 64 ≤ left.toNat + right.toNat) : checkedAdd left right = none := by
  rw [checkedAdd, if_pos]
  have bound := left.toNat_lt
  rw [max64_toNat]
  omega

/-- A difference from a larger word is accepted. -/
theorem checkedSubtract_of_le {left right : UInt64} (ordered : right.toNat ≤ left.toNat) :
    checkedSubtract left right = some (left - right) := by
  rw [checkedSubtract, if_neg]
  rw [gt_iff_lt, UInt64.lt_iff_toNat_lt]
  omega

/-- A difference from a larger word has its natural reading. -/
theorem toNat_sub_of_toNat_le {left right : UInt64} (ordered : right.toNat ≤ left.toNat) :
    (left - right).toNat = left.toNat - right.toNat :=
  UInt64.toNat_sub_of_le _ _ (UInt64.le_iff_toNat_le.mpr ordered)

/-- The smaller of two words has the smaller reading. -/
theorem toNat_min (left right : UInt64) : (min left right).toNat = min left.toNat right.toNat := by
  rw [show min left right = if left ≤ right then left else right from rfl]
  by_cases ordered : left ≤ right
  · rw [if_pos ordered, Nat.min_eq_left (UInt64.le_iff_toNat_le.mp ordered)]
  · rw [if_neg ordered]
    rw [UInt64.le_iff_toNat_le] at ordered
    omega

/-- What is left of a word after taking at most another. -/
theorem toNat_sub_min (left right : UInt64) :
    (left - min left right).toNat = left.toNat - min left.toNat right.toNat := by
  rw [toNat_sub_of_toNat_le] <;> rw [toNat_min]
  omega

/-- What is left of the other word after the same taking. -/
theorem toNat_sub_min_right (left right : UInt64) :
    (right - min left right).toNat = right.toNat - min left.toNat right.toNat := by
  rw [toNat_sub_of_toNat_le] <;> rw [toNat_min]
  omega

/-- Taking the smaller of two nonzero words takes something. -/
theorem min_ne_zero {left right : UInt64} (first : left ≠ 0) (second : right ≠ 0) :
    min left right ≠ 0 := by
  have hl := toNat_pos first
  have hr := toNat_pos second
  rw [ne_eq, eq_zero_iff, toNat_min]
  omega

end AtlasLob.Word
