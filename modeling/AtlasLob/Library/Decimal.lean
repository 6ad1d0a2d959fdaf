import Mathlib

/-!
# Decimal text

Integers as their one canonical decimal spelling: the digits of a natural number without a
leading zero, and the same behind a minus sign. The spellings are recognised by the shape of
the text alone, and texts of several fields or several lines can be read back when the separator
does not occur inside them.
-/

namespace AtlasLob.Decimal

/-- The canonical spelling of a natural number. -/
def text (value : Nat) : List Char := Nat.toDigits 10 value

/-- The canonical spelling of an integer. -/
def signedText : Int → List Char
  | .ofNat value => text value
  | .negSucc value => '-' :: text (value + 1)

/-- The value of a text of digits. -/
def value (digits : List Char) : Nat := Nat.ofDigitChars 10 digits 0

/-- The value of a text of digits, behind a minus sign or not. -/
def signedValue : List Char → Int
  | '-' :: digits => -(value digits : Int)
  | digits => value digits

/-- Reading a canonical spelling returns the number. -/
@[simp] theorem value_text (number : Nat) : value (text number) = number :=
  Nat.ofDigitChars_ten_toDigits

/-- A canonical spelling consists of digits. -/
theorem isDigit_of_mem_text {number : Nat} {character : Char} (inside : character ∈ text number) :
    character.isDigit = true :=
  Nat.isDigit_of_mem_toDigits (by decide) (by decide) inside

/-- A canonical spelling is not empty. -/
theorem text_ne_nil (number : Nat) : text number ≠ [] :=
  Nat.toDigits_ne_nil

/-- Different numbers are spelled differently. -/
theorem text_injective {left right : Nat} (same : text left = text right) : left = right := by
  have values : value (text left) = value (text right) := by rw [same]
  rwa [value_text, value_text] at values

/-- A canonical spelling does not begin with a minus sign. -/
theorem text_ne_minus (number : Nat) (rest : List Char) : text number ≠ '-' :: rest := by
  intro same
  have inside : '-' ∈ text number := by
    rw [same]
    exact List.mem_cons_self
  exact absurd (isDigit_of_mem_text inside) (by decide)

/-- Different integers are spelled differently. -/
theorem signedText_injective {left right : Int} (same : signedText left = signedText right) :
    left = right := by
  cases left with
  | ofNat left =>
    cases right with
    | ofNat right => rw [text_injective same]
    | negSucc right => exact absurd same (text_ne_minus left _)
  | negSucc left =>
    cases right with
    | ofNat right => exact absurd same.symm (text_ne_minus right _)
    | negSucc right =>
      have digits : left + 1 = right + 1 := text_injective (List.tail_eq_of_cons_eq same)
      rw [Nat.succ.inj digits]

/-- An integer is spelled with digits and the minus sign. -/
theorem signedText_characters {number : Int} {character : Char}
    (inside : character ∈ signedText number) : character.isDigit = true ∨ character = '-' := by
  cases number with
  | ofNat number => exact Or.inl (isDigit_of_mem_text inside)
  | negSucc number =>
    cases List.mem_cons.mp inside with
    | inl minus => exact Or.inr minus
    | inr digit => exact Or.inl (isDigit_of_mem_text digit)

/-- Reading a canonical spelling of an integer returns it. -/
@[simp] theorem signedValue_signedText (number : Int) :
    signedValue (signedText number) = number := by
  cases number with
  | ofNat number =>
    unfold signedText signedValue
    split
    · next digits same => exact absurd same (text_ne_minus number _)
    · simp only [value_text, Int.ofNat_eq_natCast]
  | negSucc number =>
    show -(value (text (number + 1)) : Int) = _
    rw [value_text]
    rfl

/-- The digit of the value of a digit is the digit. -/
theorem digitChar_sub {character : Char} (digit : character.isDigit = true) :
    Nat.digitChar (character.toNat - 48) = character ∧ character.toNat - 48 < 10 := by
  unfold Char.isDigit at digit
  rw [Bool.and_eq_true, decide_eq_true_iff, decide_eq_true_iff] at digit
  have lower : 48 ≤ character.toNat := digit.1
  have upper : character.toNat ≤ 57 := digit.2
  have same : character = Char.ofNat character.toNat := (Char.ofNat_toNat character).symm
  generalize character.toNat = code at *
  rw [same]
  interval_cases code <;> exact ⟨by decide, by decide⟩

/-- The value of a text with one more digit. -/
theorem value_append_singleton (digits : List Char) (last : Char) :
    value (digits ++ [last]) = 10 * value digits + (last.toNat - 48) := by
  unfold value
  rw [Nat.ofDigitChars_append, Nat.ofDigitChars_cons, Nat.ofDigitChars_nil]
  rfl

/-- A text that begins with a nonzero digit has a positive value. -/
theorem value_pos {first : Char} {rest : List Char} (digit : first.isDigit = true)
    (nonzero : first ≠ '0') : 0 < value (first :: rest) := by
  induction rest using List.reverseRecOn with
  | nil =>
    have same := (digitChar_sub digit).1
    have positive : first.toNat - 48 ≠ 0 := by
      intro none
      rw [none] at same
      exact nonzero same.symm
    show 0 < 10 * 0 + (first.toNat - '0'.toNat)
    have code : '0'.toNat = 48 := rfl
    omega
  | append_singleton digits last ih =>
    rw [← List.cons_append, value_append_singleton]
    omega

/-- Digits without a leading zero are the canonical spelling of their value. -/
theorem text_value {digits : List Char} (filled : digits ≠ [])
    (all : ∀ character ∈ digits, character.isDigit = true)
    (leading : digits = ['0'] ∨ digits.head? ≠ some '0') : text (value digits) = digits := by
  induction digits using List.reverseRecOn with
  | nil => exact absurd rfl filled
  | append_singleton digits last ih =>
    have digit := digitChar_sub (all last (List.mem_append_right _ List.mem_cons_self))
    rw [value_append_singleton]
    cases digits with
    | nil =>
      show text (10 * 0 + (last.toNat - 48)) = [last]
      rw [Nat.mul_zero, Nat.zero_add]
      unfold text
      rw [Nat.toDigits_of_lt_base digit.2, digit.1]
    | cons first rest =>
      have nonzero : first ≠ '0' := by
        rintro rfl
        cases leading with
        | inl single => simp at single
        | inr other => exact other rfl
      have positive := @value_pos first rest
        (all first (List.mem_append_left _ List.mem_cons_self)) nonzero
      have shorter := ih (List.cons_ne_nil _ _)
        (fun character inside => all character (List.mem_append_left _ inside))
        (Or.inr fun same => nonzero (Option.some.inj same))
      unfold text at shorter ⊢
      rw [Nat.toDigits_of_base_le (by decide) (by omega)]
      have quotient : (10 * value (first :: rest) + (last.toNat - 48)) / 10 =
          value (first :: rest) := by omega
      have remainder : (10 * value (first :: rest) + (last.toNat - 48)) % 10 =
          last.toNat - 48 := by omega
      rw [quotient, remainder, shorter, digit.1]

/-- A canonical spelling has no leading zero. -/
theorem text_leading (number : Nat) : text number = ['0'] ∨ (text number).head? ≠ some '0' := by
  induction number using Nat.strongRecOn with
  | _ number ih =>
    unfold text
    by_cases small : number < 10
    · rw [Nat.toDigits_of_lt_base small]
      by_cases none : number = 0
      · exact Or.inl (by rw [none]; rfl)
      · refine Or.inr fun same => none ?_
        have zero : number.digitChar = '0' := Option.some.inj same
        have code : 48 + number = 48 := by
          rw [← Nat.toNat_digitChar_of_lt_ten small, zero]
          rfl
        omega
    · rw [Nat.toDigits_of_base_le (by decide) (by omega)]
      refine Or.inr fun same => ?_
      have quotient := ih (number / 10) (by omega)
      unfold text at quotient
      have filled : Nat.toDigits 10 (number / 10) ≠ [] := Nat.toDigits_ne_nil
      rw [List.head?_append_of_ne_nil _ filled] at same
      cases quotient with
      | inl zero =>
        have value : number / 10 = 0 := text_injective (zero.trans rfl)
        omega
      | inr other => exact other same

/-- The length of a canonical spelling. -/
theorem text_length_le {number digits : Nat} (positive : 0 < digits) :
    (text number).length ≤ digits ↔ number < 10 ^ digits :=
  Nat.length_toDigits_le_iff (by decide) positive

/-- Texts of digits of one length are told apart by their values. -/
theorem value_injective {left right : List Char} (length : left.length = right.length)
    (leftDigits : ∀ character ∈ left, character.isDigit = true)
    (rightDigits : ∀ character ∈ right, character.isDigit = true)
    (same : value left = value right) : left = right := by
  induction left using List.reverseRecOn generalizing right with
  | nil => exact (List.eq_nil_of_length_eq_zero length.symm).symm
  | append_singleton left last ih =>
    cases right using List.reverseRecOn with
    | nil =>
      rw [List.length_append] at length
      exact absurd length (Nat.succ_ne_zero _)
    | append_singleton right other =>
      have lastDigit := digitChar_sub (leftDigits last (List.mem_append_right _ List.mem_cons_self))
      have otherDigit :=
        digitChar_sub (rightDigits other (List.mem_append_right _ List.mem_cons_self))
      rw [value_append_singleton, value_append_singleton] at same
      have lengths : left.length = right.length := by
        rw [List.length_append, List.length_append] at length
        exact Nat.add_right_cancel length
      have rest : left = right :=
        ih lengths (fun character inside => leftDigits character (List.mem_append_left _ inside))
          (fun character inside => rightDigits character (List.mem_append_left _ inside)) (by omega)
      have digit : last.toNat - 48 = other.toNat - 48 := by
        omega
      rw [rest, ← lastDigit.1, ← otherDigit.1, digit]

/-- The value of a text grows with its digits at most as its length allows. -/
theorem value_lt {digits : List Char} (all : ∀ character ∈ digits, character.isDigit = true) :
    value digits < 10 ^ digits.length := by
  induction digits using List.reverseRecOn with
  | nil => exact Nat.zero_lt_one
  | append_singleton digits last ih =>
    have shorter := ih fun character inside => all character (List.mem_append_left _ inside)
    have digit := (digitChar_sub (all last (List.mem_append_right _ List.mem_cons_self))).2
    rw [value_append_singleton, List.length_append, List.length_singleton, Nat.pow_succ]
    omega

/-- Leading zeros do not count. -/
theorem value_zeros (count : Nat) (digits : List Char) :
    value (List.replicate count '0' ++ digits) = value digits := by
  unfold value
  rw [Nat.ofDigitChars_append]
  congr 1
  induction count with
  | zero => rfl
  | succ count ih =>
    rw [List.replicate_succ, Nat.ofDigitChars_cons]
    exact ih

/-- The spelling of a number in a width. -/
def padded (width number : Nat) : List Char :=
  List.replicate (width - (text number).length) '0' ++ text number

/-- A spelling in a width consists of digits. -/
theorem isDigit_of_mem_padded {width number : Nat} {character : Char}
    (inside : character ∈ padded width number) : character.isDigit = true := by
  cases List.mem_append.mp inside with
  | inl zero =>
    rw [List.eq_of_mem_replicate zero]
    decide
  | inr digit => exact isDigit_of_mem_text digit

/-- Reading a spelling in a width returns the number. -/
@[simp] theorem value_padded (width number : Nat) : value (padded width number) = number := by
  unfold padded
  rw [value_zeros, value_text]

/-- A number that fits is spelled in its width. -/
theorem padded_length {width number : Nat} (positive : 0 < width) (fits : number < 10 ^ width) :
    (padded width number).length = width := by
  have length := (text_length_le positive).mpr fits
  unfold padded
  rw [List.length_append, List.length_replicate]
  omega

/-- Digits are the spelling of their value in their width. -/
theorem padded_value {digits : List Char} (filled : digits ≠ [])
    (all : ∀ character ∈ digits, character.isDigit = true) :
    padded digits.length (value digits) = digits := by
  refine value_injective (padded_length ?_ (value_lt all))
    (fun _ inside => isDigit_of_mem_padded inside) all (value_padded _ _)
  exact List.length_pos_of_ne_nil filled

/-- Joined text holds the separator and what the fields hold. -/
theorem mem_intercalate {separator character : Char} {fields : List (List Char)}
    (inside : character ∈ List.intercalate [separator] fields) :
    character = separator ∨ ∃ field ∈ fields, character ∈ field := by
  induction fields with
  | nil => exact absurd inside List.not_mem_nil
  | cons field rest ih =>
    cases rest with
    | nil =>
      rw [List.intercalate_singleton] at inside
      exact Or.inr ⟨field, List.mem_cons_self, inside⟩
    | cons next others =>
      rw [List.intercalate_cons_cons, List.mem_append, List.mem_append] at inside
      rcases inside with (member | between) | later
      · exact Or.inr ⟨field, List.mem_cons_self, member⟩
      · exact Or.inl (List.mem_singleton.mp between)
      · cases ih later with
        | inl same => exact Or.inl same
        | inr found =>
          obtain ⟨other, present, member⟩ := found
          exact Or.inr ⟨other, List.mem_cons_of_mem _ present, member⟩

/-- Texts that do not contain the separator are read back from the joined text. -/
theorem intercalate_injective {separator : Char} {left right : List (List Char)}
    (leftClear : ∀ field ∈ left, separator ∉ field)
    (rightClear : ∀ field ∈ right, separator ∉ field)
    (leftFilled : left ≠ []) (rightFilled : right ≠ [])
    (same : List.intercalate [separator] left = List.intercalate [separator] right) :
    left = right := by
  rw [← List.splitOn_intercalate separator leftClear leftFilled, same,
    List.splitOn_intercalate separator rightClear rightFilled]

/-- A first line that does not contain the terminator is read back. -/
theorem line_injective {terminator : Char} {left right leftRest rightRest : List Char}
    (leftClear : terminator ∉ left) (rightClear : terminator ∉ right)
    (same : left ++ terminator :: leftRest = right ++ terminator :: rightRest) :
    left = right ∧ leftRest = rightRest := by
  induction left generalizing right with
  | nil =>
    cases right with
    | nil => exact ⟨rfl, List.tail_eq_of_cons_eq same⟩
    | cons first rest =>
      have head : terminator = first := List.head_eq_of_cons_eq same
      exact absurd (head ▸ List.mem_cons_self) rightClear
  | cons first rest ih =>
    cases right with
    | nil =>
      have head : first = terminator := List.head_eq_of_cons_eq same
      exact absurd (head ▸ List.mem_cons_self) leftClear
    | cons other others =>
      have head : first = other := List.head_eq_of_cons_eq same
      have tails := ih (fun inside => leftClear (List.mem_cons_of_mem _ inside))
        (fun inside => rightClear (List.mem_cons_of_mem _ inside)) (List.tail_eq_of_cons_eq same)
      rw [head, tails.1]
      exact ⟨rfl, tails.2⟩

/-- Lines that do not contain the terminator are read back from the text of all of them. -/
theorem lines_injective {terminator : Char} {left right : List (List Char)}
    (leftClear : ∀ line ∈ left, terminator ∉ line) (rightClear : ∀ line ∈ right, terminator ∉ line)
    (same : left.flatMap (· ++ [terminator]) = right.flatMap (· ++ [terminator])) :
    left = right := by
  induction left generalizing right with
  | nil =>
    cases right with
    | nil => rfl
    | cons line lines => simp at same
  | cons line lines ih =>
    cases right with
    | nil => simp at same
    | cons other others =>
      rw [List.flatMap_cons, List.flatMap_cons, List.append_assoc, List.append_assoc] at same
      have first := line_injective (leftClear line List.mem_cons_self)
        (rightClear other List.mem_cons_self) same
      rw [first.1, ih (fun item inside => leftClear item (List.mem_cons_of_mem _ inside))
        (fun item inside => rightClear item (List.mem_cons_of_mem _ inside)) first.2]

end AtlasLob.Decimal
