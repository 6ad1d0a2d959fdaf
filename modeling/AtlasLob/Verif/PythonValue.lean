import AtlasLob.Core.WorkloadCodec

/-!
# What the readers of fields accept

Each reader of a field accepts exactly the spelling its writer gives, for the routed workloads on
every text and for the workload generator on every ASCII text. The dictionaries are in the order
of their keys, so that one with the expected keys is known entry by entry.
-/

namespace AtlasLob.Oracle

/-- A computation returns when its first part does and the rest does on its value. -/
theorem bind_eq_ok {Value Next : Type} {first : Except PythonError Value}
    {rest : Value → Except PythonError Next} {result : Next} :
    (first >>= rest) = .ok result ↔ ∃ value, first = .ok value ∧ rest value = .ok result := by
  cases first with
  | error error => exact ⟨nofun, fun found => absurd found.choose_spec.1 nofun⟩
  | ok value =>
    constructor
    · exact fun run => ⟨value, rfl, run⟩
    · rintro ⟨other, same, run⟩
      rw [← Except.ok.inj same] at run
      exact run

section Digits

/-- The scripts other than the Latin one lie beyond ASCII. -/
theorem decimalDigit_ascii {character : Char} (ascii : character.toNat < 128) :
    decimalDigit character =
      if character.isDigit then some (character.toNat - 48) else none := by
  have beyond : ∀ first ∈ decimalZeros.tail, 128 ≤ first := by decide
  have missing : decimalZeros.tail.find? (fun first =>
      first ≤ character.toNat ∧ character.toNat < first + 10) = none := by
    apply List.find?_eq_none.mpr
    intro first inside
    have large := beyond first inside
    rw [decide_eq_true_iff]
    omega
  have split : decimalZeros = 48 :: decimalZeros.tail := rfl
  have digit : character.isDigit = true ↔ 48 ≤ character.toNat ∧ character.toNat < 48 + 10 := by
    unfold Char.isDigit
    rw [Bool.and_eq_true, decide_eq_true_iff, decide_eq_true_iff]
    exact and_congr Iff.rfl ⟨Nat.lt_succ_of_le, Nat.le_of_lt_succ⟩
  unfold decimalDigit
  rw [split, List.find?_cons, missing]
  by_cases inRange : 48 ≤ character.toNat ∧ character.toNat < 48 + 10
  · rw [if_pos (digit.mpr inRange), decide_eq_true inRange]
    rfl
  · rw [if_neg (fun found => inRange (digit.mp found)), decide_eq_false inRange]
    rfl

/-- The decimal texts of ASCII are the nonempty texts of digits. -/
theorem isDecimal_ascii {text : List Char} (ascii : isAscii text = true) :
    isDecimal text = true ↔ text ≠ [] ∧ ∀ character ∈ text, character.isDigit = true := by
  unfold isDecimal isAscii at *
  rw [Bool.and_eq_true, List.all_eq_true, Bool.not_eq_true', List.isEmpty_eq_false_iff]
  rw [List.all_eq_true] at ascii
  refine and_congr Iff.rfl (forall₂_congr fun character inside => ?_)
  rw [decimalDigit_ascii (of_decide_eq_true (ascii character inside))]
  by_cases digit : character.isDigit
  · rw [if_pos digit]
    exact iff_of_true rfl digit
  · rw [if_neg digit]
    exact iff_of_false Bool.false_ne_true digit

/-- A digit belongs to ASCII. -/
theorem toNat_of_isDigit {character : Char} (digit : character.isDigit = true) :
    character.toNat < 128 := by
  unfold Char.isDigit at digit
  rw [Bool.and_eq_true, decide_eq_true_iff, decide_eq_true_iff] at digit
  have upper : character.toNat ≤ 57 := digit.2
  omega

/-- Texts of digits belong to ASCII. -/
theorem isAscii_of_digits {text : List Char}
    (digits : ∀ character ∈ text, character.isDigit = true) : isAscii text = true := by
  unfold isAscii
  rw [List.all_eq_true]
  exact fun character inside => decide_eq_true (toNat_of_isDigit (digits character inside))

/-- The value of a text of digits. -/
theorem digitsValue_eq {text : List Char}
    (digits : ∀ character ∈ text, character.isDigit = true) :
    digitsValue text = Decimal.value text := by
  induction text using List.reverseRecOn with
  | nil => rfl
  | append_singleton rest last ih =>
    have digit := digits last (List.mem_append_right _ List.mem_cons_self)
    have shorter := ih fun character inside => digits character (List.mem_append_left _ inside)
    rw [Decimal.value_append_singleton, ← shorter]
    unfold digitsValue
    rw [List.foldl_append, List.foldl_cons, List.foldl_nil,
      decimalDigit_ascii (toNat_of_isDigit digit), if_pos digit]
    rfl

/-- A canonical spelling of a natural number is a decimal text of ASCII. -/
theorem text_decimal (number : Nat) :
    isAscii (Decimal.text number) = true ∧ isDecimal (Decimal.text number) = true := by
  have digits : ∀ character ∈ Decimal.text number, character.isDigit = true :=
    fun _ inside => Decimal.isDigit_of_mem_text inside
  have ascii := isAscii_of_digits digits
  exact ⟨ascii, (isDecimal_ascii ascii).mpr ⟨Decimal.text_ne_nil number, digits⟩⟩

/-- A canonical decimal text of ASCII is the spelling of its value. -/
theorem text_digitsValue {text : List Char} (ascii : isAscii text = true)
    (decimal : isDecimal text = true) (leading : text = ['0'] ∨ text.head? ≠ some '0') :
    Decimal.text (digitsValue text) = text := by
  obtain ⟨filled, digits⟩ := (isDecimal_ascii ascii).mp decimal
  rw [digitsValue_eq digits]
  exact Decimal.text_value filled digits leading

/-- The spelling of a word is short enough to be read. -/
theorem intOfDigits_text {number : Nat} (word : (number : Int) ≤ u64Max) :
    intOfDigits (Decimal.text number) = .ok number := by
  have length : (Decimal.text number).length ≤ 20 := by
    rw [Decimal.text_length_le (by decide)]
    have bound : u64Max = 18446744073709551615 := rfl
    omega
  have digits : ∀ character ∈ Decimal.text number, character.isDigit = true :=
    fun _ inside => Decimal.isDigit_of_mem_text inside
  unfold intOfDigits
  rw [if_neg (by omega), digitsValue_eq digits, Decimal.value_text]

/-- What `int` returns is the value of the text. -/
theorem intOfDigits_eq_ok {text : List Char} {value : Int} (read : intOfDigits text = .ok value) :
    value = digitsValue text := by
  unfold intOfDigits at read
  split at read
  · exact absurd read nofun
  · exact (Except.ok.inj read).symm

end Digits

section Fields

/-- The spelling of a natural number. -/
theorem intText_natCast (number : Nat) :
    intText number = String.ofList (Decimal.text number) := rfl

/-- The spelling of an integer belongs to ASCII. -/
theorem intText_ascii (value : Int) : isAscii (intText value).toList = true := by
  unfold intText
  rw [String.toList_ofList]
  unfold isAscii
  rw [List.all_eq_true]
  intro character inside
  apply decide_eq_true
  cases Decimal.signedText_characters inside with
  | inl digit => exact toNat_of_isDigit digit
  | inr minus =>
    rw [minus]
    decide

/-- A canonical text of ASCII digits is the string of its value. -/
theorem decimalString_of_digits {text : String} {value : Int} (ascii : isAscii text.toList = true)
    (decimal : isDecimal text.toList = true)
    (leading : text.toList = ['0'] ∨ text.toList.head? ≠ some '0')
    (read : intOfDigits text.toList = .ok value) :
    PyValue.str text = decimalString value ∧ 0 ≤ value := by
  have same := intOfDigits_eq_ok read
  rw [same]
  refine ⟨?_, Int.natCast_nonneg _⟩
  unfold decimalString
  rw [intText_natCast, text_digitsValue ascii decimal leading, String.ofList_toList]

/-- What `_decimal` reads from ASCII is spelled canonically. -/
theorem decimalValue_strict {raw : PyValue} {name : String} {value : Int}
    (ascii : ∀ text, raw = .str text → isAscii text.toList = true)
    (read : decimalValue raw name = .ok value) : raw = decimalString value ∧ 0 ≤ value := by
  unfold decimalValue stringValue at read
  cases raw with
  | str text =>
    simp only [pythonOk_bind] at read
    split at read
    · exact absurd read nofun
    · next canonical =>
      rw [not_or, not_and_or, not_or, not_not] at canonical
      obtain ⟨_, zero | ⟨leading, decimal⟩⟩ := canonical
      · rw [zero] at read ⊢
        exact decimalString_of_digits (by decide) (by decide) (Or.inl (by decide)) read
      · rw [Bool.not_eq_true', Bool.not_eq_false] at decimal
        exact decimalString_of_digits (ascii text rfl) decimal (Or.inr leading) read
  | _ => exact absurd read nofun

/-- `_decimal` reads the spelling of a word. -/
theorem decimalValue_decimalString {name : String} {value : Int} (natural : 0 ≤ value)
    (word : value ≤ u64Max) : decimalValue (decimalString value) name = .ok value := by
  obtain ⟨number, rfl⟩ := Int.eq_ofNat_of_zero_le natural
  have leading := Decimal.text_leading number
  unfold decimalValue decimalString stringValue
  simp only [pythonOk_bind]
  rw [intText_natCast, String.toList_ofList, if_neg, intOfDigits_text word]
  rintro (empty | ⟨nonzero, head | other⟩)
  · exact Decimal.text_ne_nil number empty
  · cases leading with
    | inl zero => exact nonzero (by rw [zero])
    | inr leading => exact leading head
  · rw [(text_decimal number).2] at other
    exact absurd other Bool.false_ne_true

/-- A positive text that `_signed_decimal` reads from ASCII is spelled canonically. -/
theorem signedDecimalValue_strict {raw : PyValue} {name : String} {value : Int}
    (ascii : ∀ text, raw = .str text → isAscii text.toList = true) (positive : 0 < value)
    (read : signedDecimalValue raw name = .ok value) : raw = decimalString value := by
  unfold signedDecimalValue stringValue at read
  cases raw with
  | str text =>
    simp only [pythonOk_bind] at read
    split at read
    · exact absurd read nofun
    · next canonical =>
      split at read
      · exact absurd read nofun
      · unfold intOfSigned at read
        split at read
        · next digits same =>
          obtain ⟨size, parsed, negated⟩ := bind_eq_ok.mp read
          have natural := intOfDigits_eq_ok parsed
          have sign : -size = value := Except.ok.inj negated
          omega
        · next unsigned =>
          have part : unsignedPart text.toList = text.toList := by
            unfold unsignedPart
            split
            · next digits same => exact absurd same (unsigned digits)
            · rfl
          rw [part, not_or, not_and_or, not_or, not_not] at canonical
          obtain ⟨_, zero | ⟨leading, decimal⟩⟩ := canonical
          · have decimal : isDecimal text.toList = true := by
              rw [zero]
              decide
            exact (decimalString_of_digits (ascii text rfl) decimal (Or.inl zero) read).1
          · rw [Bool.not_eq_true', Bool.not_eq_false] at decimal
            exact (decimalString_of_digits (ascii text rfl) decimal (Or.inr leading) read).1
  | _ => exact absurd read nofun

/-- A canonical spelling has no sign of its own. -/
theorem unsignedPart_text (number : Nat) :
    unsignedPart (Decimal.text number) = Decimal.text number := by
  unfold unsignedPart
  split
  · next digits same => exact absurd same (Decimal.text_ne_minus number digits)
  · rfl

/-- A canonical spelling of a word is read as a signed number. -/
theorem intOfSigned_text {number : Nat} (word : (number : Int) ≤ u64Max) :
    intOfSigned (Decimal.text number) = .ok number := by
  unfold intOfSigned
  split
  · next digits same => exact absurd same (Decimal.text_ne_minus number digits)
  · exact intOfDigits_text word

/-- `_signed_decimal` reads the spelling of a word that is not negative. -/
theorem signedDecimalValue_decimalString {name : String} {value : Int} (natural : 0 ≤ value)
    (word : value ≤ u64Max) : signedDecimalValue (decimalString value) name = .ok value := by
  obtain ⟨number, rfl⟩ := Int.eq_ofNat_of_zero_le natural
  have leading := Decimal.text_leading number
  unfold signedDecimalValue decimalString stringValue
  simp only [pythonOk_bind]
  rw [intText_natCast, String.toList_ofList, unsignedPart_text, if_neg, if_neg,
    intOfSigned_text word]
  · intro negative
    have texts := congrArg String.toList negative
    rw [String.toList_ofList] at texts
    exact Decimal.text_ne_minus number ['0'] texts
  · rintro (empty | ⟨nonzero, head | other⟩)
    · exact Decimal.text_ne_nil number empty
    · cases leading with
      | inl zero => exact nonzero zero
      | inr leading => exact leading head
    · rw [(text_decimal number).2] at other
      exact absurd other Bool.false_ne_true

/-- `_json_int` reads the integers. -/
theorem jsonInt_eq_ok {raw : PyValue} {name : String} {value : Int} :
    jsonInt raw name = .ok value ↔ raw = .int value := by
  unfold jsonInt
  cases raw with
  | int other => exact ⟨fun read => by rw [Except.ok.inj read],
      fun same => by rw [PyValue.int.inj same]⟩
  | _ => exact iff_of_false nofun nofun

/-- `_json_u8` reads the integers of a byte. -/
theorem jsonByte_eq_ok {raw : PyValue} {name : String} {value : Int} :
    jsonByte raw name = .ok value ↔ raw = .int value ∧ Fits u8Max value := by
  cases raw with
  | int other =>
    show (if 0 ≤ other ∧ other ≤ 255 then Except.ok other else _) = Except.ok value ↔ _
    by_cases range : 0 ≤ other ∧ other ≤ 255
    · rw [if_pos range]
      constructor
      · intro read
        rw [← Except.ok.inj read]
        exact ⟨rfl, range⟩
      · rintro ⟨same, _⟩
        rw [PyValue.int.inj same]
    · rw [if_neg range]
      refine iff_of_false nofun ?_
      rintro ⟨same, inside⟩
      exact range (PyValue.int.inj same ▸ inside)
  | _ => exact iff_of_false nofun fun both => absurd both.1 nofun

/-- `_mapping` reads the dictionaries. -/
theorem mappingValue_eq_ok {raw : PyValue} {name : String} {entries : Entries} :
    mappingValue raw name = .ok entries ↔ raw = .dict entries := by
  unfold mappingValue
  cases raw with
  | dict other => exact ⟨fun read => by rw [Except.ok.inj read],
      fun same => by rw [PyValue.dict.inj same]⟩
  | _ => exact iff_of_false nofun nofun

/-- `_decimal` of the routed workloads reads the canonical spellings in its range. -/
theorem boundedDecimal_eq_ok {maximum value : Int} (word : maximum ≤ u64Max) {raw : PyValue}
    {name : String} :
    boundedDecimal maximum raw name = .ok value ↔
      raw = decimalString value ∧ Fits maximum value := by
  constructor
  · intro read
    unfold boundedDecimal at read
    cases raw with
    | str text =>
      simp only at read
      split at read
      · exact absurd read nofun
      · next canonical =>
        rw [not_or, not_or, Bool.not_eq_true', Bool.not_eq_false, Bool.not_eq_true',
          Bool.not_eq_false] at canonical
        obtain ⟨ascii, decimal, leading⟩ := canonical
        obtain ⟨parsed, digits, ranged⟩ := bind_eq_ok.mp read
        split at ranged
        · next range =>
          rw [← Except.ok.inj ranged]
          refine ⟨(decimalString_of_digits ascii decimal ?_ digits).1, range⟩
          by_cases zero : text.toList.head? = some '0'
          · refine Or.inl ?_
            cases shape : text.toList with
            | nil =>
              rw [shape] at zero
              exact absurd zero nofun
            | cons first rest =>
              rw [shape] at zero leading
              have short : rest = [] := by
                cases rest with
                | nil => rfl
                | cons _ _ => exact absurd ⟨by simp, zero⟩ leading
              rw [short, Option.some.inj zero]
          · exact Or.inr zero
        · exact absurd ranged nofun
    | _ => exact absurd read nofun
  · rintro ⟨rfl, natural, range⟩
    obtain ⟨number, rfl⟩ := Int.eq_ofNat_of_zero_le natural
    have leading := Decimal.text_leading number
    unfold boundedDecimal decimalString
    simp only
    rw [intText_natCast, String.toList_ofList, if_neg, intOfDigits_text (le_trans range word),
      pythonOk_bind, if_pos ⟨natural, range⟩]
    · rfl
    · rw [(text_decimal number).1, (text_decimal number).2]
      rintro (ascii | decimal | ⟨long, head⟩)
      · exact absurd ascii Bool.false_ne_true
      · exact absurd decimal Bool.false_ne_true
      · cases leading with
        | inl zero =>
          rw [zero] at long
          exact absurd long (by decide)
        | inr other => exact other head

end Fields

section Signed

/-- The spelling of a negative number. -/
theorem signedText_neg {number : Nat} (positive : 0 < number) :
    Decimal.signedText (-(number : Int)) = '-' :: Decimal.text number := by
  cases number with
  | zero => exact absurd positive (Nat.lt_irrefl 0)
  | succ number => rfl

/-- The shape `_signed_decimal` of the routed workloads asks for. -/
def canonicalSigned : List Char → Bool
  | '-' :: digits => isDecimal digits && digits.head? != some '0'
  | digits => isDecimal digits && !(1 < digits.length && digits.head? == some '0')

/-- The reader in terms of the shape. -/
theorem boundedSigned_str (text : String) (name : String) :
    boundedSigned (.str text) name =
      if !isAscii text.toList ∨ !canonicalSigned text.toList then
        .error (.valueError (name ++ " must be a canonical signed decimal string"))
      else intOfSigned text.toList >>= fun parsed =>
        if i64Min ≤ parsed ∧ parsed ≤ i64Max then pure parsed
        else .error (.valueError (name ++ " is outside i64")) := rfl

/-- A text without a sign whose only leading zero is all of it. -/
theorem leading_of_short {text : List Char} (filled : text ≠ [])
    (short : ¬(1 < text.length ∧ text.head? = some '0')) :
    text = ['0'] ∨ text.head? ≠ some '0' := by
  by_cases first : text.head? = some '0'
  · refine Or.inl ?_
    cases text with
    | nil => exact absurd rfl filled
    | cons head rest =>
      cases rest with
      | nil => rw [Option.some.inj first]
      | cons _ _ => exact absurd ⟨by simp, first⟩ short
  · exact Or.inr first

/-- A canonical signed text of ASCII is the spelling of what it is read as. -/
theorem canonicalSigned_spelling {text : List Char} {value : Int} (ascii : isAscii text = true)
    (canonical : canonicalSigned text = true) (read : intOfSigned text = .ok value) :
    Decimal.signedText value = text := by
  unfold canonicalSigned at canonical
  unfold intOfSigned at read
  split at canonical
  · next digits =>
    rw [Bool.and_eq_true, bne_iff_ne] at canonical
    obtain ⟨size, parsed, negated⟩ := bind_eq_ok.mp read
    have natural := intOfDigits_eq_ok parsed
    have sign : -size = value := Except.ok.inj negated
    have rest : isAscii digits = true := by
      unfold isAscii at ascii ⊢
      rw [List.all_cons, Bool.and_eq_true] at ascii
      exact ascii.2
    have spelled := text_digitsValue rest canonical.1 (Or.inr canonical.2)
    have positive : 0 < digitsValue digits := by
      apply Nat.pos_of_ne_zero
      intro none
      rw [none] at spelled
      exact canonical.2 (by rw [← spelled]; rfl)
    rw [← sign, natural, signedText_neg positive, spelled]
  · next unsigned =>
    rw [Bool.and_eq_true, Bool.not_eq_true', Bool.and_eq_false_iff, decide_eq_false_iff_not,
      beq_eq_false_iff_ne, ← not_and_or] at canonical
    split at read
    · next digits => exact absurd rfl (unsigned digits)
    · have filled := ((isDecimal_ascii ascii).mp canonical.1).1
      rw [intOfDigits_eq_ok read]
      exact text_digitsValue ascii canonical.1 (leading_of_short filled canonical.2)

/-- The spelling of a signed word is canonical and read back. -/
theorem canonicalSigned_signedText {value : Int} (fits : FitsSigned value) :
    isAscii (Decimal.signedText value) = true ∧
      canonicalSigned (Decimal.signedText value) = true ∧
      intOfSigned (Decimal.signedText value) = .ok value := by
  have lower : i64Min = -9223372036854775808 := rfl
  have upper : i64Max = 9223372036854775807 := rfl
  have word : u64Max = 18446744073709551615 := rfl
  obtain ⟨low, high⟩ := fits
  cases value with
  | ofNat number =>
    obtain ⟨ascii, decimal⟩ := text_decimal number
    have bounded : (number : Int) ≤ u64Max := by
      rw [Int.ofNat_eq_natCast] at high
      omega
    refine ⟨ascii, ?_, intOfSigned_text bounded⟩
    show canonicalSigned (Decimal.text number) = true
    unfold canonicalSigned
    split
    · next digits same => exact absurd same (Decimal.text_ne_minus number digits)
    · rw [decimal, Bool.true_and, Bool.not_eq_true', Bool.and_eq_false_iff]
      cases Decimal.text_leading number with
      | inl zero =>
        rw [zero]
        exact Or.inl rfl
      | inr other => exact Or.inr (beq_eq_false_iff_ne.mpr other)
  | negSucc number =>
    obtain ⟨ascii, decimal⟩ := text_decimal (number + 1)
    have bounded : ((number + 1 : Nat) : Int) ≤ u64Max := by
      rw [Int.negSucc_eq] at low
      push_cast
      omega
    refine ⟨?_, ?_, ?_⟩
    · show isAscii ('-' :: Decimal.text (number + 1)) = true
      unfold isAscii at ascii ⊢
      rw [List.all_cons, ascii]
      rfl
    · show (isDecimal (Decimal.text (number + 1)) &&
        (Decimal.text (number + 1)).head? != some '0') = true
      rw [decimal, Bool.true_and, bne_iff_ne]
      cases Decimal.text_leading (number + 1) with
      | inl zero =>
        have value : number + 1 = 0 := Decimal.text_injective (zero.trans rfl)
        omega
      | inr other => exact other
    · show (intOfDigits (Decimal.text (number + 1)) >>= fun value => pure (-value)) = _
      rw [intOfDigits_text bounded, pythonOk_bind]
      rfl

/-- `_signed_decimal` of the routed workloads reads the canonical spellings of signed words. -/
theorem boundedSigned_eq_ok {raw : PyValue} {name : String} {value : Int} :
    boundedSigned raw name = .ok value ↔ raw = decimalString value ∧ FitsSigned value := by
  constructor
  · intro read
    cases raw with
    | str text =>
      rw [boundedSigned_str] at read
      split at read
      · exact absurd read nofun
      · next canonical =>
        rw [not_or, Bool.not_eq_true', Bool.not_eq_false, Bool.not_eq_true',
          Bool.not_eq_false] at canonical
        obtain ⟨parsed, digits, ranged⟩ := bind_eq_ok.mp read
        split at ranged
        · next range =>
          rw [← Except.ok.inj ranged]
          have spelled := canonicalSigned_spelling canonical.1 canonical.2 digits
          refine ⟨?_, range⟩
          unfold decimalString intText
          rw [spelled, String.ofList_toList]
        · exact absurd ranged nofun
    | _ => exact absurd read nofun
  · rintro ⟨rfl, fits⟩
    obtain ⟨ascii, canonical, read⟩ := canonicalSigned_signedText fits
    unfold decimalString intText
    rw [boundedSigned_str, String.toList_ofList, ascii, canonical, read]
    show (if i64Min ≤ value ∧ value ≤ i64Max then pure value else _) = _
    rw [if_pos (⟨fits.1, fits.2⟩ : i64Min ≤ value ∧ value ≤ i64Max)]
    rfl

/-- A price that may be absent. -/
theorem optionalPrice_eq_ok {raw : PyValue} {name : String} {price : Option Int} :
    optionalPrice raw name = .ok price ↔
      (raw = match price with
        | none => .none
        | some value => decimalString value) ∧ ∀ value ∈ price, FitsSigned value := by
  cases price with
  | none =>
    cases raw with
    | none => exact iff_of_true rfl ⟨rfl, nofun⟩
    | _ =>
      refine iff_of_false (fun read => ?_) fun both => absurd both.1 nofun
      obtain ⟨_, _, same⟩ := bind_eq_ok.mp read
      exact absurd same nofun
  | some value =>
    have present : (∀ other ∈ some value, FitsSigned other) ↔ FitsSigned value := by simp
    rw [present, ← boundedSigned_eq_ok]
    cases raw with
    | none => exact iff_of_false nofun nofun
    | _ =>
      refine bind_eq_ok.trans ⟨?_, fun read => ⟨value, read, rfl⟩⟩
      rintro ⟨other, read, same⟩
      rw [← Option.some.inj (Except.ok.inj same)]
      exact read

end Signed

section Dictionaries

/-- The entries are in the strict order of their keys. -/
def Ordered (entries : Entries) : Prop := entries.Pairwise fun left right => left.1 < right.1

/-- Every dictionary in a value is in the order of its keys. -/
inductive PyValue.Canonical : PyValue → Prop
  | none : Canonical .none
  | bool (value : Bool) : Canonical (.bool value)
  | int (value : Int) : Canonical (.int value)
  | float (text : String) : Canonical (.float text)
  | str (text : String) : Canonical (.str text)
  | list (items : List PyValue) (each : ∀ item ∈ items, Canonical item) : Canonical (.list items)
  | dict (entries : Entries) (ordered : Ordered entries)
      (each : ∀ entry ∈ entries, Canonical entry.2) : Canonical (.dict entries)

/-- Every string in a value belongs to ASCII. -/
inductive PyValue.Ascii : PyValue → Prop
  | none : Ascii .none
  | bool (value : Bool) : Ascii (.bool value)
  | int (value : Int) : Ascii (.int value)
  | float (text : String) : Ascii (.float text)
  | str (text : String) (ascii : isAscii text.toList = true) : Ascii (.str text)
  | list (items : List PyValue) (each : ∀ item ∈ items, Ascii item) : Ascii (.list items)
  | dict (entries : Entries) (each : ∀ entry ∈ entries, Ascii entry.2) : Ascii (.dict entries)

/-- Ordered keys are different. -/
theorem Ordered.nodup {entries : Entries} (ordered : Ordered entries) :
    (entries.map Prod.fst).Nodup :=
  List.pairwise_map.mpr (ordered.imp fun less => ne_of_lt less)

/-- With different keys, a lookup finds the entries. -/
theorem lookup_eq_some {entries : Entries} (distinct : (entries.map Prod.fst).Nodup) {key : String}
    {value : PyValue} : entries.lookup key = some value ↔ (key, value) ∈ entries := by
  induction entries with
  | nil => exact iff_of_false nofun List.not_mem_nil
  | cons entry rest ih =>
    rw [List.map_cons, List.nodup_cons] at distinct
    rw [List.lookup_cons, List.mem_cons]
    by_cases same : key = entry.1
    · rw [beq_iff_eq.mpr same]
      constructor
      · intro found
        rw [same, ← Option.some.inj found]
        exact Or.inl rfl
      · rintro (first | later)
        · rw [← first]
        · refine absurd (List.mem_map_of_mem later : key ∈ rest.map Prod.fst) ?_
          rw [same]
          exact distinct.1
    · rw [beq_eq_false_iff_ne.mpr same]
      refine (ih distinct.2).trans ⟨Or.inr, ?_⟩
      rintro (first | later)
      · exact absurd (congrArg Prod.fst first) same
      · exact later

/-- The keys of a dictionary are a set when they have its members. -/
theorem keysEqual_iff {entries : Entries} {expected : List String} :
    keysEqual entries expected = true ↔
      ∀ key, key ∈ entries.map Prod.fst ↔ key ∈ expected := by
  unfold keysEqual
  rw [Bool.and_eq_true, List.all_eq_true, List.all_eq_true]
  constructor
  · rintro ⟨known, all⟩ key
    constructor
    · intro inside
      obtain ⟨entry, present, rfl⟩ := List.mem_map.mp inside
      exact of_decide_eq_true (known entry present)
    · exact fun inside => of_decide_eq_true (all key inside)
  · intro same
    exact ⟨fun entry present => decide_eq_true ((same entry.1).mp (List.mem_map_of_mem present)),
      fun key inside => decide_eq_true ((same key).mpr inside)⟩

/-- A display is in the order of its keys when they are different. -/
theorem ordered_sort {display : Entries} (distinct : (display.map Prod.fst).Nodup) :
    Ordered (display.insertionSort fun left right => left.1 ≤ right.1) := by
  have sorted := List.pairwise_insertionSort
    (fun left right : String × PyValue => left.1 ≤ right.1) display
  have different : ((display.insertionSort fun left right => left.1 ≤ right.1).map
      Prod.fst).Nodup :=
    ((List.perm_insertionSort _ display).map Prod.fst).nodup_iff.mpr distinct
  exact (sorted.and (List.pairwise_map.mp different)).imp fun both => lt_of_le_of_ne both.1 both.2

/-- A display is a dictionary. -/
theorem PyValue.ofEntries_eq_dict (display : Entries) :
    PyValue.ofEntries display = .dict (PyValue.ofEntries display).entries := rfl

/-- A lookup in the dictionary of a display. -/
theorem lookup_ofEntries {display : Entries} (distinct : (display.map Prod.fst).Nodup)
    (key : String) : (PyValue.ofEntries display).entries.lookup key = display.lookup key := by
  apply Option.ext
  intro value
  have permuted : (PyValue.ofEntries display).entries.Perm display :=
    List.perm_insertionSort _ display
  have different := (permuted.map Prod.fst).nodup_iff.mpr distinct
  rw [← Option.mem_def, ← Option.mem_def, Option.mem_def, Option.mem_def,
    lookup_eq_some different, lookup_eq_some distinct]
  exact permuted.mem_iff

/-- The keys of the dictionary of a display. -/
theorem keysEqual_ofEntries (display : Entries) :
    keysEqual (PyValue.ofEntries display).entries (display.map Prod.fst) = true := by
  rw [keysEqual_iff]
  intro key
  exact ((List.perm_insertionSort _ display).map Prod.fst).mem_iff

/-- An ordered dictionary with the keys and the values of a display is its dictionary. -/
theorem dict_eq_ofEntries {entries display : Entries} (ordered : Ordered entries)
    (distinct : (display.map Prod.fst).Nodup)
    (keys : keysEqual entries (display.map Prod.fst) = true)
    (each : ∀ entry ∈ display, entries.lookup entry.1 = some entry.2) :
    PyValue.dict entries = .ofEntries display := by
  have sorted := ordered_sort distinct
  have permuted := List.perm_insertionSort
    (fun left right : String × PyValue => left.1 ≤ right.1) display
  have member : ∀ entry, entry ∈ entries ↔
      entry ∈ display.insertionSort fun left right => left.1 ≤ right.1 := by
    rintro ⟨key, value⟩
    rw [permuted.mem_iff, ← lookup_eq_some ordered.nodup]
    constructor
    · intro found
      have inside : key ∈ entries.map Prod.fst :=
        List.mem_map_of_mem ((lookup_eq_some ordered.nodup).mp found)
      obtain ⟨entry, present, rfl⟩ := List.mem_map.mp ((keysEqual_iff.mp keys key).mp inside)
      have other := each entry present
      rw [found] at other
      rw [Option.some.inj other]
      exact present
    · exact fun present => each (key, value) present
  have perm : entries.Perm (display.insertionSort fun left right => left.1 ≤ right.1) :=
    (List.perm_ext_iff_of_nodup ordered.nodup.of_map sorted.nodup.of_map).mpr member
  have same : entries = display.insertionSort fun left right => left.1 ≤ right.1 :=
    perm.eq_of_pairwise (fun left right _ _ less greater => absurd less (lt_asymm greater))
      ordered sorted
  rw [same]
  rfl

/-- A field is read when its value is. -/
theorem field_eq_ok {Value : Type} {parse : PyValue → String → Except PythonError Value}
    {entries : Entries} {name : String} {value : Value} :
    field parse entries name = .ok value ↔
      ∃ raw, entries.lookup name = some raw ∧ parse raw name = .ok value := by
  unfold field subscript
  cases found : entries.lookup name with
  | none => exact iff_of_false nofun (by rintro ⟨raw, same, _⟩; exact absurd same nofun)
  | some raw =>
    rw [pythonOk_bind]
    constructor
    · exact fun read => ⟨raw, rfl, read⟩
    · rintro ⟨other, same, read⟩
      rw [Option.some.inj same]
      exact read

/-- A field of a display is read when its value is. -/
theorem field_ofEntries {Value : Type} {parse : PyValue → String → Except PythonError Value}
    {display : Entries} (distinct : (display.map Prod.fst).Nodup) {name : String} {raw : PyValue}
    {value : Value} (found : display.lookup name = some raw)
    (read : parse raw name = .ok value) :
    field parse (PyValue.ofEntries display).entries name = .ok value :=
  field_eq_ok.mpr ⟨raw, (lookup_ofEntries distinct name).trans found, read⟩

/-- The call of a constructor returns when its check passes. -/
theorem constructing_eq_ok {Value : Type} {check : Except PythonError Unit}
    {build : check = .ok () → Value} {value : Value} :
    constructing check build = .ok value ↔ ∃ checked, build checked = value := by
  cases check with
  | error error => exact iff_of_false nofun fun found => absurd found.choose nofun
  | ok _ =>
    constructor
    · exact fun read => ⟨rfl, Except.ok.inj read⟩
    · rintro ⟨_, same⟩
      exact congrArg Except.ok same

/-- The member of an enumeration with a value. -/
theorem memberOf_eq_ok {Member : Type} {members : List Member} {valueOf : Member → String}
    (complete : ∀ member, member ∈ members) (injective : Function.Injective valueOf)
    {enumeration name : String} {raw : PyValue} {member : Member} :
    memberOf members valueOf enumeration raw name = .ok member ↔
      raw = .str (valueOf member) := by
  unfold memberOf
  cases raw with
  | str text =>
    simp only [stringValue, pythonOk_bind]
    cases found : members.find? fun member => valueOf member = text with
    | none =>
      constructor
      · intro accepted
        cases accepted
      · intro same
        have missing := List.find?_eq_none.mp found member (complete member)
        exact absurd (decide_eq_true (PyValue.str.inj same).symm) missing
    | some other =>
      have tested := List.find?_some found
      have value : valueOf other = text := of_decide_eq_true tested
      constructor
      · intro same
        rw [← value, Except.ok.inj same]
      · intro same
        rw [injective (value.trans (PyValue.str.inj same))]
  | _ =>
    constructor <;>
      intro accepted <;>
      cases accepted

end Dictionaries

end AtlasLob.Oracle
