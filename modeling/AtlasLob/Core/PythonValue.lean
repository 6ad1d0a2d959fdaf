import AtlasLob.Core.OracleDomain

/-!
# Python values and their decimal strings

The values a persisted document is read into: what the JSON reader returns, with a dictionary
given by its entries in the order of their keys, because the order in which they were inserted
is never looked at. The tests on strings follow the Unicode database: `isdecimal` accepts the
decimal digits of every script.
-/

namespace AtlasLob.Oracle

/-- What a JSON document is read into. -/
inductive PyValue
  /-- `None`. -/
  | none
  /-- `True` and `False`. -/
  | bool (value : Bool)
  /-- An integer. -/
  | int (value : Int)
  /-- A floating-point number, by its text. -/
  | float (text : String)
  /-- A string. -/
  | str (text : String)
  /-- A list. -/
  | list (items : List PyValue)
  /-- A dictionary with string keys. -/
  | dict (entries : List (String × PyValue))
  deriving Repr

/-- The entries of a dictionary. -/
abbrev Entries := List (String × PyValue)

/-- A dictionary display, whatever the order of its entries. -/
def PyValue.ofEntries (entries : Entries) : PyValue :=
  .dict (entries.insertionSort fun left right => left.1 ≤ right.1)

/-- The entries of a dictionary. -/
def PyValue.entries : PyValue → Entries
  | .dict entries => entries
  | _ => []

/-- A subscription. -/
def subscript (entries : Entries) (key : String) : Except PythonError PyValue :=
  match entries.lookup key with
  | some value => .ok value
  | none => .error .keyError

/-- The comparison of the keys of a dictionary with a set. -/
def keysEqual (entries : Entries) (expected : List String) : Bool :=
  entries.all (fun entry => entry.1 ∈ expected) &&
    expected.all fun key => key ∈ entries.map Prod.fst

/-- The digits zero of the scripts whose decimal digits follow each other, in Unicode 14.0, which
Python 3.11 has. The later Pythons accept the digits of more scripts, none of them ASCII. -/
def decimalZeros : List Nat :=
  [0x30, 0x660, 0x6F0, 0x7C0, 0x966, 0x9E6, 0xA66, 0xAE6, 0xB66, 0xBE6, 0xC66, 0xCE6, 0xD66, 0xDE6,
    0xE50, 0xED0, 0xF20, 0x1040, 0x1090, 0x17E0, 0x1810, 0x1946, 0x19D0, 0x1A80, 0x1A90, 0x1B50,
    0x1BB0, 0x1C40, 0x1C50, 0xA620, 0xA8D0, 0xA900, 0xA9D0, 0xA9F0, 0xAA50, 0xABF0, 0xFF10, 0x104A0,
    0x10D30, 0x11066, 0x110F0, 0x11136, 0x111D0, 0x112F0, 0x11450, 0x114D0, 0x11650, 0x116C0,
    0x11730, 0x118E0, 0x11950, 0x11C50, 0x11D50, 0x11DA0, 0x16A60, 0x16AC0, 0x16B50, 0x1D7CE,
    0x1D7D8, 0x1D7E2, 0x1D7EC, 0x1D7F6, 0x1E140, 0x1E2F0, 0x1E950, 0x1FBF0]

/-- The value of a decimal digit of any script. -/
def decimalDigit (character : Char) : Option Nat :=
  (decimalZeros.find? fun first => first ≤ character.toNat ∧ character.toNat < first + 10).map
    fun first => character.toNat - first

/-- `str.isdecimal`. -/
def isDecimal (text : List Char) : Bool :=
  !text.isEmpty && text.all fun character => (decimalDigit character).isSome

/-- `str.isascii`. -/
def isAscii (text : List Char) : Bool := text.all fun character => character.toNat < 128

/-- The value of a text of decimal digits. -/
def digitsValue (text : List Char) : Nat :=
  text.foldl (fun value character => 10 * value + (decimalDigit character).getD 0) 0

/-- `int` of a text of decimal digits, which refuses too long a text. -/
def intOfDigits (text : List Char) : Except PythonError Int :=
  if 4300 < text.length then
    .error (.valueError "Exceeds the limit (4300 digits) for integer string conversion")
  else .ok (digitsValue text)

/-- `int` of a text of decimal digits that may stand behind a minus sign. -/
def intOfSigned : List Char → Except PythonError Int
  | '-' :: digits => do
    let value ← intOfDigits digits
    pure (-value)
  | digits => intOfDigits digits

/-- `str` of an integer. -/
def intText (value : Int) : String := String.ofList (Decimal.signedText value)

/-- A value in range, as a string. -/
def decimalString (value : Int) : PyValue := .str (intText value)

/-- A field of a dictionary, read with its name. -/
def field {Value : Type} (parse : PyValue → String → Except PythonError Value) (entries : Entries)
    (name : String) : Except PythonError Value := do
  let raw ← subscript entries name
  parse raw name

/-- `_mapping` of the workload generator. -/
def mappingValue (value : PyValue) (name : String) : Except PythonError Entries :=
  match value with
  | .dict entries => .ok entries
  | _ => .error (.valueError (name ++ " must be an object with string keys"))

/-- `_string` of the workload generator. -/
def stringValue (value : PyValue) (name : String) : Except PythonError String :=
  match value with
  | .str text => .ok text
  | _ => .error (.valueError (name ++ " must be a string"))

/-- `_decimal` of the workload generator. -/
def decimalValue (value : PyValue) (name : String) : Except PythonError Int := do
  let text ← stringValue value name
  if text.toList = [] ∨ text ≠ "0" ∧ (text.toList.head? = some '0' ∨ !isDecimal text.toList) then
    .error (.valueError (name ++ " must be canonical unsigned decimal"))
  else intOfDigits text.toList

/-- The digits behind an optional minus sign. -/
def unsignedPart : List Char → List Char
  | '-' :: digits => digits
  | digits => digits

/-- `_signed_decimal` of the workload generator. -/
def signedDecimalValue (value : PyValue) (name : String) : Except PythonError Int := do
  let text ← stringValue value name
  let digits := unsignedPart text.toList
  if digits = [] ∨ digits ≠ ['0'] ∧ (digits.head? = some '0' ∨ !isDecimal digits) then
    .error (.valueError (name ++ " must be canonical signed decimal"))
  else if text = "-0" then .error (.valueError (name ++ " must not use negative zero"))
  else intOfSigned text.toList

/-- `_json_int` of the workload generator. -/
def jsonInt (value : PyValue) (name : String) : Except PythonError Int :=
  match value with
  | .int value => .ok value
  | _ => .error (.valueError (name ++ " must be a JSON integer"))

/-- `_decimal` of the routed workloads. -/
def boundedDecimal (maximum : Int) (value : PyValue) (name : String) : Except PythonError Int :=
  match value with
  | .str text =>
    if !isAscii text.toList ∨ !isDecimal text.toList ∨
        1 < text.toList.length ∧ text.toList.head? = some '0' then
      .error (.valueError (name ++ " must be a canonical decimal string"))
    else do
      let parsed ← intOfDigits text.toList
      if 0 ≤ parsed ∧ parsed ≤ maximum then pure parsed
      else .error (.valueError (name ++ " is outside its representation"))
  | _ => .error (.valueError (name ++ " must be a canonical decimal string"))

/-- `_signed_decimal` of the routed workloads. -/
def boundedSigned (value : PyValue) (name : String) : Except PythonError Int :=
  match value with
  | .str text =>
    let canonical := match text.toList with
      | '-' :: digits => isDecimal digits && digits.head? != some '0'
      | digits => isDecimal digits && !(1 < digits.length && digits.head? == some '0')
    if !isAscii text.toList ∨ !canonical then
      .error (.valueError (name ++ " must be a canonical signed decimal string"))
    else do
      let parsed ← intOfSigned text.toList
      if i64Min ≤ parsed ∧ parsed ≤ i64Max then pure parsed
      else .error (.valueError (name ++ " is outside i64"))
  | _ => .error (.valueError (name ++ " must be a canonical signed decimal string"))

/-- `_json_u8` of the routed workloads. -/
def jsonByte (value : PyValue) (name : String) : Except PythonError Int :=
  match value with
  | .int value =>
    if 0 ≤ value ∧ value ≤ 255 then .ok value
    else .error (.valueError (name ++ " must be a JSON u8"))
  | _ => .error (.valueError (name ++ " must be a JSON u8"))

end AtlasLob.Oracle
