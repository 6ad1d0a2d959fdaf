import AtlasLob.Core.SplitMix64
import AtlasLob.Library.Decimal

/-!
# The vocabulary of the oracle

The value-only commands of the Python oracle. Their fields are unbounded integers; the width a
field has on the wire is checked where a command is encoded as a line of text.
-/

namespace AtlasLob.Oracle

/-- `U8_MAX`. -/
def u8Max : Int := 255

/-- `U32_MAX`. -/
def u32Max : Int := 4294967295

/-- `U64_MAX`. -/
def u64Max : Int := 18446744073709551615

/-- `I64_MIN`. -/
def i64Min : Int := -9223372036854775808

/-- `I64_MAX`. -/
def i64Max : Int := 9223372036854775807

/-- `Side.BUY`. -/
def buy : Int := 1

/-- `Side.SELL`. -/
def sell : Int := 2

/-- `OrderType.LIMIT`. -/
def limit : Int := 1

/-- `OrderType.MARKET`. -/
def market : Int := 2

/-- `TimeInForce.GTC`. -/
def gtc : Int := 1

/-- `TimeInForce.IOC`. -/
def ioc : Int := 2

/-- `TimeInForce.FOK`. -/
def fok : Int := 3

/-- `NewOrder`. -/
structure NewOrder where
  clientId : Int
  orderId : Int
  instrumentId : Int
  side : Int
  orderType : Int
  timeInForce : Int
  limitPrice : Option Int
  quantity : Int
  deriving DecidableEq, Repr

/-- `CancelOrder`. -/
structure CancelOrder where
  clientId : Int
  orderId : Int
  instrumentId : Int
  deriving DecidableEq, Repr

/-- `ReplaceOrder`. -/
structure ReplaceOrder where
  clientId : Int
  oldOrderId : Int
  newOrderId : Int
  instrumentId : Int
  newLimitPrice : Int
  newQuantity : Int
  deriving DecidableEq, Repr

/-- `Command`. -/
inductive Command
  /-- Submit an order. -/
  | newOrder (order : NewOrder)
  /-- Withdraw an order. -/
  | cancel (order : CancelOrder)
  /-- Exchange an order. -/
  | replace (order : ReplaceOrder)
  deriving DecidableEq, Repr

/-- A value that an unsigned field with this maximum holds. -/
def Fits (maximum value : Int) : Prop := 0 ≤ value ∧ value ≤ maximum

/-- A value that a signed 64-bit field holds. -/
def FitsSigned (value : Int) : Prop := i64Min ≤ value ∧ value ≤ i64Max

instance (maximum value : Int) : Decidable (Fits maximum value) :=
  inferInstanceAs (Decidable (_ ∧ _))

instance (value : Int) : Decidable (FitsSigned value) :=
  inferInstanceAs (Decidable (_ ∧ _))

/-- The check of an unsigned field. -/
def unsignedField (name : String) (value maximum : Int) : Except PythonError Unit :=
  if Fits maximum value then .ok ()
  else .error (.valueError (name ++ " is outside its unsigned domain representation"))

/-- The check of a signed field. -/
def signedField (name : String) (value : Int) : Except PythonError Unit :=
  if FitsSigned value then .ok ()
  else .error (.valueError (name ++ " is outside its i64 domain representation"))

/-- The check of a signed field that may be absent. -/
def optionalSignedField (name : String) : Option Int → Except PythonError Unit
  | none => .ok ()
  | some value => signedField name value

/-- `_require_representable`. -/
def requireRepresentable : Command → Except PythonError Unit
  | .newOrder order => do
    unsignedField "client_id" order.clientId u32Max
    unsignedField "order_id" order.orderId u64Max
    unsignedField "instrument_id" order.instrumentId u32Max
    unsignedField "side" order.side u8Max
    unsignedField "order_type" order.orderType u8Max
    unsignedField "time_in_force" order.timeInForce u8Max
    optionalSignedField "limit_price" order.limitPrice
    unsignedField "quantity" order.quantity u64Max
  | .cancel order => do
    unsignedField "client_id" order.clientId u32Max
    unsignedField "order_id" order.orderId u64Max
    unsignedField "instrument_id" order.instrumentId u32Max
  | .replace order => do
    unsignedField "client_id" order.clientId u32Max
    unsignedField "old_order_id" order.oldOrderId u64Max
    unsignedField "new_order_id" order.newOrderId u64Max
    unsignedField "instrument_id" order.instrumentId u32Max
    signedField "new_limit_price" order.newLimitPrice
    unsignedField "new_quantity" order.newQuantity u64Max

/-- The fields of the line of a command. -/
def Command.fields : Command → List (List Char)
  | .newOrder order =>
    [['N'], Decimal.signedText order.clientId, Decimal.signedText order.orderId,
      Decimal.signedText order.instrumentId, Decimal.signedText order.side,
      Decimal.signedText order.orderType, Decimal.signedText order.timeInForce,
      Decimal.signedText (if order.limitPrice.isSome then 1 else 0),
      Decimal.signedText (order.limitPrice.getD 0), Decimal.signedText order.quantity]
  | .cancel order =>
    [['C'], Decimal.signedText order.clientId, Decimal.signedText order.orderId,
      Decimal.signedText order.instrumentId]
  | .replace order =>
    [['R'], Decimal.signedText order.clientId, Decimal.signedText order.oldOrderId,
      Decimal.signedText order.newOrderId, Decimal.signedText order.instrumentId,
      Decimal.signedText order.newLimitPrice, Decimal.signedText order.newQuantity]

/-- `encode_command`. -/
def encodeCommand (command : Command) : Except PythonError (List Char) := do
  requireRepresentable command
  pure (List.intercalate [' '] command.fields)

/-- `_require_u64`. -/
def requireU64 (name : String) (value : Int) (nonzero : Bool) : Except PythonError Unit :=
  if 0 ≤ value ∧ value ≤ u64Max ∧ ¬(nonzero ∧ value = 0) then .ok ()
  else .error (.valueError (name ++ " must be a " ++ (if nonzero then "nonzero " else "") ++ "u64"))

/-- `_require_i64`. -/
def requireI64 (name : String) (value : Int) : Except PythonError Unit :=
  if i64Min ≤ value ∧ value ≤ i64Max then .ok ()
  else .error (.valueError (name ++ " must be an i64"))

/-- A check that stops with a `ValueError`. -/
def requireThat (condition : Prop) [Decidable condition] (message : String) :
    Except PythonError Unit :=
  if condition then .ok () else .error (.valueError message)

/-- `MatchingConfig.__post_init__`. -/
def checkMatchingConfig (maxOrderQuantity tickIncrement maxActiveOrders : Int) :
    Except PythonError Unit := do
  requireU64 "max_order_quantity" maxOrderQuantity true
  requireI64 "tick_increment" tickIncrement
  requireThat (0 < tickIncrement) "tick_increment must be positive"
  requireU64 "max_active_orders" maxActiveOrders false

/-- `MatchingConfig`. -/
structure MatchingConfig where
  maxOrderQuantity : Int
  tickIncrement : Int
  maxActiveOrders : Int
  /-- The constructor did not raise. -/
  valid : checkMatchingConfig maxOrderQuantity tickIncrement maxActiveOrders = .ok ()

/-- `InstrumentConfig`, with what its constructor checks. -/
structure InstrumentConfig where
  instrumentId : Int
  matching : MatchingConfig
  /-- A nonzero identifier. -/
  instrument_valid : 1 ≤ instrumentId ∧ instrumentId ≤ u32Max

/-- The fields of a command have the widths of the wire. -/
def Command.Representable : Command → Prop
  | .newOrder order =>
    Fits u32Max order.clientId ∧ Fits u64Max order.orderId ∧ Fits u32Max order.instrumentId ∧
      Fits u8Max order.side ∧ Fits u8Max order.orderType ∧ Fits u8Max order.timeInForce ∧
      (∀ price ∈ order.limitPrice, FitsSigned price) ∧ Fits u64Max order.quantity
  | .cancel order =>
    Fits u32Max order.clientId ∧ Fits u64Max order.orderId ∧ Fits u32Max order.instrumentId
  | .replace order =>
    Fits u32Max order.clientId ∧ Fits u64Max order.oldOrderId ∧ Fits u64Max order.newOrderId ∧
      Fits u32Max order.instrumentId ∧ FitsSigned order.newLimitPrice ∧
      Fits u64Max order.newQuantity

/-- An unsigned field passes when its value fits. -/
@[simp] theorem unsignedField_eq_ok {name : String} {value maximum : Int} :
    unsignedField name value maximum = .ok () ↔ Fits maximum value := by
  unfold unsignedField
  split <;> simp_all

/-- A signed field passes when its value fits. -/
@[simp] theorem signedField_eq_ok {name : String} {value : Int} :
    signedField name value = .ok () ↔ FitsSigned value := by
  unfold signedField
  split <;> simp_all

/-- An optional signed field passes when a present value fits. -/
@[simp] theorem optionalSignedField_eq_ok {name : String} {value : Option Int} :
    optionalSignedField name value = .ok () ↔ ∀ present ∈ value, FitsSigned present := by
  cases value with
  | none => simp [optionalSignedField]
  | some value => simp [optionalSignedField]

/-- Two checks pass when both do. -/
theorem checks_eq_ok {first second : Except PythonError Unit} :
    (first >>= fun _ => second) = .ok () ↔ first = .ok () ∧ second = .ok () := by
  cases first with
  | error error => exact ⟨nofun, fun both => absurd both.1 (by simp)⟩
  | ok _ => exact ⟨fun run => ⟨rfl, run⟩, fun both => both.2⟩

/-- The check of an unsigned word passes for the words. -/
@[simp] theorem requireU64_eq_ok {name : String} {value : Int} {nonzero : Bool} :
    requireU64 name value nonzero = .ok () ↔
      0 ≤ value ∧ value ≤ u64Max ∧ ¬(nonzero ∧ value = 0) := by
  unfold requireU64
  split
  · exact iff_of_true rfl ‹_›
  · exact iff_of_false nofun ‹_›

/-- The check of a signed word passes for the signed words. -/
@[simp] theorem requireI64_eq_ok {name : String} {value : Int} :
    requireI64 name value = .ok () ↔ i64Min ≤ value ∧ value ≤ i64Max := by
  unfold requireI64
  split <;> simp_all

/-- A check passes when its condition holds. -/
@[simp] theorem requireThat_eq_ok {condition : Prop} [Decidable condition] {message : String} :
    requireThat condition message = .ok () ↔ condition := by
  unfold requireThat
  split <;> simp_all

/-- The check of an integer passes in its range. -/
@[simp] theorem requireInt_eq_ok {name : String} {value minimum maximum : Int} :
    requireInt name value minimum maximum = .ok () ↔ minimum ≤ value ∧ value ≤ maximum := by
  unfold requireInt
  split <;> simp_all

/-- What the constructor of a configuration checks. -/
theorem MatchingConfig.bounds (config : MatchingConfig) :
    (1 ≤ config.maxOrderQuantity ∧ config.maxOrderQuantity ≤ u64Max) ∧
      (1 ≤ config.tickIncrement ∧ config.tickIncrement ≤ i64Max) ∧
      0 ≤ config.maxActiveOrders ∧ config.maxActiveOrders ≤ u64Max := by
  have valid := config.valid
  simp only [checkMatchingConfig, checks_eq_ok, requireU64_eq_ok, requireI64_eq_ok,
    requireThat_eq_ok, Bool.false_eq_true, false_and, not_false_eq_true, and_true, true_and]
      at valid
  obtain ⟨⟨_, quantity, nonzero⟩, ⟨_, tick⟩, positive, active⟩ := valid
  exact ⟨⟨by omega, quantity⟩, ⟨by omega, tick⟩, active⟩

/-- The check of a command passes exactly for the representable ones. -/
theorem requireRepresentable_eq_ok {command : Command} :
    requireRepresentable command = .ok () ↔ command.Representable := by
  cases command with
  | newOrder order =>
    simp only [requireRepresentable, checks_eq_ok, unsignedField_eq_ok, optionalSignedField_eq_ok,
      Command.Representable]
  | cancel order =>
    simp only [requireRepresentable, checks_eq_ok, unsignedField_eq_ok, Command.Representable]
  | replace order =>
    simp only [requireRepresentable, checks_eq_ok, unsignedField_eq_ok, signedField_eq_ok,
      Command.Representable]

/-- A representable command is encoded as its fields. -/
theorem encodeCommand_ok {command : Command} (representable : command.Representable) :
    encodeCommand command = .ok (List.intercalate [' '] command.fields) := by
  unfold encodeCommand
  rw [requireRepresentable_eq_ok.mpr representable]
  rfl

/-- Only a representable command is encoded. -/
theorem encodeCommand_representable {command : Command} {line : List Char}
    (encoded : encodeCommand command = .ok line) : command.Representable := by
  unfold encodeCommand at encoded
  cases run : requireRepresentable command with
  | error error =>
    rw [run] at encoded
    exact absurd encoded (by simp [bind, Except.bind])
  | ok _ => exact requireRepresentable_eq_ok.mp run

/-- The fields of a command hold letters, digits and minus signs. -/
theorem Command.fields_characters {command : Command} {field : List Char} {character : Char}
    (inside : field ∈ command.fields) (member : character ∈ field) :
    character.isAlphanum = true ∨ character = '-' := by
  have number : ∀ value : Int, character ∈ Decimal.signedText value →
      character.isAlphanum = true ∨ character = '-' := by
    intro value digits
    cases Decimal.signedText_characters digits with
    | inl digit => exact Or.inl (by simp [Char.isAlphanum, digit])
    | inr minus => exact Or.inr minus
  have letter : ∀ tag : Char, tag.isAlphanum = true → character ∈ [tag] →
      character.isAlphanum = true ∨ character = '-' := by
    intro tag alphabetic same
    rw [List.mem_singleton.mp same]
    exact Or.inl alphabetic
  cases command with
  | newOrder order =>
    simp only [Command.fields, List.mem_cons, List.not_mem_nil, or_false] at inside
    rcases inside with rfl | rfl | rfl | rfl | rfl | rfl | rfl | rfl | rfl | rfl
    · exact letter 'N' (by decide) member
    all_goals exact number _ member
  | cancel order =>
    simp only [Command.fields, List.mem_cons, List.not_mem_nil, or_false] at inside
    rcases inside with rfl | rfl | rfl | rfl
    · exact letter 'C' (by decide) member
    all_goals exact number _ member
  | replace order =>
    simp only [Command.fields, List.mem_cons, List.not_mem_nil, or_false] at inside
    rcases inside with rfl | rfl | rfl | rfl | rfl | rfl | rfl
    · exact letter 'R' (by decide) member
    all_goals exact number _ member

/-- Different commands have different fields. -/
theorem Command.fields_injective {left right : Command} (same : left.fields = right.fields) :
    left = right := by
  cases left with
  | newOrder left =>
    cases right with
    | newOrder right =>
      simp only [Command.fields, List.cons.injEq, and_true, true_and] at same
      obtain ⟨client, order, instrument, side, type, force, present, price, quantity⟩ := same
      have presence := Decimal.signedText_injective present
      have value := Decimal.signedText_injective price
      have prices : left.limitPrice = right.limitPrice := by
        cases leftPrice : left.limitPrice <;> cases rightPrice : right.limitPrice <;>
          simp_all
      have clients := Decimal.signedText_injective client
      have orders := Decimal.signedText_injective order
      have instruments := Decimal.signedText_injective instrument
      have sides := Decimal.signedText_injective side
      have types := Decimal.signedText_injective type
      have forces := Decimal.signedText_injective force
      have quantities := Decimal.signedText_injective quantity
      cases left
      cases right
      simp_all
    | cancel right => simp [Command.fields] at same
    | replace right => simp [Command.fields] at same
  | cancel left =>
    cases right with
    | newOrder right => simp [Command.fields] at same
    | cancel right =>
      simp only [Command.fields, List.cons.injEq, and_true, true_and] at same
      obtain ⟨client, order, instrument⟩ := same
      have clients := Decimal.signedText_injective client
      have orders := Decimal.signedText_injective order
      have instruments := Decimal.signedText_injective instrument
      cases left
      cases right
      simp_all
    | replace right => simp [Command.fields] at same
  | replace left =>
    cases right with
    | newOrder right => simp [Command.fields] at same
    | cancel right => simp [Command.fields] at same
    | replace right =>
      simp only [Command.fields, List.cons.injEq, and_true, true_and] at same
      obtain ⟨client, old, new, instrument, price, quantity⟩ := same
      have clients := Decimal.signedText_injective client
      have olds := Decimal.signedText_injective old
      have news := Decimal.signedText_injective new
      have instruments := Decimal.signedText_injective instrument
      have prices := Decimal.signedText_injective price
      have quantities := Decimal.signedText_injective quantity
      cases left
      cases right
      simp_all

end AtlasLob.Oracle
