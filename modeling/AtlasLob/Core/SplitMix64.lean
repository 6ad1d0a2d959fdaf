import AtlasLob.Library.Mixing

/-!
# The generator of deterministic draws

`SplitMix64` of the workload generator: a state that strides through the words, a mixing of the
state into a value, and a draw below a bound that refuses the values above the last multiple of
the bound.
-/

namespace AtlasLob

/-- What stops the Python code: an exception with its message, or a loop that never ends. -/
inductive PythonError
  /-- `ValueError`. -/
  | valueError (message : String)
  /-- `TypeError`. -/
  | typeError (message : String)
  /-- `OverflowError`. -/
  | overflowError (message : String)
  /-- `AssertionError`. -/
  | assertionError (message : String)
  /-- `RuntimeError`. -/
  | runtimeError (message : String)
  /-- `KeyError`. -/
  | keyError
  /-- A loop that never ends. -/
  | divergence
  deriving DecidableEq, Repr

/-- The message of `_require_int`. -/
def requireIntMessage (name : String) (minimum maximum : Int) : String :=
  name ++ " must be an integer in [" ++ toString minimum ++ ", " ++ toString maximum ++ "]"

/-- `_require_int`. -/
def requireInt (name : String) (value minimum maximum : Int) : Except PythonError Unit :=
  if minimum ≤ value ∧ value ≤ maximum then .ok ()
  else .error (.valueError (requireIntMessage name minimum maximum))

/-- A check that passes hands over to what follows. -/
@[simp] theorem pythonOk_bind {α β : Type} (value : α) (next : α → Except PythonError β) :
    (Except.ok value >>= next) = next value := rfl

/-- A value in range passes the check. -/
theorem requireInt_ok {name : String} {value minimum maximum : Int} (lower : minimum ≤ value)
    (upper : value ≤ maximum) : requireInt name value minimum maximum = .ok () := by
  unfold requireInt
  rw [if_pos ⟨lower, upper⟩]

/-- `SplitMix64`. -/
structure SplitMix64 where
  /-- `_state`. -/
  state : UInt64
  deriving DecidableEq, Repr

namespace SplitMix64

/-- The stride of the state. -/
def gamma : UInt64 := 0x9E3779B97F4A7C15

/-- The value a state is mixed into. -/
def mix (state : UInt64) : UInt64 :=
  let value := state
  let value := (value ^^^ (value >>> 30)) * 0xBF58476D1CE4E5B9
  let value := (value ^^^ (value >>> 27)) * 0x94D049BB133111EB
  value ^^^ (value >>> 31)

/-- `SplitMix64.next_u64`. -/
def nextU64 (generator : SplitMix64) : UInt64 × SplitMix64 :=
  let state := generator.state + gamma
  (mix state, ⟨state⟩)

/-- The values a draw below a bound accepts. -/
def acceptLimit (bound : Nat) : Nat := 2 ^ 64 - 2 ^ 64 % bound

/-- The loop of `randbelow`, for a number of draws. -/
def randbelowLoop (bound : Nat) : Nat → SplitMix64 → Except PythonError (Nat × SplitMix64)
  | 0, _ => .error .divergence
  | draws + 1, generator =>
    let (value, next) := generator.nextU64
    if value.toNat < acceptLimit bound then .ok (value.toNat % bound, next)
    else randbelowLoop bound draws next

/-- The number of states. -/
@[irreducible] def cycle : Nat := 2 ^ 64

/-- `SplitMix64.randbelow`. After as many draws as there are states, every state has come up
and the loop would repeat itself forever. -/
def randbelow (bound : Nat) (generator : SplitMix64) : Except PythonError (Nat × SplitMix64) := do
  requireInt "bound" bound 1 (2 ^ 64)
  randbelowLoop bound cycle generator

/-- The state after a number of draws. -/
def after (generator : SplitMix64) : Nat → SplitMix64
  | 0 => generator
  | draws + 1 => (after generator draws).nextU64.2

/-- The value of a draw, counting from zero. -/
def draw (generator : SplitMix64) (index : Nat) : UInt64 := (generator.after index).nextU64.1

end SplitMix64

end AtlasLob
