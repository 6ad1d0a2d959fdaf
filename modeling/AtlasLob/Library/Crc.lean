import Mathlib

/-!
# Reflected cyclic redundancy checks

The bitwise division of a message by a polynomial, least significant bit first, over a register
of any width. A shift of the register is linear and, when the polynomial has its top bit,
loses nothing, so that two messages that differ only inside one window no wider than the
register never share a remainder.
-/

namespace AtlasLob.Crc

variable {width : Nat}

/-- One bit of the division. -/
def shift (polynomial register : BitVec width) : BitVec width :=
  (register >>> 1) ^^^ (if register.getLsbD 0 then polynomial else BitVec.ofNat width 0)

/-- Several bits of the division. -/
def shifts (polynomial : BitVec width) : Nat → BitVec width → BitVec width
  | 0, register => register
  | count + 1, register => shifts polynomial count (shift polynomial register)

/-- Absorb one byte. -/
def absorb (polynomial register : BitVec width) (byte : UInt8) : BitVec width :=
  shifts polynomial 8 (register ^^^ byte.toBitVec.setWidth width)

/-- Absorb a message. -/
def remainder (polynomial : BitVec width) (register : BitVec width) (message : List UInt8) :
    BitVec width :=
  message.foldl (absorb polynomial) register

/-- A window of bytes as one register value, the first byte lowest. -/
def packed : List UInt8 → BitVec width
  | [] => BitVec.ofNat width 0
  | byte :: rest => byte.toBitVec.setWidth width ^^^ (packed rest <<< 8)

/-- A shift is linear. -/
theorem shift_xor (polynomial left right : BitVec width) :
    shift polynomial (left ^^^ right) = shift polynomial left ^^^ shift polynomial right := by
  unfold shift
  rw [BitVec.ushiftRight_xor_distrib, BitVec.getLsbD_xor]
  apply BitVec.eq_of_getLsbD_eq
  intro index inside
  cases left.getLsbD 0 <;> cases right.getLsbD 0 <;> simp <;> grind

/-- A shift loses nothing when the polynomial has its top bit. -/
theorem shift_eq_zero {polynomial register : BitVec width} (top : polynomial.msb = true)
    (zero : shift polynomial register = BitVec.ofNat width 0) :
    register = BitVec.ofNat width 0 := by
  have bits : ∀ index, (shift polynomial register).getLsbD index = false := by
    intro index
    rw [zero, BitVec.getLsbD_zero]
  have positive : 0 < width := by
    rcases Nat.eq_zero_or_pos width with none | positive
    · subst none
      rw [BitVec.msb_eq_getLsbD_last, BitVec.getLsbD_of_ge _ _ (by omega)] at top
      exact Bool.noConfusion top
    · exact positive
  have last : polynomial.getLsbD (width - 1) = true := by
    rw [← BitVec.msb_eq_getLsbD_last]
    exact top
  have low : register.getLsbD 0 = false := by
    have bit := bits (width - 1)
    unfold shift at bit
    rw [BitVec.getLsbD_xor, BitVec.getLsbD_ushiftRight,
      BitVec.getLsbD_of_ge register (1 + (width - 1)) (by omega), Bool.false_xor] at bit
    by_contra set
    rw [Bool.not_eq_false] at set
    rw [if_pos set, last] at bit
    exact Bool.noConfusion bit
  apply BitVec.eq_of_getLsbD_eq
  intro index _
  rw [BitVec.getLsbD_zero]
  cases index with
  | zero => exact low
  | succ index =>
    have bit := bits index
    unfold shift at bit
    rw [low, if_neg Bool.false_ne_true, BitVec.xor_zero, BitVec.getLsbD_ushiftRight] at bit
    rw [Nat.add_comm]
    exact bit

/-- Several shifts are linear. -/
theorem shifts_xor (polynomial : BitVec width) (count : Nat) (left right : BitVec width) :
    shifts polynomial count (left ^^^ right) =
      shifts polynomial count left ^^^ shifts polynomial count right := by
  induction count generalizing left right with
  | zero => rfl
  | succ count ih =>
    unfold shifts
    rw [shift_xor, ih]

/-- Several shifts lose nothing when the polynomial has its top bit. -/
theorem shifts_eq_zero {polynomial : BitVec width} (top : polynomial.msb = true) (count : Nat)
    {register : BitVec width} (zero : shifts polynomial count register = BitVec.ofNat width 0) :
    register = BitVec.ofNat width 0 := by
  induction count generalizing register with
  | zero => exact zero
  | succ count ih => exact shift_eq_zero top (ih zero)

/-- Different registers stay different. -/
theorem shifts_injective {polynomial : BitVec width} (top : polynomial.msb = true) (count : Nat)
    {left right : BitVec width}
    (same : shifts polynomial count left = shifts polynomial count right) : left = right := by
  apply BitVec.xor_eq_zero_iff.mp
  apply shifts_eq_zero top count
  rw [shifts_xor, same, BitVec.xor_self]

/-- Shifts compose. -/
theorem shifts_add (polynomial : BitVec width) (first second : Nat) (register : BitVec width) :
    shifts polynomial second (shifts polynomial first register) =
      shifts polynomial (first + second) register := by
  induction first generalizing register with
  | zero => rw [Nat.zero_add]; rfl
  | succ first ih =>
    rw [Nat.succ_add]
    exact ih (shift polynomial register)

/-- One shift more at the end is one shift more at the start. -/
theorem shifts_shift (polynomial : BitVec width) (count : Nat) (register : BitVec width) :
    shifts polynomial count (shift polynomial register) =
      shift polynomial (shifts polynomial count register) := by
  induction count generalizing register with
  | zero => rfl
  | succ count ih => exact ih (shift polynomial register)

/-- Shifting back what was moved up without loss returns it. -/
theorem shifts_shiftLeft (polynomial : BitVec width) (count : Nat) (value : BitVec width)
    (clear : ∀ index, width ≤ index + count → value.getLsbD index = false) :
    shifts polynomial count (value <<< count) = value := by
  induction count with
  | zero => rw [BitVec.shiftLeft_zero]; rfl
  | succ count ih =>
    have single : shift polynomial (value <<< (count + 1)) = value <<< count := by
      unfold shift
      rw [BitVec.getLsbD_shiftLeft]
      apply BitVec.eq_of_getLsbD_eq
      intro index inside
      have := clear (index - count)
      simp
      grind
    unfold shifts
    rw [single]
    exact ih fun index above => clear index (by omega)

/-- A window fills no more than its own bits. -/
theorem packed_clear (window : List UInt8) (index : Nat) (above : 8 * window.length ≤ index) :
    (packed window : BitVec width).getLsbD index = false := by
  induction window generalizing index with
  | nil => exact BitVec.getLsbD_zero
  | cons byte rest ih =>
    rw [List.length_cons] at above
    unfold packed
    rw [BitVec.getLsbD_xor, BitVec.getLsbD_setWidth, BitVec.getLsbD_shiftLeft,
      ih (index - 8) (by omega), BitVec.getLsbD_of_ge _ index (by omega)]
    simp

/-- A window that fits its register is determined by its value. -/
theorem packed_injective {left right : List UInt8} (length : left.length = right.length)
    (fits : 8 * left.length ≤ width)
    (same : (packed left : BitVec width) = packed right) : left = right := by
  induction left generalizing right with
  | nil => exact (List.length_eq_zero_iff.mp length.symm).symm
  | cons byte rest ih =>
    cases right with
    | nil => cases length
    | cons other tail =>
      rw [List.length_cons] at fits
      have bits : ∀ index, (packed (byte :: rest) : BitVec width).getLsbD index =
          (packed (other :: tail) : BitVec width).getLsbD index := by
        intro index
        rw [same]
      unfold packed at bits
      have low : byte = other := by
        apply UInt8.toBitVec_inj.mp
        apply BitVec.eq_of_getLsbD_eq
        intro index inside
        have bit := bits index
        simp only [BitVec.getLsbD_xor, BitVec.getLsbD_setWidth, BitVec.getLsbD_shiftLeft] at bit
        have room : index < width := by omega
        simpa [inside, room] using bit
      subst low
      congr 1
      refine ih (Nat.succ.inj length) (by omega) (BitVec.eq_of_getLsbD_eq fun index inside => ?_)
      by_cases above : 8 * rest.length ≤ index
      · rw [packed_clear rest index above,
          packed_clear tail index (by rw [← Nat.succ.inj length]; exact above)]
      · have bit := bits (index + 8)
        have room : index + 8 < width := by omega
        simpa only [BitVec.getLsbD_xor, BitVec.getLsbD_shiftLeft, room, decide_true,
          Bool.true_and, Nat.add_sub_cancel, Nat.not_lt.mpr (Nat.le_add_left 8 index),
          decide_false, Bool.not_false, Bool.xor_right_inj] using bit

/-- Absorbing a window is one run of shifts over the register with the window in it. -/
theorem remainder_window (polynomial register : BitVec width) (window : List UInt8)
    (fits : 8 * window.length ≤ width) :
    remainder polynomial register window =
      shifts polynomial (8 * window.length) (register ^^^ packed window) := by
  induction window generalizing register with
  | nil =>
    show register = register ^^^ BitVec.ofNat width 0
    rw [BitVec.xor_zero]
  | cons byte rest ih =>
    rw [List.length_cons] at fits
    have back : shifts polynomial 8 (packed rest <<< 8) = packed rest :=
      shifts_shiftLeft polynomial 8 _ fun index above =>
        packed_clear rest index (by omega)
    calc remainder polynomial register (byte :: rest)
        = remainder polynomial (absorb polynomial register byte) rest := rfl
      _ = shifts polynomial (8 * rest.length)
            (shifts polynomial 8 (register ^^^ byte.toBitVec.setWidth width) ^^^ packed rest) := by
          rw [ih _ (by omega)]
          rfl
      _ = shifts polynomial (8 * rest.length)
            (shifts polynomial 8 ((register ^^^ byte.toBitVec.setWidth width) ^^^
              (packed rest <<< 8))) := by
          rw [shifts_xor _ 8 _ (packed rest <<< 8), back]
      _ = shifts polynomial (8 * (byte :: rest).length) (register ^^^ packed (byte :: rest)) := by
          rw [shifts_add, BitVec.xor_assoc, List.length_cons, Nat.mul_add, Nat.add_comm]
          rfl

/-- Absorbing one message keeps different registers different. -/
theorem remainder_injective {polynomial : BitVec width} (top : polynomial.msb = true)
    (message : List UInt8) {left right : BitVec width}
    (same : remainder polynomial left message = remainder polynomial right message) :
    left = right := by
  induction message generalizing left right with
  | nil => exact same
  | cons byte rest ih =>
    exact (BitVec.xor_left_inj _).mp (shifts_injective top 8 (ih same))

/-- Absorbing a message in two parts. -/
theorem remainder_append (polynomial register : BitVec width) (first second : List UInt8) :
    remainder polynomial register (first ++ second) =
      remainder polynomial (remainder polynomial register first) second :=
  List.foldl_append

/-- Two messages that differ only inside a window no wider than the register have different
remainders. -/
theorem remainder_burst {polynomial : BitVec width} (top : polynomial.msb = true)
    (register : BitVec width) (before after : List UInt8) {left right : List UInt8}
    (length : left.length = right.length) (fits : 8 * left.length ≤ width)
    (same : remainder polynomial register (before ++ left ++ after) =
      remainder polynomial register (before ++ right ++ after)) : left = right := by
  rw [remainder_append, remainder_append, remainder_append, remainder_append] at same
  have windows := remainder_injective top after same
  rw [remainder_window _ _ left fits, remainder_window _ _ right (by rw [← length]; exact fits),
    ← length] at windows
  exact packed_injective length fits ((BitVec.xor_right_inj _).mp (shifts_injective top _ windows))

end AtlasLob.Crc
