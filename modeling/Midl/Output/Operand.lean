import Midl.Enumeration
import Midl.Output.Identifier

/-!
# Operands in the output

Members of an enumeration become constants of 32 bits with a sign. Their operands keep the form
they were written in as far as that form means the same number there; bit patterns and numbers
that take all 32 bits are written without a sign and converted. An operand that does not fit in 32
bits has no form.
-/

namespace Midl.Output

/-- The greatest number of 31 bits. -/
def maxSigned : Int64 := 0x7FFFFFFF

/-- The least number of 32 bits with a sign. -/
def minSigned : Int64 := -0x80000000

/-- The greatest number of 32 bits. -/
def maxUnsigned : Int64 := 0xFFFFFFFF

/-- Whether a number fits in 32 bits with a sign. -/
def isSigned32 (n : Int64) : Bool := minSigned ≤ n && n ≤ maxSigned

/-- Whether a number fits in 32 bits with or without a sign. Source: `fits_in_32_bits`. -/
def fitsIn32 (n : Int64) : Bool := minSigned ≤ n && n ≤ maxUnsigned

/-- An unsigned literal, converted to the signed number of the same bits. -/
def converted (literal : String) : String := "(" ++ literal ++ "u32 as i32)"

/-- A number that fits in 32 bits. Source: `i32_literal`. -/
def numberText (n : Int64) : String :=
  let digits := toString n.toInt
  if maxSigned < n then converted digits else digits

/-- A literal of the given value in an enumeration, without the letters that follow it. Source:
`enum_operand`. -/
def literalText? (literal : String) (value : Int64) : Option String :=
  match literal.toList with
  | '-' :: _ => if isSigned32 value then some literal else none
  | cs =>
    let isHex := match cs with
      | '0' :: 'x' :: _ | '0' :: 'X' :: _ => true
      | _ => false
    if (isHex && value < 0) || (maxSigned < value && value ≤ maxUnsigned) then
      some (converted literal)
    else if isSigned32 value then some literal
    else none

/-- An operand in an enumeration, or nothing if it does not fit in 32 bits. Source: `enum_operand`.
-/
def memberOperand (operand : String) : Except Fault (Option String) := do
  match ← Integer.read operand with
  | none => return some (identifier operand)
  | some value => return literalText? (Integer.stemText operand) value

/-- The operands of a member, unless one of them does not fit in 32 bits or has been `skipped`. The
first such operand settles the matter, and those after it are not looked at. Source:
`generate_enum`. -/
def memberOperands (skipped : List String) : List String → Except Fault (Option (List String))
  | [] => .ok (some [])
  | operand :: operands => do
    if operand ∈ skipped then return none
    else match ← memberOperand operand with
      | none => return none
      | some text => return (← memberOperands skipped operands).map (text :: ·)

/-- The value of a member, or nothing if it has no form: it does not fit in 32 bits, or refers to a
member that has none. Source: `generate_enum`. -/
def memberText (skipped : List String) (value : Option (List String)) (resolved : Resolved) :
    Except Fault (Option String) :=
  match value, resolved with
  | none, .known n => .ok (if fitsIn32 n then some (numberText n) else none)
  | none, .offset base distance =>
    .ok (if base ∈ skipped then none else some (identifier base ++ " + " ++ toString distance))
  | none, .verbatim text => .ok (some text)
  | some operands, .known n =>
    if fitsIn32 n then joined operands else .ok none
  | some operands, _ => joined operands
where
  /-- The operands as one expression. -/
  joined (operands : List String) : Except Fault (Option String) := do
    return (← memberOperands skipped operands).map joinOperands

/-- An operand of a constant. Literals take the type of the constant, so that they always fit.
Source: `const_operand`. -/
def constantOperand (operand : String) : Except Fault String := do
  match ← Integer.read operand with
  | none => return identifier operand
  | some _ => return Integer.stemText operand

end Midl.Output
