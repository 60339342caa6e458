import Midl.Fault

/-!
# Integer literals

An integer literal is decimal or, after `0x`, hexadecimal; a dash before it negates it, and letters
`l` and `u` after it are ignored. A hexadecimal number that fits in 32 bits is a bit pattern: with
the highest of them set it is negative. What is left after the dash may have a sign of its own, so
that a text with two dashes is read too, and the least integer can turn up to be negated, which is
the one case that is given up.
-/

namespace Midl.Integer

/-- The letters that may follow a literal. -/
def isSuffix (c : Char) : Bool := c = 'l' || c = 'L' || c = 'u' || c = 'U'

/-- A literal without the letters that follow it. Source: `parse_integer`. -/
def stem (cs : List Char) : List Char := (cs.reverse.dropWhile isSuffix).reverse

/-- The text of a literal without the letters that follow it. -/
def stemText (literal : String) : String := String.ofList (stem literal.toList)

/-- The value of a digit, in bases up to sixteen. -/
def digit? (base : Nat) (c : Char) : Option Nat :=
  let value? :=
    if '0' ≤ c && c ≤ '9' then some (c.toNat - '0'.toNat)
    else if 'a' ≤ c && c ≤ 'f' then some (c.toNat - 'a'.toNat + 10)
    else if 'A' ≤ c && c ≤ 'F' then some (c.toNat - 'A'.toNat + 10)
    else none
  value?.filter (· < base)

/-- The number that digits spell after digits worth `value`. -/
def digitsFrom? (base value : Nat) : List Char → Option Nat
  | [] => some value
  | c :: cs => do digitsFrom? base (value * base + (← digit? base c)) cs

/-- The number that digits spell. There has to be at least one. -/
def digits? (base : Nat) (cs : List Char) : Option Nat :=
  if cs.isEmpty then none else digitsFrom? base 0 cs

/-- A number with an optional plus before it. -/
def unsigned? (base : Nat) : List Char → Option Nat
  | '+' :: cs => digits? base cs
  | cs => digits? base cs

/-- A number with an optional sign before it. -/
def signed? (base : Nat) : List Char → Option Int
  | '-' :: cs => (digits? base cs).map fun n => -(n : Int)
  | cs => (unsigned? base cs).map fun n => (n : Int)

/-- An integer in 64 bits, if it fits. -/
def narrow? (n : Int) : Option Int64 :=
  if Int64.minValue.toInt ≤ n && n ≤ Int64.maxValue.toInt then some (Int64.ofInt n) else none

/-- A pattern of 32 bits read as a signed number. -/
def ofPattern (n : Nat) : Int64 := (Int32.ofNat n).toInt64

/-- The value of hexadecimal digits: of a pattern of 32 bits, or else of a signed number. Source:
`parse_integer`. -/
def hex? (cs : List Char) : Option Int64 :=
  match unsigned? 16 cs with
  | some n => if n < UInt32.size then some (ofPattern n) else narrow? n
  | none => (signed? 16 cs).bind narrow?

/-- The value of what is left of a literal when suffix and dash are gone. Source: `parse_integer`.
-/
def magnitude? : List Char → Option Int64
  | '0' :: 'x' :: cs => hex? cs
  | '0' :: 'X' :: cs => hex? cs
  | cs => (signed? 10 cs).bind narrow?

/-- The negative of an integer, which the least one does not have. Source: `parse_integer`. -/
def negate (n : Int64) : Except Fault Int64 :=
  if n = Int64.minValue then .error .negation else .ok (-n)

/-- The integer after an integer, which the greatest one does not have. -/
def increment? (n : Int64) : Option Int64 := if n = Int64.maxValue then none else some (n + 1)

/-- The value of a literal, or nothing if the text is none. Source: `parse_integer`. -/
def read (literal : String) : Except Fault (Option Int64) :=
  match stem literal.toList with
  | '-' :: cs => (magnitude? cs).mapM negate
  | cs => .ok (magnitude? cs)

end Midl.Integer
