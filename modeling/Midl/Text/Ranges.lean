/-!
# Sets of characters given by ranges

Properties of characters that no rule sums up are given as tables of ranges of code points. A
table is a list of pairs, each the first and the last code point of a range, in ascending order.
-/

namespace Midl

/-- A set of characters, as ascending ranges of code points with both ends included. -/
abbrev Ranges := List (Nat × Nat)

/-- Whether a character is in one of the ranges. No range is looked at beyond the first that lies
wholly above the character. -/
def Ranges.has : Ranges → Char → Bool
  | [], _ => false
  | (first, last) :: ranges, c => first ≤ c.toNat && (c.toNat ≤ last || Ranges.has ranges c)

end Midl
