/-!
# Arithmetic faults

Three numbers are kept in a fixed width, and work that would take them out of it is given up: the
indentation level, which has eight bits, the number of pointers of a parameter, which has
sixty-four, and the value of an integer literal, which has sixty-four and a sign.
-/

namespace Midl

/-- Reasons for giving up. -/
inductive Fault where
  /-- The indentation level was to be raised above its greatest value. -/
  | indentation
  /-- The pointers of a parameter were to be counted beyond the greatest number. -/
  | indirection
  /-- The least integer was to be negated. -/
  | negation
deriving DecidableEq

/-- The wording of a fault. -/
def Fault.message : Fault → String
  | indentation | indirection => "attempt to add with overflow"
  | negation => "attempt to negate with overflow"

end Midl
