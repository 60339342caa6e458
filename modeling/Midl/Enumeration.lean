import Midl.Declaration
import Midl.Integer

/-!
# The values of an enumeration

A member without an explicit value is one more than the member before it, and the first is zero.
An explicit value is worked out if each operand is a literal or a member before it whose value is
known; otherwise it is left as written, and the members after it are counted from it.
-/

namespace Midl

/-- What is known of the value of a member. Source: `ResolvedValue`. -/
inductive Resolved where
  /-- The value itself. -/
  | known (value : Int64)
  /-- An explicit value that could not be worked out, as written. -/
  | verbatim (text : String)
  /-- A distance from an earlier member. -/
  | offset (base : String) (distance : Int64)
deriving DecidableEq

/-- A member and what is known of its value. -/
abbrev ResolvedMember := String × Resolved

/-- Operands as they are written. Source: `ConstExpr::fmt`. -/
def joinOperands (operands : List String) : String := " | ".intercalate operands

namespace Resolved

/-- The value, if it is known. -/
def known? : Resolved → Option Int64
  | known value => some value
  | _ => none

/-- The value of the member after the member `name`, which has the value `resolved`, if it has no
explicit value. Where a value or a distance is the greatest integer, members are counted from the
member that has it. Source: `resolve_values`. -/
def successor (name : String) : Resolved → Resolved
  | known value =>
    match Integer.increment? value with
    | some next => known next
    | none => offset name 1
  | verbatim _ => offset name 1
  | offset base distance =>
    match Integer.increment? distance with
    | some next => offset base next
    | none => offset name 1

end Resolved

namespace Enumeration

/-- The known value of a name among members that come before, the last of them first. Source:
`evaluate`. -/
def lookup? (earlier : List ResolvedMember) (name : String) : Option Int64 :=
  earlier.findSome? fun (other, resolved) => if other = name then resolved.known? else none

/-- The value of an operand, if it can be worked out. Source: `evaluate`. -/
def operandValue (earlier : List ResolvedMember) (operand : String) :
    Except Fault (Option Int64) := do
  match ← Integer.read operand with
  | some value => return some value
  | none => return lookup? earlier operand

/-- The value of operands after others that make up `value`. The first operand that cannot be worked
out settles the matter, and those after it are not looked at. Source: `evaluate`. -/
def combine (earlier : List ResolvedMember) (value : Int64) :
    List String → Except Fault (Option Int64)
  | [] => .ok (some value)
  | operand :: operands => do
    match ← operandValue earlier operand with
    | none => return none
    | some v => combine earlier (value ||| v) operands

/-- What is known of a member's value, given the members before it, the last of them first. Source:
`resolve_values`. -/
def resolveMember (earlier : List ResolvedMember) (member : Member) : Except Fault Resolved :=
  match member.value with
  | some operands => do
    match ← combine earlier 0 operands with
    | some value => return .known value
    | none => return .verbatim (joinOperands operands)
  | none =>
    match earlier with
    | [] => .ok (.known 0)
    | (name, resolved) :: _ => .ok (resolved.successor name)

/-- What is known of the values of members, given the members before them, the last of them first.
Source: `resolve_values`. -/
def resolveFrom (earlier : List ResolvedMember) :
    List Member → Except Fault (List ResolvedMember)
  | [] => .ok []
  | member :: members => do
    let resolved ← resolveMember earlier member
    let others ← resolveFrom ((member.name, resolved) :: earlier) members
    return (member.name, resolved) :: others

/-- What is known of the value of each member, in order. Source: `resolve_values`. -/
def resolve (e : Enumeration) : Except Fault (List ResolvedMember) := resolveFrom [] e.members

end Enumeration

end Midl
