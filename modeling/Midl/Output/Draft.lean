import Midl.Fault
import Midl.Diagnostic
import Midl.Log

/-!
# Output in the making

A draft collects text and diagnostics at a current level of nesting. Text is appended at once, each
line behind the indentation that its level asks for at that moment. The level has eight bits;
raising it further is a fault, after which the draft stays as it was left. The level cannot be
lowered below zero.
-/

namespace Midl.Output

/-- How lines are laid out. Source: `GeneratorConfig`. -/
structure Layout where
  /-- The number of spaces for each level. -/
  indent : Nat := 4
  /-- Whether the output begins with a line that says where it comes from. -/
  header : Bool := true
deriving DecidableEq

/-- Output as far as it has been written. Source: `RustGenerator`. -/
structure Draft where
  /-- The level of the next line. -/
  level : Nat := 0
  /-- The number of spaces for each level. -/
  indent : Nat := 4
  /-- The text so far. -/
  out : String := ""
  /-- What was left out so far. -/
  diagnostics : Array Diagnostic := #[]
  /-- What happened so far. -/
  log : Array Event := #[]

/-- The greatest level of nesting. -/
def maxLevel : Nat := 255

/-- Work on a draft. -/
abbrev Drafting := EStateM Fault Draft

namespace Drafting

/-- Adds a blank line. Source: `blank_line`. -/
def blank : Drafting Unit := fun d => .ok () { d with out := d.out ++ "\n" }

/-- Adds a line, indented as the current level asks for. Source: `write_line`. -/
def line (text : String) : Drafting Unit := fun d =>
  let indentation := String.ofList (List.replicate (d.level * d.indent) ' ')
  .ok () { d with out := d.out ++ (indentation ++ text ++ "\n") }

/-- Adds lines at the current level. -/
def lines (texts : List String) : Drafting Unit := texts.forM line

/-- Records an event. -/
def note (event : Event) : Drafting Unit := fun d =>
  .ok () { d with log := d.log.push event }

/-- Reports something that is left out. -/
def report (diagnostic : Diagnostic) : Drafting Unit := fun d =>
  .ok () { d with
    diagnostics := d.diagnostics.push diagnostic
    log := d.log.push (.skipped diagnostic) }

/-- Goes one level deeper. Source: `increase_indent`. -/
def raise : Drafting Unit := fun d =>
  if d.level < maxLevel then .ok () { d with level := d.level + 1 } else .error .indentation d

/-- Goes one level back. Source: `decrease_indent`. -/
def lower : Drafting Unit := fun d => .ok () { d with level := d.level - 1 }

/-- Goes on with a result, or gives up with its fault. -/
def attempt (result : Except Fault α) : Drafting α := fun d =>
  match result with
  | .ok a => .ok a d
  | .error fault => .error fault d

/-- A head, and a body in braces one level deeper. -/
def braced (head : String) (body : Drafting Unit) : Drafting Unit := do
  line (head ++ " \x7b")
  raise
  body
  lower
  line "\x7d"

end Drafting

end Midl.Output
