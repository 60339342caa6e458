import Midl.Diagnostic
import Midl.Token

/-!
# The log

What happens while a source is worked on is recorded as events in the order they occur. An event
has a level of importance and a wording; which events are shown depends on their level alone.
-/

namespace Midl

/-- Levels of importance, the most important first. -/
inductive Level where
  | error
  | warn
  | info
  | debug
  | trace
deriving DecidableEq

namespace Level

/-- The place of a level in the order of importance. -/
def rank : Level → Nat
  | error => 0
  | warn => 1
  | info => 2
  | debug => 3
  | trace => 4

/-- The name of a level in a log. -/
def label : Level → String
  | error => "ERROR"
  | warn => "WARN"
  | info => "INFO"
  | debug => "DEBUG"
  | trace => "TRACE"

end Level

/-- Things that happen. -/
inductive Event where
  /-- A token became the current one. -/
  | scanned (token : Token)
  /-- A declaration was read to its end. -/
  | parsed (declaration : Declaration)
  /-- A declaration was dealt with in the output. -/
  | emitted (declaration : Declaration)
  /-- An import statement has no counterpart in the output. -/
  | droppedImports (files : List String)
  /-- A reference to a type library has no counterpart in the output. -/
  | droppedLibrary (file : String)
  /-- A type named after itself has no counterpart in the output. -/
  | selfAlias (name : String)
  /-- Something was left out of the output. -/
  | skipped (diagnostic : Diagnostic)
  /-- The command has opened its input. -/
  | reading (path : String)
  /-- The command has written its output. -/
  | wrote (path : String) (diagnostics : Nat)

namespace Event

/-- The importance of an event. -/
def level : Event → Level
  | scanned _ => .trace
  | parsed _ | emitted _ | droppedImports _ | droppedLibrary _ | selfAlias _ | reading _ => .debug
  | wrote _ _ => .info
  | skipped _ => .warn

/-- The wording of an event. A declaration without a name leaves the place of the name empty. -/
def message : Event → String
  | scanned token => token.describe
  | parsed d => "parsed " ++ d.kindWord ++ " " ++ d.name?.getD ""
  | emitted d => "emitted " ++ d.kindWord ++ " " ++ d.name?.getD ""
  | droppedImports files => "dropping import of " ++ ", ".intercalate files
  | droppedLibrary file => "dropping importlib of " ++ file
  | selfAlias name => "skipping self alias " ++ name
  | skipped diagnostic => diagnostic.describe
  | reading path => "reading " ++ path
  | wrote path diagnostics =>
    "wrote " ++ path ++ " (" ++ toString diagnostics ++ " skipped declaration(s))"

/-- Whether an event is important enough to be shown when events down to `limit` are. Without a
limit nothing is shown. -/
def shownAt (limit : Option Level) (event : Event) : Bool :=
  match limit with
  | none => false
  | some limit => event.level.rank ≤ limit.rank

/-- The line of a log. -/
def line (event : Event) : String := event.level.label ++ " " ++ event.message

end Event

end Midl
