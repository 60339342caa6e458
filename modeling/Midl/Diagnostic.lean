import Midl.Declaration

/-!
# Diagnostics

A diagnostic reports a declaration, or a part of one, that has no form in the output. It does
not stop anything.
-/

namespace Midl

/-- A note that something was left out. Source: `Diagnostic`. -/
structure Diagnostic where
  /-- The word for the kind of declaration concerned. -/
  kind : String
  /-- Its name, if it has one. -/
  name : Option String
  /-- Why it was left out. -/
  message : String
deriving DecidableEq

namespace Diagnostic

/-- The diagnostic for a declaration that cannot be expressed. Source: `Diagnostic::unsupported`. -/
def about (d : Declaration) (message : String) : Diagnostic where
  kind := d.kindWord
  name := d.name?
  message := message

/-- How a diagnostic reads. Source: `Diagnostic::fmt`. -/
def describe (d : Diagnostic) : String :=
  match d.name with
  | some name => "skipped " ++ d.kind ++ " '" ++ name ++ "': " ++ d.message
  | none => "skipped " ++ d.kind ++ ": " ++ d.message

end Diagnostic

end Midl
