import Midl.Output.Item

/-!
# Generating output

`program` drafts the whole output for some declarations: one module that holds everything. A
`Session` generates output repeatedly and keeps the draft it works on, so that what an earlier run
or a change of the level left behind is there when the next run begins; the next run clears it.
-/

namespace Midl.Output

open Drafting

/-- What can be chosen about the output. Source: `GeneratorConfig`. -/
structure Settings where
  /-- The name of the module that holds everything. -/
  packageName : String := "idl"
  /-- Where the types that are not declared are found. -/
  typesPath : String := "wintypes"
  /-- How the output is laid out. -/
  layout : Layout := {}
deriving DecidableEq

/-- Output for some declarations. Source: `GeneratedSource`. -/
structure Generated where
  /-- The text. -/
  source : String
  /-- What was left out of it. -/
  diagnostics : List Diagnostic
deriving DecidableEq

/-- The line that says where the output comes from. -/
def bannerText : String := "// Generated from MIDL by comidl. Do not edit."

/-- The line that says where the output comes from, and a blank one, if the layout asks for them.
Source: `RustGenerator::generate`. -/
def heading (layout : Layout) : Drafting Unit := do
  if layout.header then
    line bannerText
    blank

/-- The lints that generated code would set off. -/
def allowances : String :=
  "#![allow(non_camel_case_types, non_snake_case, non_upper_case_globals, dead_code, unused_imports)]"

/-- The module that holds the whole output for some declarations. Source: `RustGenerator::generate`.
-/
def program (packageName typesPath : String) (ds : List Declaration) : Drafting Unit :=
  braced ("pub mod " ++ identifier packageName) do
    line allowances
    blank
    line "use core::ffi::c_void;"
    line ("use " ++ typesPath ++ "::*;")
    declarations ds ds

/-- Output generated again and again with the same settings. Source: `RustGenerator`. -/
structure Session where
  /-- The settings. -/
  settings : Settings
  /-- What the last step left behind. -/
  draft : Draft := {}

namespace Session

/-- Raises the level of the draft. Source: `increase_indent`. -/
def raise (session : Session) : Except Fault Unit × Session :=
  match Drafting.raise session.draft with
  | .ok () draft => (.ok (), { session with draft })
  | .error fault draft => (.error fault, { session with draft })

/-- Raises the level of the draft a number of times, unless that faults before. -/
def raiseBy (session : Session) : Nat → Except Fault Unit × Session
  | 0 => (.ok (), session)
  | times + 1 =>
    match session.raise with
    | (.ok (), session) => session.raiseBy times
    | (.error fault, session) => (.error fault, session)

/-- Lowers the level of the draft. Source: `decrease_indent`. -/
def lower (session : Session) : Session :=
  { session with draft := { session.draft with level := session.draft.level - 1 } }

/-- Generates output. The text, the diagnostics and the level that earlier work has left in the
draft are cleared first. Without declarations there is no output at all. The finished text and
diagnostics are taken out of the draft. Source: `generate`. -/
def generate (session : Session) (ds : List Declaration) : Except Fault Generated × Session :=
  let settings := session.settings
  let draft := { session.draft with indent := settings.layout.indent, log := #[] }
  let draft := { draft with out := "" }
  let draft := { draft with diagnostics := #[] }
  let draft := { draft with level := 0 }
  let work : Drafting Unit := do
    heading settings.layout
    program settings.packageName settings.typesPath ds
  if ds.isEmpty then (.ok ⟨"", []⟩, ⟨settings, draft⟩)
  else match work draft with
    | .ok () draft =>
      (.ok ⟨draft.out, draft.diagnostics.toList⟩,
        ⟨settings, { draft with out := "", diagnostics := #[] }⟩)
    | .error fault draft => (.error fault, ⟨settings, draft⟩)

end Session

/-- Output for some declarations, from a session that has done nothing before. -/
def generate (settings : Settings) (ds : List Declaration) : Except Fault Generated :=
  (Session.generate ⟨settings, {}⟩ ds).1

end Midl.Output
