import Midl.Dispatch
import Midl.Output.Draft
import Midl.Output.Operand
import Midl.Output.Type
import Midl.Text.Lines
import Midl.Text.Quoted

/-!
# Declarations in the output

What each declaration becomes. Structs keep their layout, interfaces become a pointer to a table
of functions and that table, enumerations become constants, libraries and modules become modules.
References to other sources and self-named types are dropped, and component classes are reported,
as there is nothing they could become.
-/

namespace Midl.Output

open Drafting

/-- The help string among some attributes, as comments. Source: `write_docs`. -/
def docs (attributes : List Attribute) : Drafting Unit :=
  match Attribute.valueOf .helpString attributes with
  | none => pure ()
  | some help => lines ((Text.lines help).map ("/// " ++ ·))

/-- A struct. Source: `generate_struct`. -/
def record (r : Record) : Drafting Unit := do
  blank
  docs r.attributes
  line "#[repr(C)]"
  braced ("pub struct " ++ identifier r.name) (lines (r.fields.map fieldText))

/-- The diagnostic for a member that has no form. Source: `generate_enum`. -/
def tooWide (enumName memberName : String) : Diagnostic where
  kind := "enum"
  name := enumName
  message := "value of '" ++ memberName ++ "' does not fit in 32 bits"

/-- The constants for the members of an enumeration, paired with what is known of their values. A
member that has no form is reported, and counts as `skipped` for the members after it. Source:
`generate_enum`. -/
def memberLines (enumName : String) (skipped : List String) :
    List (Member × Resolved) → Drafting Unit
  | [] => pure ()
  | (member, resolved) :: members => do
    match ← attempt (memberText skipped member.value resolved) with
    | some value =>
      line ("pub const " ++ identifier member.name ++ ": " ++ identifier enumName ++ " = "
        ++ value ++ ";")
      memberLines enumName skipped members
    | none =>
      report (tooWide enumName member.name)
      memberLines enumName (member.name :: skipped) members

/-- An enumeration. Source: `generate_enum`. -/
def enumeration (e : Enumeration) : Drafting Unit := do
  blank
  docs e.attributes
  line ("pub type " ++ identifier e.name ++ " = i32;")
  let resolved ← attempt e.resolve
  memberLines e.name [] (e.members.zip (resolved.map Prod.snd))

/-- A further name for a type. Source: `generate_typedef`. -/
def typedef (t : Typedef) : Drafting Unit := do
  if t.isSelf then note (.selfAlias t.name)
  else
    blank
    docs t.attributes
    line ("pub type " ++ identifier t.name ++ " = " ++ typeText t.typeName t.indirection ++ ";")

/-- The name of the table of an interface. -/
def tableName (interfaceName : String) : String := interfaceName ++ "Vtbl"

/-- The slots of a table, one after the other. Source: `generate_interface`. -/
def slots (interfaceName : String) : List Method → Drafting Unit
  | [] => pure ()
  | m :: methods => do
    let slot ← attempt (slotText interfaceName m)
    line ("pub " ++ identifier m.name ++ ": " ++ slot ++ ",")
    slots interfaceName methods

/-- The fields of the table of an interface: the table of its base, and its slots. Source:
`generate_interface`. -/
def tableBody (interfaceName : String) (table : DispatchTable) : Drafting Unit := do
  match table.base with
  | none => pure ()
  | some base => line ("pub base: " ++ tableName base ++ ",")
  slots interfaceName table.methods

/-- An interface, whose ancestors are looked up among the declarations `root`.
Source: `generate_interface`. -/
def interface (root : List Declaration) (i : Interface) : Drafting Unit := do
  blank
  docs i.attributes
  match Attribute.valueOf .uuid i.attributes with
  | none => pure ()
  | some uuid => line ("/// IID: " ++ uuid)
  line "#[repr(C)]"
  braced ("pub struct " ++ identifier i.name)
    (line ("pub vtbl: *const " ++ tableName i.name ++ ","))
  blank
  line "#[repr(C)]"
  braced ("pub struct " ++ tableName i.name) (tableBody i.name (i.dispatchTable root))

/-- A constant. Source: `generate_constant`. -/
def constant (c : Constant) : Drafting Unit := do
  blank
  match c.value with
  | .text value => line ("pub const " ++ identifier c.name ++ ": &str = " ++ Text.quoted value ++ ";")
  | .operands operands =>
    let (typeName, indirection) := splitStars c.typeName
    let value ← attempt (operands.mapM constantOperand)
    line ("pub const " ++ identifier c.name ++ ": " ++ typeText typeName indirection ++ " = "
      ++ joinOperands value ++ ";")

/-- A directive, as comments. Source: `generate_pass_through`. -/
def directive (kind : DirectiveKind) (text : String) : Drafting Unit := do
  blank
  lines ((Text.lines text).map fun line => "// " ++ kind.word ++ ": " ++ line)

/-- Records that a declaration with a name has been dealt with. -/
def noteEmitted (d : Declaration) : Drafting Unit :=
  if d.name?.isSome then note (.emitted d) else pure ()

mutual

/-- A declaration. Source: `generate_declarations`. -/
def declaration (root : List Declaration) : Declaration → Drafting Unit
  | .imports files => note (.droppedImports files)
  | .importLibrary file => note (.droppedLibrary file)
  | .coclass c => report (.about (.coclass c) "component classes have no Rust emission rule")
  | .directive kind text => directive kind text
  | .record r => do
    record r
    noteEmitted (.record r)
  | .enumeration e => do
    enumeration e
    noteEmitted (.enumeration e)
  | .typedef t => do
    typedef t
    noteEmitted (.typedef t)
  | .interface i => do
    interface root i
    noteEmitted (.interface i)
  | .constant c => do
    constant c
    noteEmitted (.constant c)
  | .group kind name attributes body => do
    blank
    docs attributes
    braced ("pub mod " ++ identifier name) do
      line "use super::*;"
      declarations root body
    noteEmitted (.group kind name attributes body)

/-- Declarations, one after the other. Source: `generate_declarations`. -/
def declarations (root : List Declaration) : List Declaration → Drafting Unit
  | [] => pure ()
  | d :: ds => do
    declaration root d
    declarations root ds

end

end Midl.Output
