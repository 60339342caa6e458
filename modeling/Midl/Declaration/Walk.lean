import Midl.Declaration

/-!
# Walking declarations

Libraries and modules are entered, component classes are not: the interfaces they mention are
declared elsewhere. `outline` lists all declarations before their contents, each with its depth;
`interfaceNamed?` looks one interface up by name, and finds the first in that order.
-/

namespace Midl.Declaration

mutual

/-- A declaration that stands at `depth`, followed by what it holds. -/
def outline (depth : Nat) : Declaration → List (Nat × Declaration)
  | .group kind name attributes body =>
    (depth, .group kind name attributes body) :: outlineAll (depth + 1) body
  | d => [(depth, d)]

/-- The outlines of declarations that stand at `depth`, one after the other. -/
def outlineAll (depth : Nat) : List Declaration → List (Nat × Declaration)
  | [] => []
  | d :: ds => d.outline depth ++ outlineAll depth ds

end

/-- All declarations, at any depth, each before what it holds. -/
def preorder (ds : List Declaration) : List Declaration := (outlineAll 0 ds).map Prod.snd

/-- The interface that a declaration is, if it is one. -/
def interface? : Declaration → Option Interface
  | .interface i => some i
  | _ => none

/-- The enumeration that a declaration is, if it is one. -/
def enumeration? : Declaration → Option Enumeration
  | .enumeration e => some e
  | _ => none

/-- All interfaces, at any depth. -/
def interfaces (ds : List Declaration) : List Interface := (preorder ds).filterMap interface?

/-- All enumerations, at any depth. -/
def enumerations (ds : List Declaration) : List Enumeration :=
  (preorder ds).filterMap enumeration?

mutual

/-- The interface of a given name that a declaration is or holds. Source: `find_interface`. -/
def interfaceIn? (name : String) : Declaration → Option Interface
  | .interface i => if i.name = name then some i else none
  | .group _ _ _ body => interfaceNamed? name body
  | _ => none

/-- The interface of a given name: the first that is met when the declarations are searched in
order, each library and module where it stands. Source: `find_interface`. -/
def interfaceNamed? (name : String) : List Declaration → Option Interface
  | [] => none
  | d :: ds => d.interfaceIn? name <|> interfaceNamed? name ds

end

/-! ## Looking up is searching the outline -/

mutual

/-- Searching a declaration finds the first interface of the name in its outline. -/
theorem interfaceIn?_eq (name : String) (depth : Nat) (d : Declaration) :
    d.interfaceIn? name =
      ((d.outline depth).filterMap fun x => x.2.interface?).find? fun i => i.name = name := by
  cases d with
  | group kind n attributes body =>
    simpa [interfaceIn?, outline, interface?] using interfaceNamed?_eq name (depth + 1) body
  | interface i => simp [interfaceIn?, outline, interface?, List.find?_cons]; split <;> simp_all
  | _ => simp [interfaceIn?, outline, interface?]

/-- So does searching declarations one after the other. -/
theorem interfaceNamed?_eq (name : String) (depth : Nat) (ds : List Declaration) :
    interfaceNamed? name ds =
      ((outlineAll depth ds).filterMap fun x => x.2.interface?).find? fun i => i.name = name := by
  cases ds with
  | nil => simp [interfaceNamed?, outlineAll]
  | cons d ds =>
    simp [interfaceNamed?, outlineAll, List.filterMap_append, List.find?_append,
      interfaceIn?_eq name depth d, interfaceNamed?_eq name depth ds]

end

/-- What is found is one of the interfaces declared. -/
theorem mem_interfaces_of_interfaceNamed? {name : String} {ds : List Declaration} {i : Interface}
    (h : interfaceNamed? name ds = some i) : i ∈ interfaces ds := by
  rw [interfaceNamed?_eq name 0] at h
  have := List.mem_of_find?_eq_some h
  simpa [interfaces, preorder, List.filterMap_map] using this

/-- What is found has the name that was looked for. -/
theorem name_of_interfaceNamed? {name : String} {ds : List Declaration} {i : Interface}
    (h : interfaceNamed? name ds = some i) : i.name = name := by
  rw [interfaceNamed?_eq name 0] at h
  simpa using List.find?_some h

end Midl.Declaration
