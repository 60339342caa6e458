import Midl.Attribute

/-!
# Declarations

The tree that a source is read as. Nothing is resolved here: type names, constant operands and
return types are kept as the texts they were written with, pointer stars being counted where a
name follows them and kept as a suffix of the text where none is stored. Declarations come in
source order, and libraries and modules hold further declarations.
-/

namespace Midl

/-- A typed name: a parameter of a method or a field of a struct. Source: `Param`, `StructField`. -/
structure Variable where
  attributes : List Attribute := []
  /-- The words of the type, separated by single spaces. -/
  typeName : String
  /-- The number of pointer stars. -/
  indirection : Nat := 0
  name : String
  /-- Whether the name is followed by an empty pair of brackets. -/
  isArray : Bool := false
deriving DecidableEq

/-- A method of an interface. Source: `MethodDef`. -/
structure Method where
  name : String
  /-- The words of the type, followed by its pointer stars. -/
  returnType : String
  params : List Variable := []
  attributes : List Attribute := []
deriving DecidableEq

/-- An interface, or a mention of one in a component class. Source: `InterfaceDef`. -/
structure Interface where
  name : String
  /-- The interface that this one extends. -/
  parent : Option String := none
  attributes : List Attribute := []
  methods : List Method := []
deriving DecidableEq

/-- A name in an enumeration. Source: `EnumValue`. -/
structure Member where
  name : String
  /-- The operands of the explicit value, which are combined bit by bit with "or". -/
  value : Option (List String) := none
deriving DecidableEq

/-- An enumeration. Source: `EnumDef`. -/
structure Enumeration where
  name : String
  attributes : List Attribute := []
  members : List Member := []
deriving DecidableEq

/-- A struct. Source: `StructDef`. -/
structure Record where
  name : String
  attributes : List Attribute := []
  fields : List Variable := []
deriving DecidableEq

/-- A further name for a type. Source: `TypedefDef`. -/
structure Typedef where
  name : String
  typeName : String
  indirection : Nat := 0
  attributes : List Attribute := []
deriving DecidableEq

/-- A component class and the interfaces it implements. Source: `CoClassDef`. -/
structure CoClass where
  name : String
  attributes : List Attribute := []
  interfaces : List Interface := []
deriving DecidableEq

/-- What a constant is. Source: `ConstValue`. -/
inductive ConstantValue where
  /-- A string. -/
  | text (value : String)
  /-- Operands, combined bit by bit with "or". -/
  | operands (operands : List String)
deriving DecidableEq

/-- A named constant. Source: `ModuleConstant`. -/
structure Constant where
  name : String
  /-- The words of the type, followed by its pointer stars. -/
  typeName : String
  value : ConstantValue
deriving DecidableEq

/-- The blocks that hold declarations. Source: `LibraryDef`, `ModuleDef`. -/
inductive GroupKind where
  | library
  | module
deriving DecidableEq

/-- The directives whose text is carried along without being read. Source: `PassThroughKind`. -/
inductive DirectiveKind where
  | cppQuote
  | midlPragma
deriving DecidableEq

/-- One declaration, on its own or inside a library or module. Source: `Declaration`. -/
inductive Declaration where
  /-- Other sources that this one refers to. -/
  | imports (files : List String)
  | interface (interface : Interface)
  | enumeration (enumeration : Enumeration)
  | record (record : Record)
  | typedef (typedef : Typedef)
  | coclass (coclass : CoClass)
  /-- A library or a module. -/
  | group (kind : GroupKind) (name : String) (attributes : List Attribute)
      (body : List Declaration)
  /-- A type library that this source refers to. -/
  | importLibrary (file : String)
  | constant (constant : Constant)
  | directive (kind : DirectiveKind) (text : String)

/-- Whether a type is named after itself, so that nothing is said. Source: `generate_typedef`. -/
def Typedef.isSelf (t : Typedef) : Bool := t.indirection = 0 && t.name = t.typeName

/-- The word for a kind of block. Source: `kind_name`. -/
def GroupKind.word : GroupKind → String
  | library => "library"
  | module => "module"

/-- The word for a directive. Source: `kind_name`. -/
def DirectiveKind.word : DirectiveKind → String
  | cppQuote => "cpp_quote"
  | midlPragma => "midl_pragma"

namespace Declaration

/-- The name that is declared, if one is. Source: `Declaration::name`. -/
def name? : Declaration → Option String
  | interface i => some i.name
  | enumeration e => some e.name
  | record r => some r.name
  | typedef t => some t.name
  | coclass c => some c.name
  | group _ name _ _ => some name
  | constant c => some c.name
  | imports _ | importLibrary _ | directive _ _ => none

/-- The word for what is declared. Source: `kind_name`. -/
def kindWord : Declaration → String
  | imports _ => "import"
  | interface _ => "interface"
  | enumeration _ => "enum"
  | record _ => "struct"
  | typedef _ => "typedef"
  | coclass _ => "coclass"
  | group kind _ _ _ => kind.word
  | importLibrary _ => "importlib"
  | constant _ => "const"
  | directive kind _ => kind.word

end Declaration

end Midl
