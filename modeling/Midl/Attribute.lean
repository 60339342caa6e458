/-!
# Attributes

Attributes stand in square brackets before interfaces, types, methods and parameters. Each has a
kind, named by a keyword, and at most one argument, kept as text. Some kinds describe parameters
only.
-/

namespace Midl

/-- The attributes that are understood. Source: `AttributeKind`. -/
inductive AttributeKind where
  | object
  | uuid
  | version
  | pointerDefault
  | oleAutomation
  | lcid
  | dllName
  | helpString
  | isDefault
  | isLocal
  | isString
  | retval
  | sizeIs
  | propGet
  | propPut
  | nonCreatable
  | v1Enum
  | input
  | output
  | annotated
  | maxIs
  | unique
  | iidIs
deriving DecidableEq

namespace AttributeKind

/-- Every kind, once. -/
def all : List AttributeKind :=
  [object, uuid, version, pointerDefault, oleAutomation, lcid, dllName, helpString, isDefault,
    isLocal, isString, retval, sizeIs, propGet, propPut, nonCreatable, v1Enum, input, output,
    annotated, maxIs, unique, iidIs]

/-- The keyword that names a kind. Source: `AttributeKind::as_str`. -/
def keyword : AttributeKind → String
  | object => "object"
  | uuid => "uuid"
  | version => "version"
  | pointerDefault => "pointer_default"
  | oleAutomation => "oleautomation"
  | lcid => "lcid"
  | dllName => "dllname"
  | helpString => "helpstring"
  | isDefault => "default"
  | isLocal => "local"
  | isString => "string"
  | retval => "retval"
  | sizeIs => "size_is"
  | propGet => "propget"
  | propPut => "propput"
  | nonCreatable => "noncreatable"
  | v1Enum => "v1_enum"
  | input => "in"
  | output => "out"
  | annotated => "annotation"
  | maxIs => "max_is"
  | unique => "unique"
  | iidIs => "iid_is"

/-- The kind that a word names, if it names one. Source: `from_keyword`. -/
def ofKeyword? (word : String) : Option AttributeKind :=
  all.find? fun kind => kind.keyword = word

/-- The kinds that describe a parameter, and are refused on a declaration. Source:
`is_param_attribute`. -/
def isParameter : AttributeKind → Bool
  | input | output | annotated | maxIs | unique | iidIs => true
  | _ => false

/-- No kind is missing from the list. -/
theorem mem_all (kind : AttributeKind) : kind ∈ all := by
  cases kind <;> decide

/-- A kind is found by its keyword. -/
theorem ofKeyword?_keyword (kind : AttributeKind) : ofKeyword? kind.keyword = some kind := by
  cases kind <;> decide

/-- A word that names a kind is the keyword of it. -/
theorem keyword_of_ofKeyword? {word : String} {kind : AttributeKind}
    (h : ofKeyword? word = some kind) : kind.keyword = word := by
  simpa using List.find?_some h

end AttributeKind

/-- An attribute as written. Source: `Attribute`. -/
structure Attribute where
  /-- What it says. -/
  kind : AttributeKind
  /-- Its argument, without the quotes if it was a string. -/
  value : Option String := none
deriving DecidableEq

namespace Attribute

/-- The attribute as it would be written, with its argument as it is. Source: `Attribute::fmt`. -/
def describe (a : Attribute) : String :=
  match a.value with
  | none => a.kind.keyword
  | some value => a.kind.keyword ++ "(" ++ value ++ ")"

/-- The argument of the first attribute of a kind. Later ones of that kind are not consulted, also
when the first has no argument. Source: `attribute_value`. -/
def valueOf (kind : AttributeKind) (attributes : List Attribute) : Option String :=
  (attributes.find? fun a => a.kind = kind).bind Attribute.value

end Attribute

end Midl
