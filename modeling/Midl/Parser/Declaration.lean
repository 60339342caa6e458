import Midl.Parser.Type
import Midl.Token.Pull

/-!
# Reading declarations

One parser per kind of declaration, each called with its keyword as the current token, and
`declaration`, which chooses among them. Libraries and modules hold declarations, so the choice
refers to itself; `depth` bounds how deeply they may be nested, and the number of tokens is
always bound enough, since every level takes some.
-/

namespace Midl.Parser

/-- An import statement. Source: `parse_import`. -/
def importFiles : Parser Declaration := do
  let pos := (← current).position
  advance
  match ← peek with
  | .string _ =>
    let files ← separated .comma (string "an import file name")
    expect (.mark .semicolon)
    return .imports files
  | _ => throw (.emptyImport pos)

/-! ## Interfaces -/

/-- A parameter. A `void` without a name is no parameter at all if it stands `alone` between the
parentheses, bare of attributes. Source: `parse_params`. -/
def parameter (alone : Bool) : Parser (Option Variable) := do
  let attributes ← attributes
  match ← typed with
  | (type, some name) =>
    let isArray ← arraySuffix
    return some ⟨attributes, type.typeName, type.indirection, name, isArray⟩
  | (type, none) =>
    let closing := (← peek) = .mark .closeParen
    if alone && attributes.isEmpty && type = ⟨"void", 0⟩ && closing then return none
    else unexpected "a parameter name"

/-- The parameters of a method, in parentheses. Source: `parse_params`. -/
def parameters : Parser (List Variable) := do
  expect (.mark .openParen)
  let params ←
    if (← peek) = .mark .closeParen then pure []
    else match ← parameter true with
      | none => pure []
      | some first => do
        let others ← many do
          if ← eat (.mark .comma) then parameter false
          else return none
        pure (first :: others)
  expect (.mark .closeParen)
  return params

/-- A method. Source: `parse_method`. -/
def method : Parser Method := do
  let attributes ← attributes
  let (type, name) ← named "a method name"
  let params ← parameters
  expect (.mark .semicolon)
  return ⟨name, type.suffixed, params, attributes⟩

/-- An interface, whose attributes have been read. Source: `parse_interface`. -/
def interface (attributes : List Attribute) : Parser Declaration := do
  advance
  let name ← identifier "interface name"
  let parent ←
    if ← eat (.mark .colon) then some <$> identifier "parent interface name" else pure none
  expect (.mark .openBrace)
  let methods ← manyUntil (.mark .closeBrace) method
  expect (.mark .closeBrace)
  discard (eat (.mark .semicolon))
  return .interface ⟨name, parent, attributes, methods⟩

/-! ## Enumerations and structs -/

/-- A member of an enumeration. Source: `parse_enum_body`. -/
def member : Parser Member := do
  let name ← identifier "enum value name"
  let value ← if ← eat (.mark .assign) then some <$> operands else pure none
  return ⟨name, value⟩

/-- The members of an enumeration, in braces. A comma may follow the last one. Source:
`parse_enum_body`. -/
def members : Parser (List Member) := do
  expect (.mark .openBrace)
  let members ←
    if (← peek) = .mark .closeBrace then pure []
    else do
      let first ← member
      let others ← many do
        if ← eat (.mark .comma) then
          if (← peek) = .mark .closeBrace then return none
          else some <$> member
        else return none
      pure (first :: others)
  expect (.mark .closeBrace)
  return members

/-- An enumeration, whose attributes have been read. Source: `parse_declaration`. -/
def enumeration (attributes : List Attribute) : Parser Declaration := do
  advance
  let name ← identifier "enum name"
  let members ← members
  discard (eat (.mark .semicolon))
  return .enumeration ⟨name, attributes, members⟩

/-- A field of a struct. Source: `parse_struct_body`. -/
def field : Parser Variable := do
  let attributes ← attributes
  let (type, name) ← named "a field name"
  let isArray ← arraySuffix
  expect (.mark .semicolon)
  return ⟨attributes, type.typeName, type.indirection, name, isArray⟩

/-- The fields of a struct, in braces. Source: `parse_struct_body`. -/
def fields : Parser (List Variable) := do
  expect (.mark .openBrace)
  let fields ← manyUntil (.mark .closeBrace) field
  expect (.mark .closeBrace)
  return fields

/-- A struct, whose attributes have been read. Source: `parse_declaration`. -/
def record (attributes : List Attribute) : Parser Declaration := do
  advance
  let name ← identifier "struct name"
  let fields ← fields
  discard (eat (.mark .semicolon))
  return .record ⟨name, attributes, fields⟩

/-! ## Names for types -/

/-- A further name for `typeName`, with the stars before it. Source: `parse_typedef`. -/
def typedefOf (typeName : String) (attributes : List Attribute) : Parser Declaration := do
  let depth ← stars
  let name ← identifier "typedef name"
  return .typedef ⟨name, typeName, depth, attributes⟩

/-- What a statement with the keyword `enum` or `struct` begins with: a body and the name it is
given, or a tag and the first name it is given. The result is the first declaration and the type
that further names in the statement refer to. `ofBody` reads a body and tells what becomes of it
under a name. Source: `parse_typedef`. -/
def tagged (attributes : List Attribute) (ofBody : Parser (String → Declaration)) :
    Parser (Declaration × String) := do
  advance
  let tag ← match ← peek with
    | .identifier text => do
      advance
      pure (some text)
    | _ => pure none
  if (← peek) = .mark .openBrace then
    let make ← ofBody
    let name ← identifier "typedef name"
    return (make name, name)
  else match tag with
    | none => unexpected "a tag name or '\x7b'"
    | some tag => do
      let first ← typedefOf tag attributes
      return (first, tag)

/-- A statement that gives names to a type. There may be several, each with its own stars. Source:
`parse_typedef`. -/
def typedefs : Parser (List Declaration) := do
  advance
  let attributes ← attributes
  let (first, typeName) ← match ← peek with
    | .keyword .enum => tagged attributes do
      let members ← members
      return fun name => .enumeration ⟨name, attributes, members⟩
    | .keyword .struct => tagged attributes do
      let fields ← fields
      return fun name => .record ⟨name, attributes, fields⟩
    | _ => do
      let (type, name) ← named "typedef name"
      pure (.typedef ⟨name, type.typeName, type.indirection, attributes⟩, type.typeName)
  let others ← many do
    if ← eat (.mark .comma) then some <$> typedefOf typeName attributes
    else return none
  expect (.mark .semicolon)
  return first :: others

/-! ## Component classes, constants and directives -/

/-- A mention of an interface in a component class. Source: `parse_coclass`. -/
def implemented : Parser Interface := do
  let attributes ← attributes
  expect (.keyword .interface)
  let name ← identifier "interface name"
  expect (.mark .semicolon)
  return ⟨name, none, attributes, []⟩

/-- A component class, whose attributes have been read. Source: `parse_coclass`. -/
def coclass (attributes : List Attribute) : Parser Declaration := do
  advance
  let name ← identifier "coclass name"
  expect (.mark .openBrace)
  let interfaces ← manyUntil (.mark .closeBrace) implemented
  expect (.mark .closeBrace)
  discard (eat (.mark .semicolon))
  return .coclass ⟨name, attributes, interfaces⟩

/-- A reference to a type library, with or without parentheses. Source: `parse_importlib`. -/
def importLibrary : Parser Declaration := do
  advance
  let file ←
    if ← eat (.mark .openParen) then do
      let file ← string "a library file name"
      expect (.mark .closeParen)
      pure file
    else string "a library file name"
  expect (.mark .semicolon)
  return .importLibrary file

/-- A constant. Source: `parse_constant`. -/
def constant : Parser Declaration := do
  advance
  let (type, name) ← named "a constant name"
  expect (.mark .assign)
  let value ← match ← peek with
    | .string text => do
      advance
      pure (ConstantValue.text text)
    | _ => ConstantValue.operands <$> operands
  expect (.mark .semicolon)
  return .constant ⟨name, type.suffixed, value⟩

/-- Quoted text for the output of another tool. Source: `parse_cpp_quote`. -/
def cppQuote : Parser Declaration := do
  advance
  expect (.mark .openParen)
  let text ← string "quoted text"
  expect (.mark .closeParen)
  discard (eat (.mark .semicolon))
  return .directive .cppQuote text

/-- One token inside a parenthesised group, of which `depth` parentheses are open, and how many are
open after it. With none open the group is over. Source: `parse_midl_pragma`. -/
def pragmaToken (depth : Nat) : Parser (Option (String × Nat)) := do
  if depth = 0 then return none
  else
    let kind ← peek
    let depth ← match kind with
      | .mark .openParen => pure (depth + 1)
      | .mark .closeParen => pure (depth - 1)
      | .eof => unexpected "')'"
      | _ => pure depth
    advance
    return some (kind.text, depth)

/-- A pragma: a name and a parenthesised group of any tokens, kept as their spellings. Source:
`parse_midl_pragma`. -/
def pragma : Parser Declaration := do
  advance
  let name ← identifier "a pragma name"
  if (← peek) ≠ .mark .openParen then unexpected "'(' after the pragma name"
  advance
  let inside ← manyFrom pragmaToken 1
  discard (eat (.mark .semicolon))
  return .directive .midlPragma (" ".intercalate (name :: "(" :: inside))

/-! ## Any declaration -/

/-- A library or module, whose attributes have been read. `inner` reads the declarations in it.
Source: `parse_library`, `parse_module`. -/
def group (inner : Parser (List Declaration)) (kind : GroupKind) (attributes : List Attribute) :
    Parser Declaration := do
  advance
  let name ← identifier (kind.word ++ " name")
  expect (.mark .openBrace)
  let body ← manyUntil (.mark .closeBrace) inner
  expect (.mark .closeBrace)
  discard (eat (.mark .semicolon))
  return .group kind name attributes body.flatten

/-- Whether a declaration that begins with this token may have attributes before it. Source:
`parse_declaration`. -/
def takesAttributes : TokenKind → Bool
  | .keyword .interface | .keyword .coclass | .keyword .library | .keyword .module
  | .keyword .enum | .keyword .struct => true
  | _ => false

/-- How a message names the declarations that take attributes. -/
def attributeTakers : String :=
  "'interface', 'coclass', 'library', 'module', 'enum' or 'struct' after an attribute list"

/-- The attributes before a declaration. They have to be followed by a declaration that takes them.
Source: `parse_attribute_list`. -/
def leadingAttributes : Parser (List Attribute) :=
  ifSees (.mark .openBracket) [] do
    let attributes ← attributeList false
    if takesAttributes (← peek) then return attributes
    else unexpected attributeTakers

/-- The declarations that begin with the current token. `nested` tells that they stand in a library
or module, where type libraries and constants may be declared too. Source: `parse_declaration`. -/
def chosen (inner : Parser (List Declaration)) (nested : Bool) (attributes : List Attribute) :
    Parser (List Declaration) := do
  match ← peek with
  | .keyword .importFiles => List.singleton <$> importFiles
  | .keyword .interface => List.singleton <$> interface attributes
  | .keyword .coclass => List.singleton <$> coclass attributes
  | .keyword .library => List.singleton <$> group inner .library attributes
  | .keyword .module => List.singleton <$> group inner .module attributes
  | .keyword .enum => List.singleton <$> enumeration attributes
  | .keyword .struct => List.singleton <$> record attributes
  | .keyword .typedef => typedefs
  | .keyword .cppQuote => List.singleton <$> cppQuote
  | .keyword .midlPragma => List.singleton <$> pragma
  | .keyword .importLibrary =>
    if nested then List.singleton <$> importLibrary else unexpected "a declaration"
  | .keyword .const =>
    if nested then List.singleton <$> constant else unexpected "a declaration"
  | _ => unexpected "a declaration"

/-- The declarations of one statement, which are more than one only if it gives several names to a
type. They are recorded once the statement is over. Source: `parse_declaration`. -/
def declaration (depth : Nat) (nested : Bool) : Parser (List Declaration) :=
  match depth with
  | 0 => unexpected "a declaration"
  | depth + 1 => do
    let attributes ← leadingAttributes
    let declarations ← chosen (declaration depth true) nested attributes
    note (declarations.map .parsed)
    return declarations

/-- All declarations up to the end of the input. Source: `Parser::parse`. -/
def declarations (depth : Nat) : Parser (List Declaration) :=
  List.flatten <$> manyUntil .eof (declaration depth false)

end Midl.Parser

namespace Midl

/-- What came of reading a source. -/
structure Reading where
  /-- The declarations, or why there are none. -/
  result : Except ParseError (List Declaration)
  /-- What happened on the way. -/
  log : Array Event

/-- Reads a token stream as declarations. Source: `Parser::parse`. -/
def TokenStream.read (stream : TokenStream) : Reading :=
  let parser : Parser (List Declaration) := do
    Parser.arrive
    Parser.declarations stream.tokens.length
  match parser { tokens := stream.tokens, stop := stream.stop, log := #[] } with
  | .ok declarations s => ⟨.ok declarations, s.log⟩
  | .error error s => ⟨.error error, s.log⟩

/-- Reads a source as declarations. -/
def Source.read (source : Source) : Reading := source.tokens.read

/-- The declarations of a source. -/
def Source.parse (source : Source) : Except ParseError (List Declaration) := source.read.result

/-- The declarations of what a reader hands out. Source: `parse_reader`. -/
def Reader.parse {ρ : Type} [Reader ρ] (r : ρ) : Except ParseError (List Declaration) :=
  (Reader.lex r).read.result

end Midl
