import Midl.Parser.Basic

/-!
# Attributes, types and typed names

The parts that declarations are made of: bracketed attribute lists, types with the names they are
given to, and the operands of constant values.
-/

namespace Midl.Parser

/-! ## Attributes -/

/-- The argument of an attribute: any stars, and then a name, a number, a string, or the keyword of
an attribute. Source: `parse_attribute_value`. -/
def attributeArgument : Parser String := do
  let depth ← stars
  let word ← match ← peek with
    | .identifier text | .number text | .string text => pure text
    | .attributeName kind => pure kind.keyword
    | _ => unexpected "an attribute argument"
  advance
  return String.ofList (List.replicate depth '*') ++ word

/-- One attribute. Those that describe parameters are refused unless `onParameter` is set. Source:
`parse_attribute`. -/
def oneAttribute (onParameter : Bool) : Parser Attribute := do
  let kind ← match ← peek with
    | .attributeName kind =>
      if onParameter || !kind.isParameter then pure kind
      else unexpected "an interface or type attribute"
    | _ => unexpected "an attribute"
  advance
  if ← eat (.mark .openParen) then
    let value ← attributeArgument
    expect (.mark .closeParen)
    return ⟨kind, some value⟩
  else
    return ⟨kind, none⟩

/-- A bracketed list of attributes, which may be empty. Source: `parse_attributes`. -/
def attributeList (onParameter : Bool) : Parser (List Attribute) := do
  expect (.mark .openBracket)
  let attributes ←
    if (← peek) = .mark .closeBracket then pure []
    else separated .comma (oneAttribute onParameter)
  expect (.mark .closeBracket)
  return attributes

/-- An attribute list of any kind where there may be one. -/
def attributes : Parser (List Attribute) :=
  ifSees (.mark .openBracket) [] (attributeList true)

/-! ## Types and names

A type is a sequence of words followed by stars. Without stars nothing but its place tells the
name apart from the words of the type: the last word is the name if it could be one and another
word is left to be the type. -/

/-- The words that a type is made of. -/
inductive Word where
  | name (text : String)
  | long
  | const
deriving DecidableEq

/-- The spelling of a word. -/
def Word.text : Word → String
  | name text => text
  | long => "long"
  | const => "const"

/-- One word of a type, where there is one. Source: `parse_declarator`. -/
def word : Parser (Option Word) := do
  match ← peek with
  | .identifier text =>
    advance
    return some (.name text)
  | .keyword .long =>
    advance
    return some .long
  | .keyword .const =>
    advance
    return some .const
  | _ => return none

/-- Parts a trailing name from the words before it. The word `const` does not count as a type.
Source: `parse_declarator`. -/
def splitName (words : List Word) : List Word × Option String :=
  match words.getLast? with
  | some (.name text) =>
    if (words.filter (· ≠ .const)).length > 1 then (words.dropLast, some text) else (words, none)
  | _ => (words, none)

/-- A type as written. Source: `Declarator`. -/
structure TypeRef where
  /-- Its words, separated by single spaces. -/
  typeName : String
  /-- The number of stars after them. -/
  indirection : Nat
deriving DecidableEq

/-- The type as one text, with its stars at the end. -/
def TypeRef.suffixed (t : TypeRef) : String :=
  t.typeName ++ String.ofList (List.replicate t.indirection '*')

/-- A type and the name after it, if there is one. Stars have to be followed by a name, and each may
be followed by `const`, which is not kept. Source: `parse_declarator`. -/
def typed : Parser (TypeRef × Option String) := do
  let words ← many word
  let depth ← List.length <$> many do
    if ← eat (.mark .star) then
      discard (eat (.keyword .const))
      return some ()
    else return none
  let (words, name) ←
    if depth = 0 then pure (splitName words)
    else do
      let name ← identifier "a name after the pointer type"
      pure (words, some name)
  if words.all (· = .const) then unexpected "a type name"
  return (⟨" ".intercalate (words.map Word.text), depth⟩, name)

/-- A type and the name after it, which has to be there. Source: `parse_named_declarator`. -/
def named (expected : String) : Parser (TypeRef × String) := do
  match ← typed with
  | (type, some name) => return (type, name)
  | (_, none) => unexpected expected

/-- An empty pair of brackets, where there is one. Source: `parse_array_suffix`. -/
def arraySuffix : Parser Bool := do
  if ← eat (.mark .openBracket) then
    expect (.mark .closeBracket)
    return true
  else
    return false

/-! ## Operands -/

/-- One operand of a constant value. Source: `parse_const_expr`. -/
def operand : Parser String := do
  match ← peek with
  | .identifier text | .number text =>
    advance
    return text
  | _ => unexpected "a number or name"

/-- The operands of a constant value. Source: `parse_const_expr`. -/
def operands : Parser (List String) := separated .pipe operand

end Midl.Parser
