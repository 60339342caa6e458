import Midl.Declaration
import Midl.Token

/-!
# Writing declarations

The canonical text of declarations. A declaration is laid out as *pieces*, which are single tokens
or texts that are kept as they are: types, operands and pragmas are stored as text, so that is how
they are written. All arguments of attributes are written as strings. An enumeration or a struct
with attributes is written as a body that is given a name, since only there may it have attributes
of any kind.
-/

namespace Midl

/-- A stretch of text, which spaces part from others. -/
inductive Piece where
  /-- One token. -/
  | token (kind : TokenKind)
  /-- A text that is kept as it is. -/
  | verbatim (text : String)

namespace Piece

/-- The text of a piece. -/
def text : Piece → String
  | token kind => kind.text
  | verbatim text => text

def word (k : Keyword) : Piece := token (.keyword k)

def mark (m : Mark) : Piece := token (.mark m)

def ident (s : String) : Piece := token (.identifier s)

def quoted (s : String) : Piece := token (.string s)

/-- Lists of pieces, with a mark between any two of them. -/
def separated (separator : Mark) : List (List Piece) → List Piece
  | [] => []
  | first :: others => first ++ others.flatMap (mark separator :: ·)

/-- A list of pieces in braces. -/
def braced (inside : List Piece) : List Piece := mark .openBrace :: inside ++ [mark .closeBrace]

/-- The text of several pieces, each followed by a space. -/
def layout (pieces : List Piece) : String := String.join (pieces.map fun p => p.text ++ " ")

end Piece

open Piece

/-! ## Attributes, types and names -/

/-- An attribute. -/
def Attribute.pieces (a : Attribute) : List Piece :=
  token (.attributeName a.kind) ::
    match a.value with
    | none => []
    | some value => [mark .openParen, quoted value, mark .closeParen]

/-- An attribute list, which is left out if it is empty. -/
def attributePieces (attributes : List Attribute) : List Piece :=
  match attributes with
  | [] => []
  | _ => mark .openBracket :: separated .comma (attributes.map Attribute.pieces) ++
      [mark .closeBracket]

/-- A type, its stars, and a name. -/
def typedPieces (typeName : String) (indirection : Nat) (n : String) : List Piece :=
  verbatim typeName :: List.replicate indirection (mark .star) ++ [ident n]

/-- A parameter or a field. -/
def Variable.pieces (v : Variable) : List Piece :=
  attributePieces v.attributes ++ typedPieces v.typeName v.indirection v.name ++
    if v.isArray then [mark .openBracket, mark .closeBracket] else []

/-- Operands, with bars between them. -/
def operandPieces (operands : List String) : List Piece :=
  separated .pipe (operands.map fun operand => [verbatim operand])

/-! ## Declarations -/

/-- A method. -/
def Method.pieces (m : Method) : List Piece :=
  attributePieces m.attributes ++ [verbatim m.returnType, ident m.name, mark .openParen] ++
    separated .comma (m.params.map Variable.pieces) ++ [mark .closeParen, mark .semicolon]

/-- The interface that another one extends, if it does. -/
def parentPieces : Option String → List Piece
  | none => []
  | some parent => [mark .colon, ident parent]

/-- An interface. -/
def Interface.pieces (i : Interface) : List Piece :=
  attributePieces i.attributes ++ [word .interface, ident i.name] ++ parentPieces i.parent ++
    braced (i.methods.flatMap Method.pieces) ++ [mark .semicolon]

/-- A mention of an interface in a component class. -/
def Interface.mentionPieces (i : Interface) : List Piece :=
  attributePieces i.attributes ++ [word .interface, ident i.name, mark .semicolon]

/-- A member of an enumeration. -/
def Member.pieces (m : Member) : List Piece :=
  ident m.name ::
    match m.value with
    | none => []
    | some operands => mark .assign :: operandPieces operands

/-- A body with the keyword `k` that is given a name. -/
def bodyPieces (k : Keyword) (n : String) (attributes : List Attribute) (body : List Piece) :
    List Piece :=
  match attributes with
  | [] => [word k, ident n] ++ braced body ++ [mark .semicolon]
  | _ => word .typedef :: attributePieces attributes ++ word k :: braced body ++
      [ident n, mark .semicolon]

/-- An enumeration. -/
def Enumeration.pieces (e : Enumeration) : List Piece :=
  bodyPieces .enum e.name e.attributes (separated .comma (e.members.map Member.pieces))

/-- A struct. -/
def Record.pieces (r : Record) : List Piece :=
  bodyPieces .struct r.name r.attributes
    (r.fields.flatMap fun v => v.pieces ++ [mark .semicolon])

/-- A further name for a type. -/
def Typedef.pieces (t : Typedef) : List Piece :=
  word .typedef :: attributePieces t.attributes ++
    typedPieces t.typeName t.indirection t.name ++ [mark .semicolon]

/-- A component class. -/
def CoClass.pieces (c : CoClass) : List Piece :=
  attributePieces c.attributes ++ [word .coclass, ident c.name] ++
    braced (c.interfaces.flatMap Interface.mentionPieces) ++ [mark .semicolon]

/-- What a constant is. -/
def ConstantValue.pieces : ConstantValue → List Piece
  | text value => [quoted value]
  | operands values => operandPieces values

/-- A constant. -/
def Constant.pieces (c : Constant) : List Piece :=
  [word .const, verbatim c.typeName, ident c.name, mark .assign] ++ c.value.pieces ++
    [mark .semicolon]

/-- The keyword of a kind of block. -/
def GroupKind.keyword : GroupKind → Keyword
  | library => .library
  | module => .module

mutual

/-- A declaration. -/
def Declaration.pieces : Declaration → List Piece
  | .imports files =>
    word .importFiles :: separated .comma (files.map fun file => [quoted file]) ++
      [mark .semicolon]
  | .interface i => i.pieces
  | .enumeration e => e.pieces
  | .record r => r.pieces
  | .typedef t => t.pieces
  | .coclass c => c.pieces
  | .group kind n attributes body =>
    attributePieces attributes ++ [word kind.keyword, ident n] ++
      braced (Declaration.piecesAll body) ++ [mark .semicolon]
  | .importLibrary file =>
    [word .importLibrary, mark .openParen, quoted file, mark .closeParen, mark .semicolon]
  | .constant c => c.pieces
  | .directive .cppQuote text =>
    [word .cppQuote, mark .openParen, quoted text, mark .closeParen, mark .semicolon]
  | .directive .midlPragma text => [word .midlPragma, verbatim text, mark .semicolon]

/-- Declarations, one after the other. -/
def Declaration.piecesAll : List Declaration → List Piece
  | [] => []
  | d :: ds => d.pieces ++ Declaration.piecesAll ds

end

/-- The canonical text of declarations. -/
def Declaration.print (ds : List Declaration) : String := layout (Declaration.piecesAll ds)

end Midl
