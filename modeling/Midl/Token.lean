import Midl.Position
import Midl.Attribute

/-!
# Tokens

A token is one lexical unit with the position it begins at. This module fixes what the kinds of
tokens are, how each is spelled, and how messages name it; how tokens are found in a source is
the business of `Midl.Token.Scan`.
-/

namespace Midl

/-- The reserved words that introduce or shape declarations. Source: `Keyword`. -/
inductive Keyword where
  | importFiles
  | interface
  | cppQuote
  | midlPragma
  | enum
  | coclass
  | typedef
  | library
  | importLibrary
  | module
  | const
  | long
  | struct
deriving DecidableEq

namespace Keyword

/-- Every keyword, once. -/
def all : List Keyword :=
  [importFiles, interface, cppQuote, midlPragma, enum, coclass, typedef, library, importLibrary,
    module, const, long, struct]

/-- The spelling of a keyword. Source: `Keyword::as_str`. -/
def text : Keyword → String
  | importFiles => "import"
  | interface => "interface"
  | cppQuote => "cpp_quote"
  | midlPragma => "midl_pragma"
  | enum => "enum"
  | coclass => "coclass"
  | typedef => "typedef"
  | library => "library"
  | importLibrary => "importlib"
  | module => "module"
  | const => "const"
  | long => "long"
  | struct => "struct"

/-- The keyword that a word spells, if it spells one. Source: `lookup_keyword`. -/
def ofText? (word : String) : Option Keyword :=
  all.find? fun keyword => keyword.text = word

/-- A keyword is found by its spelling. -/
theorem ofText?_text (keyword : Keyword) : ofText? keyword.text = some keyword := by
  cases keyword <;> decide

/-- A word that spells a keyword is the spelling of it. -/
theorem text_of_ofText? {word : String} {keyword : Keyword}
    (h : ofText? word = some keyword) : keyword.text = word := by
  simpa using List.find?_some h

end Keyword

/-- Delimiters and operators. Source: `TokenKind`. -/
inductive Mark where
  | openParen
  | closeParen
  | openBracket
  | closeBracket
  | openBrace
  | closeBrace
  | comma
  | colon
  | semicolon
  | dash
  | star
  | assign
  | pipe
deriving DecidableEq

namespace Mark

/-- The character that a mark is written with. -/
def char : Mark → Char
  | openParen => '('
  | closeParen => ')'
  | openBracket => '['
  | closeBracket => ']'
  | openBrace => '\x7b'
  | closeBrace => '\x7d'
  | comma => ','
  | colon => ':'
  | semicolon => ';'
  | dash => '-'
  | star => '*'
  | assign => '='
  | pipe => '|'

/-- The marks that are tokens by themselves wherever they stand. The dash is not one of them: it
is read as part of a literal run. -/
def standalone : List Mark :=
  [openParen, closeParen, openBracket, closeBracket, openBrace, closeBrace, comma, colon,
    semicolon, star, assign, pipe]

/-- The mark that a byte is by itself, if it is one. Source: `punctuation`. -/
def ofByte? (b : UInt8) : Option Mark :=
  standalone.find? fun mark => mark.char.toUInt8 = b

end Mark

/-- What a token is. Source: `TokenKind`. -/
inductive TokenKind where
  /-- A reserved word of the declaration language. -/
  | keyword (keyword : Keyword)
  /-- The keyword of an attribute, which is reserved everywhere. -/
  | attributeName (kind : AttributeKind)
  /-- A delimiter or an operator. -/
  | mark (mark : Mark)
  /-- A name. Runs with dots or dashes, such as `1.0` or a bare UUID, are names as well. -/
  | identifier (text : String)
  /-- A decimal or hexadecimal number, as written. -/
  | number (text : String)
  /-- A string, without its quotes. -/
  | string (text : String)
  /-- The end of the input, which stands for no text. -/
  | eof
deriving DecidableEq

namespace TokenKind

/-- The spelling of a token. Source: `TokenKind::text`. -/
def text : TokenKind → String
  | keyword k => k.text
  | attributeName a => a.keyword
  | mark m => m.char.toString
  | identifier s => s
  | number s => s
  | string s => "\"" ++ s ++ "\""
  | eof => ""

/-- How a message names a token. Source: `TokenKind::fmt`. -/
def describe : TokenKind → String
  | identifier s => "identifier '" ++ s ++ "'"
  | number s => "number " ++ s
  | string s => "string \"" ++ s ++ "\""
  | eof => "end of input"
  | kind => "'" ++ kind.text ++ "'"

/-- The kind of a word: reserved if it spells a keyword or names an attribute, else a name. Source:
`lookup_keyword`. -/
def ofWord (word : String) : TokenKind :=
  match Keyword.ofText? word with
  | some k => keyword k
  | none =>
    match AttributeKind.ofKeyword? word with
    | some a => attributeName a
    | none => identifier word

end TokenKind

/-- A lexical unit and where it begins. Source: `Token`. -/
structure Token where
  /-- What it is. -/
  kind : TokenKind
  /-- Where its first byte stands. -/
  position : Position
deriving DecidableEq

namespace Token

/-- How a message names a token and its place. Source: `Token::fmt`. -/
def describe (t : Token) : String := t.kind.describe ++ " at " ++ t.position.describe

/-- The token that stands for the end of the input. -/
def eof (pos : Position) : Token := ⟨.eof, pos⟩

end Token

end Midl
