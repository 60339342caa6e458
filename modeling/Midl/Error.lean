import Midl.Token

/-!
# What can be wrong with a source

Errors are causes: each constructor says what was met and where. The wording of all messages is
here, in one function per type. Reading a source stops at the first error.
-/

namespace Midl

/-- Reasons why no further token can be read. Source: `LexError`. -/
inductive LexError where
  /-- A character that begins no token. -/
  | unexpectedChar (char : Char) (pos : Position)
  /-- A string that begins at `pos` and is never closed. -/
  | unterminatedString (pos : Position)
  /-- A slash that does not begin a comment. -/
  | malformedComment (pos : Position)
  /-- The input could not be read any further. -/
  | readFailure (message : String)
deriving DecidableEq

namespace LexError

/-- The message for an error. -/
def message : LexError → String
  | unexpectedChar c pos => "unexpected character '" ++ c.toString ++ "' at " ++ pos.describe
  | unterminatedString pos => "unterminated string starting at " ++ pos.describe
  | malformedComment pos => "unexpected non-comment '/' at " ++ pos.describe
  | readFailure message => "read failure: " ++ message

/-- The place an error speaks of. A failure to read has none. -/
def position? : LexError → Option Position
  | unexpectedChar _ pos | unterminatedString pos | malformedComment pos => some pos
  | readFailure _ => none

end LexError

/-- Reasons why a source is not a sequence of declarations. Source: `ParseError`. -/
inductive ParseError where
  /-- The next token could not be read. -/
  | lexical (error : LexError)
  /-- A token that does not fit. -/
  | mismatch (expected found : String) (pos : Position)
  /-- An import statement without a file. -/
  | emptyImport (pos : Position)
  /-- The input ends inside a declaration. -/
  | unexpectedEnd (expected : String) (pos : Position)
deriving DecidableEq

namespace ParseError

/-- The error for a token `found` where `expected` describes what would have fitted. Source:
`unexpected`. -/
def unexpected (expected : String) (found : Token) : ParseError :=
  match found.kind with
  | .eof => unexpectedEnd expected found.position
  | kind => mismatch expected kind.describe found.position

/-- The message for an error. -/
def message : ParseError → String
  | lexical error => error.message
  | mismatch expected found pos =>
    "syntax error at " ++ pos.describe ++ ": expected " ++ expected ++ ", found " ++ found
  | emptyImport pos => "import statement at " ++ pos.describe ++ " names no files"
  | unexpectedEnd expected pos =>
    "unexpected end of input at " ++ pos.describe ++ ": expected " ++ expected

/-- The place an error speaks of. Source: `ParseError::position`. -/
def position? : ParseError → Option Position
  | lexical error => error.position?
  | mismatch _ _ pos | emptyImport pos | unexpectedEnd _ pos => some pos

end ParseError

end Midl
