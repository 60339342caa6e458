import Midl.Token.Scan

/-!
# A lexer

A `Lexer` hands out the tokens of a source on demand and keeps the current one. Once it has
come to the end or met an error it is finished and stays so. An error is kept until it is taken,
and is taken at most once.
-/

namespace Midl

/-- A source being read token by token. Source: `Lexer`. -/
structure Lexer where
  /-- What follows the bytes of the source. -/
  ending : Ending
  /-- What has not been read. -/
  cursor : Cursor
  /-- The token read last; the end of the input once there are no more. -/
  current : Token
  /-- The error met, until it is taken. -/
  error? : Option LexError
  /-- Whether no further token will be handed out. -/
  finished : Bool
deriving DecidableEq

namespace Lexer

/-- A lexer at the beginning of a source. Source: `Lexer::new`. -/
def start (source : Source) : Lexer where
  ending := source.ending
  cursor := .start source.bytes
  current := .eof .start
  error? := none
  finished := false

/-- Moves on to the next token and tells whether there is one. After an error the current token
stays the last good one. Source: `Lexer::advance`. -/
def advance (lexer : Lexer) : Bool × Lexer :=
  if lexer.finished then (false, lexer)
  else match scan lexer.ending lexer.cursor with
    | .token t rest => (true, { lexer with cursor := rest, current := t })
    | .finished pos => (false, { lexer with current := .eof pos, finished := true })
    | .failed error => (false, { lexer with error? := some error, finished := true })

/-- Takes the error away, if there is one. Source: `take_error`. -/
def popError (lexer : Lexer) : Option LexError × Lexer :=
  (lexer.error?, { lexer with error? := none })

/-- The next item: a token, or the error in place of one, or nothing. Source: `Lexer::next`. -/
def next (lexer : Lexer) : Option (Except LexError Token) × Lexer :=
  match lexer.advance with
  | (true, lexer) => (some (.ok lexer.current), lexer)
  | (false, lexer) =>
    let (error?, lexer) := lexer.popError
    (error?.map .error, lexer)

end Lexer

end Midl
