import Midl.Error
import Midl.Log
import Midl.Token.Stream

/-!
# Reading a token stream

A parser looks at the current token only, and moves on one token at a time. The stream behind
the current token is scanned exactly one token ahead: moving on makes the next token current,
which is recorded in the log, and if no further token can be read, then moving on is what fails.
The state is kept on failure as well, for the sake of its log.

Repetition is the one source of recursion in this module. `manyFrom` repeats a parser that either
stops or yields an item; an item that took no token ends the repetition, so that it is total
whatever is repeated. Every parser repeated in this library does take tokens.
-/

namespace Midl

namespace Parser

/-- What is left to read, and what has happened so far. Source: `Parser`. -/
structure State where
  /-- The tokens from the current one on. -/
  tokens : List Token
  /-- How many there are, which is kept so that progress can be told at a glance. -/
  left : Nat := tokens.length
  left_eq : left = tokens.length := by rfl
  /-- What comes after them. -/
  stop : Stop
  /-- What has happened. -/
  log : Array Event

/-- The state without the current token. -/
def State.tail (s : State) : State where
  tokens := s.tokens.tail
  left := s.left - 1
  left_eq := by simp [s.left_eq]
  stop := s.stop
  log := s.log

/-- The current token: the end of the input if no token is left. -/
def State.current (s : State) : Token :=
  match s.tokens, s.stop with
  | t :: _, _ => t
  | [], .finished pos => .eof pos
  | [], .failed _ => .eof .start

end Parser

/-- Reads something off a token stream, or fails. -/
abbrev Parser := EStateM ParseError Parser.State

namespace Parser

/-- Makes the first of the tokens left the current one. Source: `pull`. -/
def arrive : Parser Unit := fun s =>
  match s.tokens, s.stop with
  | t :: _, _ => .ok () { s with log := s.log.push (.scanned t) }
  | [], .finished _ => .ok () s
  | [], .failed error => .error (.lexical error) s

/-- Moves on to the next token. Source: `Parser::advance`. -/
def advance : Parser Unit := fun s => arrive s.tail

/-- The current token. -/
def current : Parser Token := fun s => .ok s.current s

/-- The kind of the current token. -/
def peek : Parser TokenKind := fun s => .ok s.current.kind s

/-- Fails because the current token is not what `expected` describes. Source: `Parser::unexpected`.
-/
def unexpected (expected : String) : Parser α := fun s =>
  .error (.unexpected expected s.current) s

/-- Records events. -/
def note (events : List Event) : Parser Unit := fun s =>
  .ok () { s with log := s.log ++ events }

/-- Moves on if the current token is of the given kind, and tells whether it was. Source: `eat`. -/
def eat (kind : TokenKind) : Parser Bool := do
  if (← peek) = kind then
    advance
    return true
  else
    return false

/-- Moves past a token that has to be of the given kind. Source: `consume`. -/
def expect (kind : TokenKind) : Parser Unit := do
  if (← peek) = kind then advance else unexpected kind.describe

/-- Moves past a name, which has to be there. Source: `consume_identifier`. -/
def identifier (expected : String) : Parser String := do
  match ← peek with
  | .identifier text =>
    advance
    return text
  | _ => unexpected expected

/-- Moves past a string, which has to be there. Source: `consume_string`. -/
def string (expected : String) : Parser String := do
  match ← peek with
  | .string text =>
    advance
    return text
  | _ => unexpected expected

/-! ## Repetition -/

/-- Repeats `item`, which carries a value from one round to the next, until it yields nothing. -/
def manyFrom (item : σ → Parser (Option (α × σ))) (carried : σ) : Parser (List α) := fun s =>
  let left := s.left
  match item carried s with
  | .error e s' => .error e s'
  | .ok none s' => .ok [] s'
  | .ok (some (a, carried)) s' =>
    if s'.left < left then
      match manyFrom item carried s' with
      | .error e s'' => .error e s''
      | .ok as s'' => .ok (a :: as) s''
    else .ok [a] s'
termination_by s => s.left

/-- Repeats `item` until it yields nothing. -/
def many (item : Parser (Option α)) : Parser (List α) :=
  manyFrom (fun () => (Option.map (·, ())) <$> item) ()

/-- Repeats `item` until the current token is of the given kind. -/
def manyUntil (kind : TokenKind) (item : Parser α) : Parser (List α) :=
  many do
    if (← peek) = kind then return none
    else some <$> item

/-- Reads `item` once, and again after every separator. -/
def separated (separator : Mark) (item : Parser α) : Parser (List α) := do
  let first ← item
  let others ← many do
    if ← eat (.mark separator) then some <$> item
    else return none
  return first :: others

/-- Moves past any number of stars, and counts them. -/
def stars : Parser Nat :=
  List.length <$> many do
    if ← eat (.mark .star) then return some ()
    else return none

/-- Reads `item` if the current token is of the given kind, and otherwise gives `absent`. -/
def ifSees (kind : TokenKind) (absent : α) (item : Parser α) : Parser α := do
  if (← peek) = kind then item else return absent

end Parser

end Midl
