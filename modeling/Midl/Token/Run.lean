import Midl.Text.Byte
import Midl.Token

/-!
# Literal runs

Names, numbers, reserved words and the dash are all read the same way: as a longest run of
literal bytes. A small machine follows the run and settles what it is once it ends. A run begins
as a number if its first byte is a digit, and stops being one at the first byte that no number
can hold; from then on it is a word, and a word that ever holds a dash or a dot is *dotted* and
cannot be reserved.
-/

namespace Midl

/-- What a literal run is, as far as it has been read. Source: `Run`. -/
inductive Run where
  /-- The single digit zero, which a hexadecimal mark may follow. -/
  | zero
  /-- Decimal digits. -/
  | decimal
  /-- Zero, the mark `x` or `X`, and hexadecimal digits. -/
  | hex
  /-- A run that may spell a reserved word. -/
  | word
  /-- A run with a dash or a dot in it. -/
  | dotted
deriving DecidableEq

namespace Run

/-- The run that a byte makes of a number it does not belong to, or of nothing. -/
def ofLetter (b : UInt8) : Run := if Byte.isWord b then word else dotted

/-- The run that consists of one literal byte. -/
def ofByte (b : UInt8) : Run :=
  if b = '0'.toUInt8 then zero
  else if Byte.isDigit b then decimal
  else ofLetter b

/-- The run with one more byte, or nothing if the byte does not belong to any run. Source:
`take_literal`. -/
def next? (run : Run) (b : UInt8) : Option Run :=
  if !Byte.isLiteral b then none
  else match run with
    | zero =>
      if Byte.isDigit b then some decimal
      else if b = 'x'.toUInt8 || b = 'X'.toUInt8 then some hex
      else some (ofLetter b)
    | decimal => if Byte.isDigit b then some decimal else some (ofLetter b)
    | hex => if Byte.isHexDigit b then some hex else some (ofLetter b)
    | word => some (ofLetter b)
    | dotted => some dotted

/-- How far a run goes. -/
structure Extent where
  /-- What the run turned out to be. -/
  run : Run
  /-- The further bytes that belong to it. -/
  taken : List UInt8
  /-- The bytes from the first that does not. -/
  rest : List UInt8

/-- Follows a run through the bytes after it. Source: `take_literal`. -/
def follow (run : Run) : List UInt8 → Extent
  | [] => ⟨run, [], []⟩
  | b :: bs =>
    match run.next? b with
    | none => ⟨run, [], b :: bs⟩
    | some run =>
      let extent := run.follow bs
      { extent with taken := b :: extent.taken }

/-- The kind of token that a finished run with the given text is. Source: `take_literal`. -/
def kind (run : Run) (text : String) : TokenKind :=
  match run with
  | zero | decimal | hex => .number text
  | word => .ofWord text
  | dotted => if text = "-" then .mark .dash else .identifier text

/-- Following a run loses no byte. -/
theorem follow_append (run : Run) (bs : List UInt8) :
    (run.follow bs).taken ++ (run.follow bs).rest = bs := by
  induction bs generalizing run with
  | nil => rfl
  | cons b bs ih =>
    unfold follow
    split
    · rfl
    · next run _ => simp [ih run]

end Run

end Midl
