/-!
# Positions in a source

A `Position` says where a byte stands: how many bytes come before it, and in which line and
column it is found. Bytes are counted, not characters, and only a line feed ends a line.
`Position.advance` is the one way positions move; everything that reports a place obtains it
from there.
-/

namespace Midl

/-- The place of a byte in a source. Source: `Position`. -/
structure Position where
  /-- The number of bytes before it. -/
  offset : Nat
  /-- The line it is in, counted from one. -/
  line : Nat
  /-- Its place in that line, counted from one. -/
  column : Nat
deriving DecidableEq, Inhabited

namespace Position

/-- The position of the first byte. Source: `Cursor::START`. -/
def start : Position := ⟨0, 1, 1⟩

/-- The position just after a byte that stands at `p`. A line feed belongs to the line it ends.
Source: `Cursor::step`. -/
def after (p : Position) (b : UInt8) : Position :=
  if b = '\n'.toUInt8 then ⟨p.offset + 1, p.line + 1, 1⟩
  else ⟨p.offset + 1, p.line, p.column + 1⟩

/-- The position just after a stretch of bytes that begins at `p`. -/
def advance (p : Position) (bytes : List UInt8) : Position :=
  bytes.foldl after p

/-- The wording used in messages. Source: `Position::fmt`. -/
def describe (p : Position) : String :=
  s!"line {p.line}, column {p.column}"

@[simp] theorem advance_nil (p : Position) : p.advance [] = p := rfl

@[simp] theorem advance_cons (p : Position) (b : UInt8) (bs : List UInt8) :
    p.advance (b :: bs) = (p.after b).advance bs := rfl

/-- The position after two stretches is reached by way of the one after the first. -/
theorem advance_append (p : Position) (xs ys : List UInt8) :
    p.advance (xs ++ ys) = (p.advance xs).advance ys := by
  simp [advance, List.foldl_append]

end Position

end Midl
