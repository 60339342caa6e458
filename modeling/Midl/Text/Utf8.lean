/-!
# UTF-8 with replacement

`encode` writes characters as bytes. `decode` reads bytes that need not be valid: every maximal
stretch that could begin a character but does not finish it, and every byte that cannot begin
one, is read as a single replacement character. The decoder is a machine that takes one byte at
a time and remembers how much of a character it has seen.
-/

namespace Midl.Utf8

/-- The bytes of a sequence of characters. -/
def encode (cs : List Char) : List UInt8 := cs.flatMap String.utf8EncodeChar

/-- The bytes of a text. -/
def bytes (text : String) : List UInt8 := encode text.toList

/-- What stands in for bytes that are no character. -/
def replacement : Char := '�'

/-- How far the decoder is into a character. -/
inductive Pending where
  /-- Between characters. -/
  | none
  /-- Inside one: the bits seen so far, how many more bytes are due after the next, and the
  range the next one must lie in. -/
  | some (bits : Nat) (due : Nat) (low high : UInt8)

/-- Reads a byte that does not continue a character: an ASCII character, the first byte of a
longer one, or a byte that cannot stand here. The ranges exclude encodings that are longer than
needed, surrogates, and numbers above the last code point. -/
def lead (b : UInt8) : List Char × Pending :=
  if b < 0x80 then ([Char.ofNat b.toNat], .none)
  else if b < 0xC2 then ([replacement], .none)
  else if b < 0xE0 then ([], .some (b.toNat - 0xC0) 0 0x80 0xBF)
  else if b < 0xF0 then
    let low := if b = 0xE0 then 0xA0 else 0x80
    let high := if b = 0xED then 0x9F else 0xBF
    ([], .some (b.toNat - 0xE0) 1 low high)
  else if b < 0xF5 then
    let low := if b = 0xF0 then 0x90 else 0x80
    let high := if b = 0xF4 then 0x8F else 0xBF
    ([], .some (b.toNat - 0xF0) 2 low high)
  else ([replacement], .none)

/-- One byte: the characters it completes, and where the decoder is afterwards. -/
def step : Pending → UInt8 → List Char × Pending
  | .none, b => lead b
  | .some bits due low high, b =>
    if low ≤ b && b ≤ high then
      let bits := bits * 64 + (b.toNat - 0x80)
      match due with
      | 0 => ([Char.ofNat bits], .none)
      | due + 1 => ([], .some bits due 0x80 0xBF)
    else
      let (cs, pending) := lead b
      (replacement :: cs, pending)

/-- Reads bytes from a given point inside a character. -/
def decodeFrom : Pending → List UInt8 → List Char
  | .none, [] => []
  | .some .., [] => [replacement]
  | pending, b :: bs =>
    let (cs, pending) := step pending b
    cs ++ decodeFrom pending bs

/-- The characters of a stretch of bytes. -/
def decode (bytes : List UInt8) : List Char := decodeFrom .none bytes

/-- The text of a stretch of bytes. Source: `from_utf8_lossy`. -/
def text (bytes : List UInt8) : String := String.ofList (decode bytes)

end Midl.Utf8
