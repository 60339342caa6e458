/-!
# Bytes read as characters

Outside quoted strings a source is read one byte at a time, each byte standing for the Latin-1
character of the same number. This module gives that reading and the byte classes the token
rules are built from.
-/

namespace Midl.Byte

/-- The Latin-1 character of a byte. Source: `peek`. -/
def toChar (b : UInt8) : Char := Char.ofNat b.toNat

/-- The Latin-1 reading of a stretch of bytes. -/
def text (bytes : List UInt8) : String := String.ofList (bytes.map toChar)

/-- The ASCII digits. -/
def isDigit (b : UInt8) : Bool := '0'.toUInt8 ≤ b && b ≤ '9'.toUInt8

/-- The ASCII digits of base sixteen, in either case. -/
def isHexDigit (b : UInt8) : Bool :=
  isDigit b || ('a'.toUInt8 ≤ b && b ≤ 'f'.toUInt8) || ('A'.toUInt8 ≤ b && b ≤ 'F'.toUInt8)

/-- The letters and digits of the upper half of Latin-1: the ordinal indicators, the superscript
digits, the fractions, the micro sign, and all letters with an accent. The signs for
multiplication (`D7`) and division (`F7`) lie among the letters and are not counted. -/
def isUpperAlnum (b : UInt8) : Bool :=
  [0xAA, 0xB2, 0xB3, 0xB5, 0xB9, 0xBA, 0xBC, 0xBD, 0xBE].contains b
    || (0xC0 ≤ b && b ≠ 0xD7 && b ≠ 0xF7)

/-- Letters and digits of Latin-1. -/
def isAlnum (b : UInt8) : Bool :=
  isDigit b || ('a'.toUInt8 ≤ b && b ≤ 'z'.toUInt8) || ('A'.toUInt8 ≤ b && b ≤ 'Z'.toUInt8)
    || isUpperAlnum b

/-- Bytes a reserved word may be spelled with. Source: `is_keyword_char`. -/
def isWord (b : UInt8) : Bool := isAlnum b || b = '_'.toUInt8

/-- Bytes of a literal run: those of a word, the dash and the dot. Source: `is_literal_char`. -/
def isLiteral (b : UInt8) : Bool := isWord b || b = '-'.toUInt8 || b = '.'.toUInt8

/-- Bytes that separate tokens and mean nothing else. Source: `skip_whitespace`. -/
def isBlank (b : UInt8) : Bool :=
  b = ' '.toUInt8 || b = '\t'.toUInt8 || b = '\r'.toUInt8 || b = '\n'.toUInt8

/-- The double quote, which opens and closes a string. -/
def quote : UInt8 := 0x22

end Midl.Byte
