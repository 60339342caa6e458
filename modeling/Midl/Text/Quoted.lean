import Midl.Text.Extender
import Midl.Text.Printable

/-!
# Quoted strings

How a string is written between double quotes: a few characters have an escape of their own,
characters that cannot be shown or that would merge with the one before them are given by their
number, and all others stand for themselves.
-/

namespace Midl.Text

/-- The escape of one letter that a character has, if it has one. -/
def letterEscape? (c : Char) : Option Char :=
  match c with
  | '\x00' => some '0'
  | '\t' => some 't'
  | '\r' => some 'r'
  | '\n' => some 'n'
  | '\x22' => some '\x22'
  | '\x5c' => some '\x5c'
  | _ => none

/-- Whether a character without an escape of its own is given by its number. -/
def isNumbered (c : Char) : Bool := isExtender c || !isPrintable c

/-- How a character is written in a quoted string. -/
def quoteChar (c : Char) : List Char :=
  match letterEscape? c with
  | some letter => ['\x5c', letter]
  | none =>
    if isNumbered c then ['\x5c', 'u', '\x7b'] ++ Nat.toDigits 16 c.toNat ++ ['\x7d'] else [c]

/-- A string in quotes. -/
def quoted (text : String) : String :=
  String.ofList (['\x22'] ++ text.toList.flatMap quoteChar ++ ['\x22'])

end Midl.Text
