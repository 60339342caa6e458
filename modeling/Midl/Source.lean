import Midl.Text.Utf8

/-!
# Sources

A source is what can be read from an input: some bytes, and then either the end of the input or
a failure that is met again each time the next byte is looked at. An input hands out its bytes in
reads of any size (`Midl.Reader`); that tokens do not depend on how the bytes were parted is proved
of the reader (`Reader.lex_eq`), and every later stage works on sources.
-/

namespace Midl

/-- What is met after the last byte of a source. -/
inductive Ending where
  /-- The input is over. -/
  | eof
  /-- Reading on fails, for the stated reason. -/
  | failure (message : String)
deriving DecidableEq

/-- An input that can be read. -/
structure Source where
  /-- The bytes that can be read, in order. -/
  bytes : List UInt8
  /-- What follows them. -/
  ending : Ending := .eof
deriving DecidableEq

namespace Source

/-- A source that holds exactly these bytes. -/
def ofBytes (bytes : List UInt8) : Source := ⟨bytes, .eof⟩

/-- A source that holds a text, encoded as UTF-8. -/
def ofText (text : String) : Source := ofBytes (Utf8.encode text.toList)

end Source

end Midl
