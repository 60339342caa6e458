/-!
# Lines

A line ends at a line feed, together with a carriage return directly before it. Other carriage
returns belong to the line. Nothing follows the last line feed unless there is text there.
-/

namespace Midl.Text

/-- The lines of a sequence of characters. -/
def splitLines : List Char → List (List Char)
  | [] => []
  | '\n' :: cs => [] :: splitLines cs
  | '\r' :: '\n' :: cs => [] :: splitLines cs
  | c :: cs =>
    match splitLines cs with
    | [] => [[c]]
    | line :: lines => (c :: line) :: lines

/-- The lines of a text. Source: `lines`. -/
def lines (text : String) : List String := (splitLines text.toList).map String.ofList

end Midl.Text
