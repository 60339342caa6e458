import Midl.Command.Options
import Midl.Command.Run

/-!
# The program's own tools

The toolkit that the program runs with: its own parser for command lines, and colours as terminals
understand them.
-/

namespace Midl.Command

/-- What ends every style. -/
def styleEnd : String := "\x1b[0m"

/-- What begins a style. -/
def Style.start : Style → String
  | red => "\x1b[31m"
  | boldRed => "\x1b[1;31m"
  | boldYellow => "\x1b[1;33m"
  | cyan => "\x1b[36m"
  | dim => "\x1b[2m"

/-- A text in a style, if there is colour. Where the text itself ends a style, its own begins
again. -/
def terminalPaint (color : Bool) : Painter := fun style text =>
  if color then style.start ++ text.replace styleEnd (styleEnd ++ style.start) ++ styleEnd
  else text

/-- The tools of the program. -/
def terminal (color : Bool) : Toolkit where
  parse := parseArguments
  paint := terminalPaint color
  panicText fault := "panicked: " ++ fault.message ++ "\n"

end Midl.Command
