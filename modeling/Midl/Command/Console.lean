import Midl.Log

/-!
# Messages on the console

Events and failures as lines of text. Which pieces are coloured, and how, is decided here; what a
coloured piece looks like is up to the painter that is passed in.
-/

namespace Midl.Command

/-- The styles that texts are shown in. -/
inductive Style where
  | red
  | boldRed
  | boldYellow
  | cyan
  | dim
deriving DecidableEq

/-- How a text looks in a style. -/
abbrev Painter := Style → String → String

/-- The label of a level. Source: `level_label`. -/
def labelOf (paint : Painter) : Level → String
  | .error => paint .boldRed "Error:"
  | .warn => paint .boldYellow "Warning:"
  | .info => paint .cyan "Info:"
  | .debug => paint .dim "Debug:"
  | .trace => paint .dim "Trace:"

/-- An event as a line. Source: `ConsoleLogger::log`. -/
def eventLine (paint : Painter) (event : Event) : String :=
  labelOf paint event.level ++ " " ++ event.message ++ "\n"

/-- The events that are important enough to be shown, as lines. Source: `ConsoleLogger::enabled`,
`ConsoleLogger::log`. -/
def eventLines (paint : Painter) (limit : Level) (events : List Event) : String :=
  String.join ((events.filter (Event.shownAt limit)).map (eventLine paint))

/-- A cause of a failure as a line. -/
def causeLine (paint : Painter) (cause : String) : String :=
  "  " ++ paint .dim "Caused by:" ++ " " ++ paint .dim cause ++ "\n"

/-- A failure as lines: what could not be done, the error, and what caused it. Source:
`print_error`. -/
def failureLines (paint : Painter) (context error : String) (causes : List String) : String :=
  labelOf paint .error ++ " " ++ context ++ "\n"
    ++ "  " ++ paint .red error ++ "\n" ++ String.join (causes.map (causeLine paint))

end Midl.Command
