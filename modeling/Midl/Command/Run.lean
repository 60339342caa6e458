import Midl.Command.Cli
import Midl.Command.Console
import Midl.Compilation
import Midl.FileTree

/-!
# The command

The command opens its input, compiles it and writes the output, in this order, and stops at the
first failure, so that the output is touched only when there is something to write. What it does to
files is kept apart from everything else by `Files`, of which a `FileTree` is one instance; an open
file is the source that can be read from it, in reads of any size (`Reader.translate_eq`). What the
command takes from libraries is in a `Toolkit`: reading the command line, colours, and what is said
when the work is given up.
-/

namespace Midl.Command

/-- What the command takes from elsewhere. -/
structure Toolkit where
  /-- Reads a command line, or refuses it. Source: `Cli::parse`. -/
  parse : List Argument → Except Refusal Cli
  /-- Shows a text in a style. -/
  paint : Painter
  /-- What is said when a fault is not caught. -/
  panicText : Fault → String

/-- A place that has files. -/
class Files (m : Type → Type) where
  /-- Opens a file, and tells what can be read from it. -/
  read : Path → m (Except FileError Source)
  /-- Gives a file a content. -/
  write : Path → List UInt8 → m (Except FileError Unit)

/-- A file tree that is changed by writing. -/
instance : Files (StateM FileTree) where
  read path := fun tree => (tree.read path, tree)
  write path bytes := fun tree =>
    match tree.write path bytes with
    | .ok tree => (.ok (), tree)
    | .error error => (.error error, tree)

/-- Errors that a translation can end with. -/
inductive Trouble where
  /-- The input could not be opened. -/
  | opening (path : Path) (error : FileError)
  /-- The source could not be read. -/
  | reading (error : ParseError)
  /-- The output could not be written. -/
  | writing (path : Path) (error : FileError)
deriving DecidableEq

namespace Trouble

/-- The wording of an error. -/
def message : Trouble → String
  | opening path _ => "failed to open " ++ Utf8.text path
  | reading error => error.message
  | writing path _ => "failed to write " ++ Utf8.text path

/-- What lies behind an error, if the system does. -/
def causes : Trouble → List String
  | opening _ error | writing _ error => [error.message]
  | reading (.lexical (.readFailure message)) => [message]
  | reading _ => []

end Trouble

/-- How a translation ends. -/
inductive Conclusion where
  /-- The output is written. -/
  | done
  /-- There was an error. -/
  | failed (trouble : Trouble)
  /-- The work was given up, and nothing is done about it. -/
  | panicked (fault : Fault)
deriving DecidableEq

namespace Conclusion

/-- The exit code. -/
def exitCode : Conclusion → Nat
  | done => 0
  | failed _ => 1
  | panicked _ => 101

/-- What is said at the end: an error is reported, a fault is not and ends the program as it is.
Source: `main`. -/
def text (kit : Toolkit) (input : Path) : Conclusion → String
  | done => ""
  | failed trouble =>
    failureLines kit.paint ("could not translate " ++ Utf8.text input) trouble.message
      trouble.causes
  | panicked fault => kit.panicText fault

end Conclusion

/-- What came of a translation. -/
structure Outcome where
  /-- What happened, in order. -/
  log : List Event
  /-- How it ended. -/
  conclusion : Conclusion

/-- Does a translation. Source: `run`. -/
def Cli.perform [Monad m] [Files m] (cli : Cli) : m Outcome := do
  match ← Files.read cli.input with
  | .error error => return ⟨[], .failed (.opening cli.input error)⟩
  | .ok source =>
    let compilation := compile cli.generatorConfig source
    let log := .reading (Utf8.text cli.input) :: compilation.log.toList
    match compilation.result with
    | .error (.source error) => return ⟨log, .failed (.reading error)⟩
    | .error (.fault fault) => return ⟨log, .panicked fault⟩
    | .ok generated =>
      match ← Files.write cli.output (Utf8.bytes generated.source) with
      | .error error => return ⟨log, .failed (.writing cli.output error)⟩
      | .ok () =>
        return ⟨log ++ [.wrote (Utf8.text cli.output) generated.diagnostics.length], .done⟩

/-- The report on a translation. Source: `main`. -/
def Outcome.report (kit : Toolkit) (cli : Cli) (outcome : Outcome) : Report where
  exitCode := outcome.conclusion.exitCode
  stderr :=
    eventLines kit.paint cli.logLevel outcome.log ++ outcome.conclusion.text kit cli.input

/-- Runs the command on the given arguments. Source: `main`. -/
def run [Monad m] [Files m] (kit : Toolkit) (args : List Argument) : m Report :=
  match kit.parse args with
  | .error refusal => return refusal.report
  | .ok cli => do return (← cli.perform).report kit cli

end Midl.Command
