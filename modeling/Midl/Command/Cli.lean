import Midl.FileTree
import Midl.Log
import Midl.Output.Session

/-!
# What a command line says

`Cli` is what a command line says about the work to be done, once it has been read. Reading it is
left to a parser that comes from elsewhere: the parser gives a `Cli`, or refuses the command line
and says itself what there is to say.
-/

namespace Midl.Command

/-- An argument, as the system passes it on. It need not be a text. -/
abbrev Argument := List UInt8

/-- What the command leaves behind besides files. -/
structure Report where
  /-- The exit code. -/
  exitCode : Nat
  /-- What it answers. -/
  stdout : String := ""
  /-- What it says about its work. -/
  stderr : String := ""
deriving DecidableEq

/-- Reasons for a parser to do without a translation. -/
inductive RefusalKind where
  /-- The version was asked for. -/
  | version
  /-- Help was asked for. -/
  | help
  /-- The command line makes no sense. -/
  | misuse
deriving DecidableEq

/-- What a parser does with a command line that asks for no translation. -/
structure Refusal where
  kind : RefusalKind
  /-- What the parser says, and the exit code it ends the program with. -/
  report : Report
deriving DecidableEq

/-- A command line that asks for a translation. Source: `Cli`. -/
structure Cli where
  /-- The path of the source. -/
  input : Path
  /-- The path of the output. -/
  output : Path
  /-- The name of the module around the output. -/
  packageName : String := "idl"
  /-- The path that platform types are imported from. -/
  typesPath : String := "wintypes"
  /-- The number of spaces by which a level is indented. -/
  indent : UInt8 := 4
  /-- Whether the output goes without its opening comment. -/
  noHeader : Bool := false
  /-- How often more log output was asked for. -/
  verbose : UInt8 := 0
  /-- Whether only errors are to be shown. -/
  quiet : Bool := false
deriving DecidableEq

namespace Cli

/-- The least important level that is shown. Source: `log_level`. -/
def logLevel (cli : Cli) : Level :=
  if cli.quiet then .error
  else match cli.verbose.toNat with
    | 0 => .warn
    | 1 => .info
    | 2 => .debug
    | _ => .trace

/-- The choices about the output. Source: `generator_config`. -/
def generatorConfig (cli : Cli) : Output.Settings where
  packageName := cli.packageName
  typesPath := cli.typesPath
  layout := ⟨cli.indent.toNat, !cli.noHeader⟩

end Cli

end Midl.Command
