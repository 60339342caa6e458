import Midl.Command.Cli
import Midl.Integer

/-!
# Reading command lines

The program's own parser for command lines. Arguments are read from left to right. Two of them are
paths, those that begin with a dash are options, and `--` makes paths of all that follow. Asking for
the version or for help settles the matter at once, and so does the first argument that makes no
sense; that the arguments go together and that none is missing is looked at when all have been read.
-/

namespace Midl.Command

/-- Options that have a value. -/
inductive Setting where
  | package
  | typesPath
  | indent
deriving DecidableEq

/-- The option with a value of a given name. -/
def Setting.ofName? (name : List UInt8) : Option Setting :=
  if name = Utf8.bytes "package" then some package
  else if name = Utf8.bytes "types-path" then some typesPath
  else if name = Utf8.bytes "indent" then some indent
  else none

/-- Options that have none. -/
inductive Flag where
  | noHeader
  | verbose
  | quiet
  | version
  | help
deriving DecidableEq

/-- The option without a value of a given name. -/
def Flag.ofName? (name : List UInt8) : Option Flag :=
  if name = Utf8.bytes "no-header" then some noHeader
  else if name = Utf8.bytes "verbose" then some verbose
  else if name = Utf8.bytes "quiet" then some quiet
  else if name = Utf8.bytes "version" then some version
  else if name = Utf8.bytes "help" then some help
  else none

/-- The option without a value of a given letter. -/
def Flag.ofLetter? (b : UInt8) : Option Flag :=
  if b = 'v'.toUInt8 then some verbose
  else if b = 'q'.toUInt8 then some quiet
  else if b = 'V'.toUInt8 then some version
  else if b = 'h'.toUInt8 then some help
  else none

/-- What an argument is, taken by itself. -/
inductive Word where
  /-- What follows are paths. -/
  | separator
  /-- An option that has a value, with the value if that is in the same argument. -/
  | setting (setting : Setting) (value? : Option (List UInt8))
  /-- An option that has none. -/
  | flag (flag : Flag)
  /-- Options that have none, by their letters. -/
  | letters (letters : List UInt8)
  /-- A path. -/
  | path
  /-- An option that there is not. -/
  | unknown
deriving DecidableEq

/-- What an option is whose name is written out. -/
def Word.ofOption (option : List UInt8) : Word :=
  let name := option.takeWhile (· ≠ '='.toUInt8)
  match Setting.ofName? name, Flag.ofName? name, option.dropWhile (· ≠ '='.toUInt8) with
  | some known, _, _ :: value => .setting known (some value)
  | some known, _, [] => .setting known none
  | none, some known, [] => .flag known
  | none, _, _ => .unknown

/-- Whether an argument is an option. A dash by itself is none. -/
def isOption (arg : Argument) : Bool := arg.head? = some '-'.toUInt8 && arg.tail ≠ []

/-- What an argument is. -/
def Word.ofArgument (arg : Argument) : Word :=
  if isOption arg then
    if arg.tail = ['-'.toUInt8] then .separator
    else if arg.tail.head? = some '-'.toUInt8 then .ofOption arg.tail.tail
    else .letters arg.tail
  else .path

/-- The arguments read so far. -/
structure Given where
  /-- The paths, in order. -/
  paths : List Path := []
  packageName : Option String := none
  typesPath : Option String := none
  indent : Option UInt8 := none
  noHeader : Bool := false
  quiet : Bool := false
  /-- How often more log output was asked for. -/
  verbose : Nat := 0
deriving DecidableEq

namespace Given

/-- Adds a path. There are two, and neither is empty. -/
def addPath (given : Given) (path : Path) : Except RefusalKind Given :=
  if path = [] || 2 ≤ given.paths.length then .error .misuse
  else .ok { given with paths := given.paths ++ [path] }

/-- A value as text, if it is one. -/
def text? (value : List UInt8) : Option String :=
  if Utf8.encode (Utf8.decode value) = value then some (Utf8.text value) else none

/-- The width of an indentation: a number up to 255, with an optional sign. -/
def width? (value : List UInt8) : Option UInt8 :=
  match Integer.signed? 10 (Utf8.decode value) with
  | some n => if 0 ≤ n && n ≤ 255 then some n.toNat.toUInt8 else none
  | none => none

/-- Adds an option with a value. None may be given twice. -/
def set (given : Given) (setting : Setting) (value : List UInt8) : Except RefusalKind Given :=
  match setting with
  | .package =>
    match given.packageName, text? value with
    | none, some text => .ok { given with packageName := some text }
    | _, _ => .error .misuse
  | .typesPath =>
    match given.typesPath, text? value with
    | none, some text => .ok { given with typesPath := some text }
    | _, _ => .error .misuse
  | .indent =>
    match given.indent, width? value with
    | none, some width => .ok { given with indent := some width }
    | _, _ => .error .misuse

/-- Adds an option without a value. Only the one for more log output may be given twice. -/
def raise (given : Given) (flag : Flag) : Except RefusalKind Given :=
  match flag with
  | .noHeader => if given.noHeader then .error .misuse else .ok { given with noHeader := true }
  | .quiet => if given.quiet then .error .misuse else .ok { given with quiet := true }
  | .verbose => .ok { given with verbose := given.verbose + 1 }
  | .version => .error .version
  | .help => .error .help

/-- Adds options given by letters in one argument. -/
def raiseAll (given : Given) : List UInt8 → Except RefusalKind Given
  | [] => .ok given
  | letter :: letters =>
    match Flag.ofLetter? letter with
    | none => .error .misuse
    | some flag => do raiseAll (← given.raise flag) letters

/-- Reads arguments after others. `pathsOnly` tells that options are over. -/
def readFrom (given : Given) (pathsOnly : Bool) : List Argument → Except RefusalKind Given
  | [] => .ok given
  | arg :: args =>
    if pathsOnly then do readFrom (← given.addPath arg) true args
    else match Word.ofArgument arg with
      | .separator => given.readFrom true args
      | .setting setting (some value) => do readFrom (← given.set setting value) false args
      | .setting setting none =>
        match args with
        | [] => .error .misuse
        | value :: args =>
          if isOption value then .error .misuse
          else do readFrom (← given.set setting value) false args
      | .flag flag => do readFrom (← given.raise flag) false args
      | .letters letters => do readFrom (← given.raiseAll letters) false args
      | .path => do readFrom (← given.addPath arg) false args
      | .unknown => .error .misuse

/-- What the arguments ask for, now that all have been read. The count of requests for more log
output stays at its greatest value once it is there. -/
def finish (given : Given) : Except RefusalKind Cli :=
  match given.paths with
  | [input, output] =>
    if given.quiet && 0 < given.verbose then .error .misuse
    else
      let cli : Cli := { input, output }
      .ok { cli with
        packageName := given.packageName.getD cli.packageName
        typesPath := given.typesPath.getD cli.typesPath
        indent := given.indent.getD cli.indent
        noHeader := given.noHeader
        verbose := (min given.verbose 255).toUInt8
        quiet := given.quiet }
  | _ => .error .misuse

end Given

/-- The name and version of the command. -/
def versionText : String := "comidl 0.1.0\n"

/-- How the command is called. -/
def usageText : String := "Usage: comidl [OPTIONS] <INPUT> <OUTPUT>\n"

/-- What the command does and which options it has. -/
def helpText : String :=
  "Translate MIDL interface definitions into Rust declarations\n\n" ++ usageText ++
  "\nArguments:\n" ++
  "  <INPUT>   MIDL source file to read\n" ++
  "  <OUTPUT>  Rust file to write; only created when translation succeeds\n" ++
  "\nOptions:\n" ++
  "      --package <PACKAGE_NAME>   Name of the module wrapping the generated items [default: idl]\n" ++
  "      --types-path <TYPES_PATH>  Path that provides HRESULT, GUID and the other platform types [default: wintypes]\n" ++
  "      --indent <INDENT>          Spaces per indentation level [default: 4]\n" ++
  "      --no-header                Omit the \"generated\" banner\n" ++
  "  -v, --verbose...               More log output (-v info, -vv debug, -vvv trace)\n" ++
  "  -q, --quiet                    Only print errors\n" ++
  "  -h, --help                     Print help\n" ++
  "  -V, --version                  Print version\n"

/-- What is said when there is no translation to do. -/
def RefusalKind.report : RefusalKind → Report
  | version => { exitCode := 0, stdout := versionText }
  | help => { exitCode := 0, stdout := helpText }
  | misuse => { exitCode := 2, stderr := usageText }

/-- Reads a command line. -/
def parseArguments (args : List Argument) : Except Refusal Cli :=
  (Given.readFrom {} false args >>= Given.finish).mapError fun kind => ⟨kind, kind.report⟩

end Midl.Command
