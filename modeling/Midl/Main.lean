import Midl.Command.Terminal

/-!
# The executable

Runs the command on the files of the system. Arguments reach the program as texts here, so that a
path is a text as well.
-/

namespace Midl.Command

/-- An error of the system, in the words used for files. -/
def fileError : IO.Error → FileError
  | .noFileOrDirectory .. => .notFound
  | .inappropriateType _ 20 _ => .notDirectory
  | .inappropriateType _ 21 _ => .isDirectory
  | .invalidArgument _ 36 _ => .nameTooLong
  | .permissionDenied _ code _ => .other s!"Permission denied (os error {code})"
  | error => .other (toString error)

/-- What can be read from an open file. -/
def readAll (handle : IO.FS.Handle) : IO Source := do
  try
    return .ofBytes (← handle.readBinToEnd).toList
  catch error => return ⟨[], .failure (fileError error).message⟩

/-- The files of the system. -/
instance systemFiles : Files IO where
  read path := do
    try
      return .ok (← readAll (← IO.FS.Handle.mk (Utf8.text path) .read))
    catch error => return .error (fileError error)
  write path bytes := do
    try
      IO.FS.writeBinFile (Utf8.text path) ⟨bytes.toArray⟩
      return .ok ()
    catch error => return .error (fileError error)

end Midl.Command

/-- Runs the command, with colour if its messages go to a terminal. -/
def main (args : List String) : IO UInt32 := do
  let stderr ← IO.getStderr
  let kit := Midl.Command.terminal (← stderr.isTty)
  let report ← Midl.Command.run (m := IO) kit (args.map Midl.Utf8.bytes)
  IO.print report.stdout
  stderr.putStr report.stderr
  return report.exitCode.toUInt32
