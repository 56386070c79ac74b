import MarkupScript.CommandLine.Run

/-!
# The program

The command line on the files of the machine.
-/

namespace MarkupScript.CommandLine

/-- Whether an error of the system has the given number. Some calls report it negated. -/
def hasNumber (code number : UInt32) : Bool := code == number || code == 0 - number

/-- The error that the system reported. -/
def FileError.ofSystem : IO.Error → FileError
  | .noFileOrDirectory _ _ _ => .notFound
  | .inappropriateType _ code message =>
    if hasNumber code 20 then .notDirectory
    else if hasNumber code 21 then .isDirectory
    else .other message
  | .invalidArgument _ code message =>
    if hasNumber code 36 then .nameTooLong else .other message
  | e => .other (toString e)

/-- The files of the machine. -/
def systemAccess : FileAccess IO where
  read path := do
    try
      let content ← IO.FS.readBinFile path
      match String.fromUTF8? content with
      | some source => return some (.ok source)
      | none => return some (.error .notText)
    catch e =>
      match FileError.ofSystem e with
      | .notFound | .notDirectory | .nameTooLong => return none
      | e => return some (.error e)
  write path content := do
    try
      IO.FS.writeFile path content
      return .ok ()
    catch e => return .error (.ofSystem e)

end MarkupScript.CommandLine

open MarkupScript.CommandLine in
/-- Runs the command line. -/
def main (arguments : List String) : IO UInt32 := do
  let outcome ← run systemAccess arguments
  IO.print outcome.stdout
  IO.eprint outcome.stderr
  return outcome.exitCode.toUInt32
