import MarkupScript.CommandLine.Arguments
import MarkupScript.CommandLine.Files
import MarkupScript.Compile
import MarkupScript.Tree.Json

/-!
# Running a command

Each command reads a file, does its work and reports. Warnings and errors go to the error output,
and so does the word that all went well; only trees, explanations and the version go to the
standard output.
-/

namespace MarkupScript.CommandLine

/-- What a run leaves behind, files apart. -/
structure Outcome where
  exitCode : Nat
  stdout : String
  stderr : String

namespace Outcome

/-- Lines of text. -/
def lines (texts : List String) : String := String.join (texts.map (· ++ "\n"))

/-- A run that went well, with lines for the error output. -/
def success (reports : List String) : Outcome := ⟨0, "", lines reports⟩

/-- A run that failed, with lines for the error output. -/
def failure (reports : List String) : Outcome := ⟨1, "", lines reports⟩

/-- A run whose arguments made no sense. -/
def misuse : Outcome := ⟨2, "", "error: invalid arguments\n"⟩

end Outcome

section

variable {m : Type → Type} [Monad m] (files : FileAccess m)

/-- The text of an input file, or the report of a failure. -/
def readSource (path : String) : m (Except String String) := do
  match ← files.read path with
  | none => return .error ("Error: file not found: " ++ path)
  | some (.error e) => return .error ("Error reading " ++ path ++ ": " ++ e.message)
  | some (.ok source) => return .ok source

/-- The reports of warnings on a file. -/
def warningReports (path : String) (warnings : List Warning) : List String :=
  warnings.map fun w => path ++ ": " ++ w.text

/-- The reports of a failed compilation. -/
def errorReports (path : String) : CompileError → List String
  | .warnings ws =>
    warningReports path ws ++ ["Error: " ++ (CompileError.warnings ws).message]
  | e => [path ++ ": " ++ e.message]

/-- Compiles a file. The answer is the result, or the reports of a failure. -/
def compileFile (path : String) (options : Options) : m (Except (List String) Compiled) := do
  match ← readSource files path with
  | .error report => return .error [report]
  | .ok source =>
    match compile source options with
    | .error e => return .error (errorReports path e)
    | .ok compiled => return .ok compiled

/-- Compiles a file and writes the result to another one. -/
def runBuild (path : String) (out : Option String) (options : Options) : m Outcome := do
  match ← compileFile files path options with
  | .error reports => return .failure reports
  | .ok compiled =>
    let warnings := warningReports path compiled.warnings
    let output := out.getD (Path.defaultOutput path)
    if (Path.ofString output).alike (Path.ofString path) then
      return .failure (warnings ++ ["Error: output would overwrite the input file " ++ path])
    match ← files.write output compiled.code with
    | .error e => return .failure (warnings ++ ["Error writing " ++ output ++ ": " ++ e.message])
    | .ok () => return .success (warnings ++ ["Built: " ++ output])

/-- Compiles a file and only reports. -/
def runCheck (path : String) (options : Options) : m Outcome := do
  match ← compileFile files path options with
  | .error reports => return .failure reports
  | .ok compiled => return .success (warningReports path compiled.warnings ++ ["OK: " ++ path])

/-- Prints the tree of a file, with its decorators attached or not. -/
def runAst (path : String) (attach : Bool) : m Outcome := do
  match ← readSource files path with
  | .error report => return .failure [report]
  | .ok source =>
    match parse source with
    | .error e => return .failure [path ++ ": " ++ e.message]
    | .ok p =>
      let attached : Attachment := if attach then p.attachDecorators else ⟨p, []⟩
      let warnings := warningReports path (attached.dropped.map Warning.ofDropped)
      return ⟨0, attached.program.toJson.pretty 0 ++ "\n", Outcome.lines warnings⟩

/-- Does what the arguments ask for. -/
def run (arguments : List String) : m Outcome :=
  match Request.ofArguments arguments with
  | .build path out options => runBuild files path out options
  | .check path options => runCheck files path options
  | .ast path attach => runAst files path attach
  | .inform text => return ⟨0, text, ""⟩
  | .misuse => return .misuse

end

end MarkupScript.CommandLine
