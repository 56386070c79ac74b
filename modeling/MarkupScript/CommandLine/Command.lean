/-!
# The commands

What the command line offers: three commands with their flags, and the texts that explain them.
-/

namespace MarkupScript.CommandLine

/-- A flag of a command. -/
structure Flag where
  /-- The name behind two dashes. -/
  long : String
  /-- The letter behind one dash. -/
  short : Option Char := none
  /-- What explanations call the value of the flag, if it has one. -/
  value : Option String := none
  /-- Whether the value may be empty. -/
  mayBeEmpty : Bool := true
  about : String

/-- A command. -/
structure Command where
  name : String
  about : String
  flags : List Flag

namespace Flag

/-- The output file. -/
def out : Flag where
  long := "out"
  short := some 'o'
  value := some "OUT"
  mayBeEmpty := false
  about := "Output file (defaults to <stem>.js next to the input)"

/-- The module that instructions are imported from. -/
def runtime : Flag where
  long := "runtime"
  value := some "RUNTIME"
  about := "Module the instructions are imported from [default: fw-x]"

/-- The name of the render context. -/
def context : Flag where
  long := "context"
  value := some "CONTEXT"
  about := "Name of the render context parameter [default: $renderContext]"

/-- Warnings are errors. -/
def denyWarnings : Flag where
  long := "deny-warnings"
  about := "Fail on warnings"

/-- Attaches decorators first. -/
def attach : Flag where
  long := "attach"
  about := "Attach decorators to their functions before printing"

/-- Explains a command. -/
def help : Flag where
  long := "help"
  short := some 'h'
  about := "Print help"

/-- Tells the version of the program. -/
def version : Flag where
  long := "version"
  short := some 'V'
  about := "Print version"

/-- How a flag is written, in explanations. -/
def usage (f : Flag) : String :=
  (match f.short with
    | some c => "-" ++ c.toString ++ ", "
    | none => "    ") ++
  "--" ++ f.long ++
  (match f.value with
    | some v => " <" ++ v ++ ">"
    | none => "")

end Flag

namespace Command

/-- Compiles a file. -/
def build : Command where
  name := "build"
  about := "Compile a .jsh file to JavaScript"
  flags := [.out, .runtime, .context, .denyWarnings, .help]

/-- Compiles a file and writes nothing. -/
def check : Command where
  name := "check"
  about := "Check a .jsh file for errors without generating output"
  flags := [.runtime, .context, .denyWarnings, .help]

/-- Prints the tree of a file. -/
def ast : Command where
  name := "ast"
  about := "Print the parsed AST as JSON"
  flags := [.attach, .help]

/-- All commands that work on a file. -/
def all : List Command := [build, check, ast]

end Command

/-! ### Explanations -/

/-- Two columns, the left one as wide as its widest entry. -/
def columns (rows : List (String × String)) : String :=
  let width := (rows.map (·.1.length)).foldl max 0
  String.join (rows.map fun (left, right) =>
    "  " ++ left ++ String.ofList (List.replicate (width - left.length + 2) ' ') ++ right ++ "\n")

/-- The explanation of a list of flags. -/
def flagsHelp (flags : List Flag) : String :=
  "Options:\n" ++ columns (flags.map fun f => (f.usage, f.about))

/-- The explanation of a command that works on a file. -/
def Command.help (c : Command) : String :=
  c.about ++ "\n\nUsage: jsh " ++ c.name ++ " [OPTIONS] <PATH>\n\nArguments:\n" ++
    columns [("<PATH>", "Input .jsh file")] ++ "\n" ++ flagsHelp c.flags

/-- What the command that explains commands is for. -/
def helpAbout : String := "Print this message or the help of the given subcommand(s)"

/-- The explanation of the command that explains commands. -/
def helpHelp : String :=
  helpAbout ++ "\n\nUsage: jsh help [COMMAND]...\n\nArguments:\n" ++
    columns [("[COMMAND]...", "Print help for the subcommand(s)")]

/-- The explanation of the whole program. -/
def programHelp : String :=
  "JSH template compiler: decorated functions to render instructions\n\n" ++
    "Usage: jsh <COMMAND>\n\nCommands:\n" ++
    columns (Command.all.map (fun c => (c.name, c.about)) ++ [("help", helpAbout)]) ++ "\n" ++
    flagsHelp [.help, .version]

/-- The version of the program. -/
def versionText : String := "jsh 0.1.0\n"

end MarkupScript.CommandLine
