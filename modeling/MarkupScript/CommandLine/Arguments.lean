import MarkupScript.CommandLine.Command
import MarkupScript.Template.Lower

/-!
# Reading arguments

The arguments name a command, then give its file and its flags in any order. A flag has two dashes
and a name, or one dash and a letter; its value follows behind `=` or as the next argument, behind
a letter also at once. What starts with a dash is a flag, until `--` says that no more flags come.
No flag and no file may be given twice.
-/

namespace MarkupScript.CommandLine

/-- What the arguments ask for. -/
inductive Request where
  | build (path : String) (out : Option String) (options : Options)
  | check (path : String) (options : Options)
  | ast (path : String) (attach : Bool)
  /-- A text to show, such as an explanation. -/
  | inform (text : String)
  /-- The arguments make no sense. -/
  | misuse

/-- Why the arguments of a command are not read to their end. -/
inductive Stop where
  /-- An explanation of the command is asked for. -/
  | help
  | misuse

/-- The arguments of a command that were read so far. -/
structure Given where
  /-- The file. -/
  path : Option String := none
  /-- The flags by name, with their values; the value of a plain flag is empty. -/
  flags : List (String × String) := []

namespace Given

/-- The value that was given for a flag. -/
def value? (g : Given) (f : Flag) : Option String := g.flags.lookup f.long

/-- Whether a flag was given. -/
def has (g : Given) (f : Flag) : Bool := (g.value? f).isSome

/-- Adds a flag with its value. Asking for an explanation ends the reading. -/
def add (g : Given) (f : Flag) (value : String) : Except Stop Given :=
  if f.long = Flag.help.long then .error .help
  else if g.has f then .error .misuse
  else if value = "" ∧ ¬f.mayBeEmpty then .error .misuse
  else .ok { g with flags := (f.long, value) :: g.flags }

/-- Adds the file. -/
def addPath (g : Given) (path : String) : Except Stop Given :=
  match g.path with
  | none => .ok { g with path := some path }
  | some _ => .error .misuse

end Given

/-- What an argument is. -/
inductive Argument where
  /-- `--` -/
  | endOfFlags
  /-- A flag by its name, with a value behind `=` or without. -/
  | long (name : String) (value : Option String)
  /-- Flags by their letters, and what follows the first of them. -/
  | short (letter : Char) (rest : List Char)
  /-- Anything else. -/
  | plain (text : String)

/-- Tells what an argument is. A single dash is no flag. -/
def Argument.ofString (text : String) : Argument :=
  match text.toList with
  | ['-', '-'] => .endOfFlags
  | '-' :: '-' :: cs =>
    let name := cs.takeWhile (· != '=')
    match cs.drop name.length with
    | _ :: value => .long (String.ofList name) (some (String.ofList value))
    | [] => .long (String.ofList name) none
  | '-' :: c :: cs => .short c cs
  | _ => .plain text

section

variable (flags : List Flag)

/-- Reads flags by their letters. The answer has the flag that still needs a value, if one does. -/
def readLetters (g : Given) (letter : Char) (rest : List Char) :
    Except Stop (Given × Option Flag) := do
  match flags.find? (·.short = some letter) with
  | none => .error .misuse
  | some f =>
    if f.value.isSome then
      match rest with
      | [] => return (g, some f)
      | '=' :: value => return (← g.add f (String.ofList value), none)
      | value => return (← g.add f (String.ofList value), none)
    else
      let g ← g.add f ""
      match rest with
      | [] => return (g, none)
      | letter :: rest => readLetters g letter rest
termination_by structural rest

/-- Reads a flag by its name. The answer has the flag if it still needs a value. -/
def readLong (g : Given) (name : String) (value : Option String) :
    Except Stop (Given × Option Flag) := do
  match flags.find? (·.long = name) with
  | none => .error .misuse
  | some f =>
    match f.value, value with
    | some _, some value => return (← g.add f value, none)
    | some _, none => return (g, some f)
    | none, some _ => .error .misuse
    | none, none => return (← g.add f "", none)

/-- Reads the arguments of a command. If `waiting` is a flag, the next argument is its value. -/
def readArguments (g : Given) (waiting : Option Flag) : List String → Except Stop Given
  | [] => if waiting.isSome then .error .misuse else .ok g
  | text :: rest => do
    match Argument.ofString text, waiting with
    | .plain value, some f => readArguments (← g.add f value) none rest
    | .plain path, none => readArguments (← g.addPath path) none rest
    | _, some _ => .error .misuse
    | .endOfFlags, none => rest.foldlM Given.addPath g
    | .long name value, none =>
      let (g, waiting) ← readLong flags g name value
      readArguments g waiting rest
    | .short letter letters, none =>
      let (g, waiting) ← readLetters flags g letter letters
      readArguments g waiting rest

end

/-- The options that were given. -/
def Given.options (g : Given) : Options :=
  let defaults : Options := {}
  { runtimeModule := (g.value? .runtime).getD defaults.runtimeModule
    renderContext := (g.value? .context).getD defaults.renderContext
    denyWarnings := g.has .denyWarnings }

/-- Reads the arguments of a command and makes a request of them, for which a file is needed. -/
def Command.request (c : Command) (make : String → Given → Request) (arguments : List String) :
    Request :=
  match readArguments c.flags {} none arguments with
  | .error .help => .inform c.help
  | .error .misuse => .misuse
  | .ok g =>
    match g.path with
    | none => .misuse
    | some path => make path g

/-- What the command that explains commands shows. -/
def explain : List String → Request
  | [] => .inform programHelp
  | [name] =>
    if name = "help" then .inform helpHelp
    else match Command.all.find? (·.name = name) with
      | some c => .inform c.help
      | none => .misuse
  | _ => .misuse

/-- What the flags of the program itself show. The first of them decides. -/
def programFlag (text : String) : Request :=
  match Argument.ofString text with
  | .long name none => informing (Flag.long · = name)
  | .short letter _ => informing (Flag.short · = some letter)
  | _ => .misuse
where
  /-- What the first flag with a property shows. -/
  informing (p : Flag → Bool) : Request :=
    if p .help then .inform programHelp
    else if p .version then .inform versionText
    else .misuse

/-- What all arguments of the program ask for. -/
def Request.ofArguments : List String → Request
  | [] => .misuse
  | name :: rest =>
    if name = Command.build.name then
      Command.build.request (fun path g => .build path (g.value? .out) g.options) rest
    else if name = Command.check.name then
      Command.check.request (fun path g => .check path g.options) rest
    else if name = Command.ast.name then
      Command.ast.request (fun path g => .ast path (g.has .attach)) rest
    else if name = "help" then explain rest
    else programFlag name

end MarkupScript.CommandLine
