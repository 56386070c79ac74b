import MarkupScript.Json.Basic
import MarkupScript.Parse.Statement
import MarkupScript.Template.Attach
import MarkupScript.Template.Lower
import MarkupScript.Tree.Print

/-!
# Compiling

A source is parsed, its decorators are attached to functions, its template functions are lowered,
and the result is printed. A decorator that no function follows gives a warning.
-/

namespace MarkupScript

/-- A remark on a source that does not keep it from being compiled. -/
structure Warning where
  message : String
  line : Nat
  column : Nat
  deriving DecidableEq

namespace Warning

/-- The warning about a decorator that no function follows. -/
def ofDropped (d : Decorator) : Warning where
  message :=
    "Decorator @" ++ d.name ++ " is not followed by a function declaration and was ignored"
  line := d.span.line
  column := d.span.column

/-- The full text of a warning. -/
def text (w : Warning) : String :=
  "Warning at line " ++ toString w.line ++ ", column " ++ toString w.column ++ ": " ++ w.message

end Warning

/-- The result of a compilation. -/
structure Compiled where
  /-- The printed program. -/
  code : String
  /-- The program that was printed. -/
  program : Program
  warnings : List Warning

/-- Why a source was not compiled. -/
inductive CompileError where
  | parse (error : ParseError)
  | lower (error : LowerError)
  /-- There are warnings, and they are errors. -/
  | warnings (warnings : List Warning)

/-- The full message. -/
def CompileError.message : CompileError → String
  | parse e => e.message
  | lower e => e.message
  | warnings ws => toString ws.length ++ " warning(s) treated as errors"

/-- Compiles a source. -/
def compile (source : String) (options : Options) : Except CompileError Compiled := do
  let parsed ← (parse source).mapError .parse
  let attached := parsed.attachDecorators
  let warnings := attached.dropped.map Warning.ofDropped
  if options.denyWarnings && !warnings.isEmpty then
    throw (.warnings warnings)
  let lowered ← (attached.program.lowerTemplates options).mapError .lower
  return ⟨lowered.print, lowered, warnings⟩

/-! ### Options as a document -/

namespace Options

/-- The text that a value of a document is, or the default if the value is missing; nothing if the
value is no text. -/
def text? (fallback : String) : Option Json → Option String
  | none => some fallback
  | some (.string value) => some value
  | some _ => none

/-- The truth value that a value of a document is, with a default likewise. -/
def bool? (fallback : Bool) : Option Json → Option Bool
  | none => some fallback
  | some (.bool value) => some value
  | some _ => none

/-- Reads options from the values given for them, where any may be missing. -/
def ofValues? (runtimeModule renderContext denyWarnings : Option Json) : Option Options := do
  let defaults : Options := {}
  return {
    runtimeModule := ← text? defaults.runtimeModule runtimeModule
    renderContext := ← text? defaults.renderContext renderContext
    denyWarnings := ← bool? defaults.denyWarnings denyWarnings }

/-- Reads options from a document. An object gives them by name, and unknown names do not matter. A
list gives them in order and may stop early, but has nothing behind them. -/
def ofJson? (document : Json) : Option Options :=
  match document with
  | .object _ =>
    ofValues? (document.member? "runtimeModule") (document.member? "renderContext")
      (document.member? "denyWarnings")
  | .array values =>
    if values.length ≤ 3 then ofValues? values[0]? values[1]? values[2]? else none
  | _ => none

end Options

end MarkupScript
