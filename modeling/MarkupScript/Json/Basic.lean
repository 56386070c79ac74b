import MarkupScript.Number.Text
import MarkupScript.Text.Shown

/-!
# JSON documents

A tree of a program is handed on as a JSON document, and the options of a compilation are read from
one. The members of an object keep the order they were given in.
-/

namespace MarkupScript

/-- A JSON document. -/
inductive Json where
  | null
  | bool (value : Bool)
  /-- A count or a position. -/
  | natural (value : Nat)
  /-- A number of a program. -/
  | number (value : Double)
  | string (value : String)
  | array (items : List Json)
  | object (members : List (String × Json))
  deriving Inhabited

namespace Json

/-- The value of a member, if the document is an object that has it. -/
def member? (key : String) : Json → Option Json
  | object members => members.lookup key
  | _ => none

/-- The document of a value that may be missing. -/
def ofOption (f : α → Json) : Option α → Json
  | none => null
  | some a => f a

/-- An object whose first member tells what it describes. -/
def tagged (type : String) (members : List (String × Json)) : Json :=
  object (("type", string type) :: members)

/-! ### Text

A document is written over several lines, two spaces for each level. -/

/-- One character of a string. Controls below the space are escaped. -/
def escapeChar (c : Char) : String :=
  match c with
  | '"' => "\\\""
  | '\\' => "\\\\"
  | '\n' => "\\n"
  | '\r' => "\\r"
  | '\t' => "\\t"
  | '\x08' => "\\b"
  | '\x0c' => "\\f"
  | c =>
    if c.toNat < 0x20 then
      "\\u00" ++ (if c.toNat < 0x10 then "0" else "") ++ Text.hexadecimal c.toNat
    else c.toString

/-- A string between quotes. -/
def stringText (s : String) : String :=
  "\"" ++ String.join (s.toList.map escapeChar) ++ "\""

/-- A line end and the spaces of a level. -/
def newLine (level : Nat) : String := "\n" ++ String.ofList (List.replicate (2 * level) ' ')

mutual

/-- The text of a document that starts at some level. -/
def pretty (level : Nat) : Json → String
  | null => "null"
  | bool value => if value then "true" else "false"
  | natural value => toString value
  | number value => value.json?.getD "null"
  | string value => stringText value
  | array [] => "[]"
  | array (item :: rest) =>
    "[" ++ newLine (level + 1) ++ pretty (level + 1) item ++ prettyItems (level + 1) rest ++
      newLine level ++ "]"
  | object [] => "\x7b\x7d"
  | object ((key, value) :: rest) =>
    "\x7b" ++ newLine (level + 1) ++ stringText key ++ ": " ++ pretty (level + 1) value ++
      prettyMembers (level + 1) rest ++ newLine level ++ "\x7d"

/-- The items of an array behind the first. -/
def prettyItems (level : Nat) : List Json → String
  | [] => ""
  | item :: rest => "," ++ newLine level ++ pretty level item ++ prettyItems level rest

/-- The members of an object behind the first. -/
def prettyMembers (level : Nat) : List (String × Json) → String
  | [] => ""
  | (key, value) :: rest =>
    "," ++ newLine level ++ stringText key ++ ": " ++ pretty level value ++
      prettyMembers level rest

end

end Json

end MarkupScript
