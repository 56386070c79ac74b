/-!
# Paths

A path is a text with slashes between its segments. Two paths are alike if they have the same
components: empty segments and `.` do not count, except for a `.` at the very beginning, and `..`
stands for itself. So `d//x` and `d/./x` are alike, and `./x` and `x` are not.
-/

namespace MarkupScript.CommandLine

/-- The segments of a path, which slashes divide. -/
def segments : List Char → List (List Char)
  | [] => [[]]
  | c :: cs =>
    if c = '/' then [] :: segments cs
    else match segments cs with
      | [] => [[c]]
      | s :: rest => (c :: s) :: rest

/-- A path, as its segments and whether it starts from the root. -/
structure Path where
  absolute : Bool
  /-- The segments, without the empty one in front of the first slash of an absolute path. -/
  segments : List String
  deriving DecidableEq

namespace Path

/-- Takes the text of a path apart. -/
def ofString (text : String) : Path :=
  let all := (CommandLine.segments text.toList).map String.ofList
  if text.toList.head? = some '/' then ⟨true, all.drop 1⟩ else ⟨false, all⟩

/-- Whether a segment leads nowhere. -/
def isIdle (segment : String) : Bool := segment = "" || segment = "."

/-- The segments that count. A leading `.` does. -/
def components (p : Path) : List String :=
  match p.absolute, p.segments with
  | false, "." :: rest => "." :: rest.filter (!isIdle ·)
  | _, all => all.filter (!isIdle ·)

/-- Whether two paths have the same components. -/
def alike (p q : Path) : Bool := p.absolute == q.absolute && p.components == q.components

/-- The segments without the idle ones at the end. A leading `.` stays. -/
def trimmed (p : Path) : List String :=
  match p.absolute, p.segments with
  | false, "." :: rest => "." :: dropIdle rest
  | _, all => dropIdle all
where
  /-- Drops the idle segments at the end. -/
  dropIdle (segments : List String) : List String :=
    (segments.reverse.dropWhile isIdle).reverse

/-- The text of a path with the given segments. -/
def text (absolute : Bool) (segments : List String) : String :=
  (if absolute then "/" else "") ++ String.intercalate "/" segments

/-- The part of a file name before its last dot. A dot at the beginning does not count. -/
def stem (name : String) : String :=
  let cs := name.toList
  let front := (cs.reverse.dropWhile (· != '.')).drop 1
  if front.isEmpty then name else String.ofList front.reverse

/-- Where the output for a file goes if nothing else is said: next to the file, under the name of
the file with another ending. -/
def defaultOutput (input : String) : String :=
  let p := ofString input
  let all := p.trimmed
  let directory := text p.absolute (trimmed ⟨p.absolute, all.dropLast⟩)
  let file := (all.getLast?.map stem).getD "out" ++ ".js"
  if directory.isEmpty ∨ directory = "/" then directory ++ file else directory ++ "/" ++ file

end Path

end MarkupScript.CommandLine
