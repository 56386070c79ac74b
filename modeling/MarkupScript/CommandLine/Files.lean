import MarkupScript.CommandLine.Path

/-!
# Files

What the commands need of a file system, and a model of one. In the model, the files of a machine lie
in directories, and every place is named from the root. A path is followed segment by segment, each
from the directory that the segments before it lead to. It starts at the root if it is absolute, and
otherwise in the directory that the machine works in.
-/

namespace MarkupScript.CommandLine

/-- Why a file could not be used. -/
inductive FileError where
  | notFound
  | notDirectory
  | isDirectory
  /-- The path or a name in it exceeds its limit. -/
  | nameTooLong
  /-- The content is no text. -/
  | notText
  /-- Anything else, with a message. -/
  | other (message : String)

/-- What messages say about an error. -/
def FileError.message : FileError → String
  | notFound => "No such file or directory (os error 2)"
  | notDirectory => "Not a directory (os error 20)"
  | isDirectory => "Is a directory (os error 21)"
  | nameTooLong => "File name too long (os error 36)"
  | notText => "stream did not contain valid UTF-8"
  | other message => message

/-- What the commands do with files. -/
structure FileAccess (m : Type → Type) where
  /-- The text of a file; nothing if the path leads nowhere. -/
  read : String → m (Option (Except FileError String))
  /-- Makes a text the content of a file. -/
  write : String → String → m (Except FileError Unit)

/-! ### The model -/

/-- How many bytes a name in a directory may have. -/
def maxNameSize : Nat := 255

/-- How many bytes a whole path may have. -/
def maxPathSize : Nat := 4095

/-- Files in directories, each with the names that lead to it. -/
structure Files where
  contents : List (List String × ByteArray)

namespace Files

/-- The files with another content at a place. -/
def put (fs : Files) (names : List String) (content : ByteArray) : Files :=
  ⟨(names, content) :: fs.contents.filter (·.1 != names)⟩

/-- The files with a file added under a path, whatever directories that needs. -/
def add (fs : Files) (text : String) (content : ByteArray) : Files :=
  fs.put ((Path.ofString text).segments.filter (!Path.isIdle ·)) content

/-- The files with a directory around them. -/
def within (fs : Files) (directory : List String) : Files :=
  ⟨fs.contents.map fun file => (directory ++ file.1, file.2)⟩

/-- The files below a directory, with the names that lead to them from there. -/
def below (fs : Files) (directory : List String) : Files :=
  ⟨fs.contents.filterMap fun file => (directory.isPrefixOf? file.1).map (·, file.2)⟩

end Files

/-- The files of a machine, named from its root, and the directory that it works in. -/
structure Machine where
  files : Files
  directory : List String

/-- What lies at a place. -/
inductive Entry where
  | file (content : ByteArray)
  | directory

namespace Machine

/-- A machine that works in a directory with the given files and has no others. -/
def ofFiles (fs : Files) : Machine := ⟨fs.within ["tmp", "work"], ["tmp", "work"]⟩

instance : Coe Files Machine := ⟨ofFiles⟩

/-- The files in the directory that the machine works in. -/
def contents (m : Machine) : List (List String × ByteArray) := (m.files.below m.directory).contents

/-- The machine with another content at a place. -/
def put (m : Machine) (names : List String) (content : ByteArray) : Machine :=
  { m with files := m.files.put names content }

/-- What lies at a place, if anything. Directories are those on the way to a file, the one that the
machine works in and those it lies in. -/
def entryAt (m : Machine) (names : List String) : Option Entry :=
  if names.isPrefixOf m.directory then some .directory
  else match m.files.contents.lookup names with
    | some content => some (.file content)
    | none => if m.files.contents.any (names.isPrefixOf ·.1) then some .directory else none

/-- Checks that a directory lies at a place. -/
def enter (m : Machine) (names : List String) : Except FileError Unit :=
  match m.entryAt names with
  | none => .error .notFound
  | some (.file _) => .error .notDirectory
  | some .directory => .ok ()

/-- The place that a segment leads to. Above the root is the root. -/
def step (m : Machine) (names : List String) (segment : String) :
    Except FileError (List String) := do
  m.enter names
  if Path.isIdle segment then return names
  if maxNameSize < segment.utf8ByteSize then throw .nameTooLong
  if segment = ".." then return names.dropLast
  return names ++ [segment]

/-- Where a path starts. -/
def origin (m : Machine) (absolute : Bool) : List String := if absolute then [] else m.directory

/-- Takes the text of a path apart, if it can be one at all. -/
def path (text : String) : Except FileError Path :=
  if maxPathSize < text.utf8ByteSize then .error .nameTooLong
  else if text.isEmpty then .error .notFound
  else .ok (Path.ofString text)

/-- The place that a path leads to. -/
def follow (m : Machine) (text : String) : Except FileError (List String) := do
  let p ← path text
  p.segments.foldlM m.step (m.origin p.absolute)

/-- What a path leads to, if it leads anywhere. -/
def find? (m : Machine) (text : String) : Option Entry :=
  match m.follow text with
  | .ok names => m.entryAt names
  | .error _ => none

/-- The text of a file. -/
def read (m : Machine) (text : String) : Option (Except FileError String) :=
  match m.find? text with
  | none => none
  | some .directory => some (.error .isDirectory)
  | some (.file content) =>
    match String.fromUTF8? content with
    | some source => some (.ok source)
    | none => some (.error .notText)

/-- The machine after a text was written to a path. The last segment has to name a file in a
directory that is there. -/
def write (m : Machine) (text content : String) : Except FileError Machine := do
  let p ← path text
  let named := (p.segments.reverse.dropWhile (· = "")).reverse
  match named.getLast? with
  | none => throw .isDirectory
  | some name =>
    let directory ← named.dropLast.foldlM m.step (m.origin p.absolute)
    m.enter directory
    if name = "." ∨ name = ".." ∨ named.length < p.segments.length then throw .isDirectory
    if maxNameSize < name.utf8ByteSize then throw .nameTooLong
    match m.entryAt (directory ++ [name]) with
    | some .directory => throw .isDirectory
    | _ => return m.put (directory ++ [name]) content.toUTF8

end Machine

/-- Access to the files of a machine. -/
def Files.access : FileAccess (StateM Machine) where
  read text := return (← get).read text
  write text content := do
    match (← get).write text content with
    | .ok m =>
      set m
      return .ok ()
    | .error e => return .error e

end MarkupScript.CommandLine
