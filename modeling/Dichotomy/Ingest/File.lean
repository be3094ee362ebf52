import Dichotomy.Ingest.Row
import Dichotomy.Text.Line
import Dichotomy.Text.Utf8

/-!
# Table files

A table file is text whose rows, one after the other, give the output column.  The path `-` stands
for the standard input.  Wherever the bytes come from, they may be missing, and they are read
strictly as UTF-8.
-/

namespace Dichotomy

/-- The cells of a table in text form. -/
def cellsOfText (text : String) : Except Fault (List String) := do
  return (← (lines text).mapM Row.cells).flatten

/-- What a command can read from. -/
structure Sources where
  /-- The bytes of a file, by its path. -/
  bytes : String → Except Fault (List Nat)
  /-- The bytes of the standard input. -/
  standardInput : Except Fault (List Nat)

namespace Sources

/-- The text at a path. -/
def textAt (sources : Sources) (path : String) : Except Fault String := do
  let bytes ← if path = "-" then sources.standardInput else sources.bytes path
  match Utf8.decode bytes with
  | .ok text => return text
  | .error damage => throw (.notText damage)

/-- The cells of the table at a path. -/
def cellsAt (sources : Sources) (path : String) : Except Fault (List String) := do
  cellsOfText (← sources.textAt path)

end Sources

/-- Files of one folder that holds no other folder, by name. -/
abbrev Folder := List (String × List Nat)

/-- A place to which a path leads. -/
inductive Place where
  /-- The folder itself. -/
  | folder
  /-- A folder around it, of which nothing is known but that it is there. -/
  | around
  /-- A file of the folder. -/
  | file (bytes : List Nat)

namespace Folder

/-- The greatest number of bytes in a name. -/
def nameLimit : Nat := 255

/-- The greatest number of bytes in a path. -/
def pathLimit : Nat := 4095

/-- Takes one part of a path.  Nothing lies behind a file, not even the file itself; an empty part
    or a dot stays in a folder and two dots leave it. -/
def enter (folder : Folder) (path : String) : Place → String → Except Fault Place
  | .file _, _ => .error (.throughFile path)
  | place, name =>
    if name = "" || name = "." then .ok place
    else if name = ".." then .ok .around
    else if nameLimit < name.utf8ByteSize then .error (.longPath path)
    else
      match place, folder.lookup name with
      | .folder, some bytes => .ok (.file bytes)
      | _, _ => .error (.missingFile path)

/-- The place to which a path leads; a path that begins with a slash starts around the folder. -/
def placeAt (folder : Folder) (path : String) : Except Fault Place :=
  let start := if path.toList.head? = some '/' then Place.around else Place.folder
  (path.splitOn "/").foldlM (folder.enter path) start

/-- The bytes of a file. -/
def bytesAt (folder : Folder) (path : String) : Except Fault (List Nat) :=
  if path.toList.contains '\x00' then .error .nullInPath
  else if path = "" then .error (.missingFile path)
  else if pathLimit < path.utf8ByteSize then .error (.longPath path)
  else do
    match ← folder.placeAt path with
    | .file bytes => return bytes
    | .folder | .around => throw (.directory path)

end Folder

end Dichotomy
