import DeferredCalls.Config.ConfigError

/-!
# Files at paths

A path is followed component by component, from the working folder or, if it begins with a slash,
from the root. An empty component and `.` stay where they are, `..` leads to the folder above, and
every other component leads to the file of that name. Only the working folder holds files, and
nothing lies beyond a file: a path that goes on after one, be it with a slash alone, is refused.
-/

namespace DeferredCalls

/-- The files of the working folder, by their names. -/
structure Folder where
  files : List (String × ByteArray) := []

/-- What a path leads to. -/
inductive Place
  | workingFolder
  /-- Any other folder. It holds no file. -/
  | otherFolder
  | file (content : ByteArray)

/-- The greatest number of bytes in a component of a path. -/
def longestName : Nat := 255

/-- The greatest number of bytes in a path. -/
def longestPath : Nat := 4095

/-- The contents of a file as a text. -/
def textOfBytes (content : ByteArray) : Except FileError String :=
  match String.fromUTF8? content with
  | some s => .ok s
  | none => .error .notText

namespace Folder

/-- Writes a file, in the place of the one that had its name. -/
def write (folder : Folder) (name : String) (content : ByteArray) : Folder :=
  { files := (name, content) :: folder.files }

/-- The file of a name. -/
def file? (folder : Folder) (name : String) : Option ByteArray :=
  folder.files.lookup name

/-- Follows one component of a path. -/
def follow (folder : Folder) (place : Place) (component : String) : Except FileError Place :=
  match place with
  | .file _ => .error .notDirectory
  | _ =>
    if component = "" ∨ component = "." then .ok place
    else if component = ".." then .ok .otherFolder
    else if longestName < component.utf8ByteSize then .error .nameTooLong
    else match place, folder.file? component with
      | .workingFolder, some content => .ok (.file content)
      | _, _ => .error .notFound

/-- What a path leads to. -/
def resolve (folder : Folder) (path : String) : Except FileError Place :=
  if '\x00' ∈ path.toList then .error .nulInName
  else if path = "" then .error .notFound
  else if longestPath < path.utf8ByteSize then .error .nameTooLong
  else
    let start : Place := if path.startsWith "/" then .otherFolder else .workingFolder
    (path.splitOn "/").foldlM folder.follow start

/-- The text of the file at a path. -/
def readText (folder : Folder) (path : String) : Except FileError String :=
  match folder.resolve path with
  | .error e => .error e
  | .ok (.file content) => textOfBytes content
  | .ok _ => .error .isDirectory

@[simp] theorem file?_write_self (folder : Folder) (name : String) (content : ByteArray) :
    (folder.write name content).file? name = some content :=
  List.lookup_cons_self

theorem file?_write_of_ne (folder : Folder) {name other : String} (content : ByteArray)
    (h : other ≠ name) : (folder.write name content).file? other = folder.file? other := by
  rw [file?, write, List.lookup_cons, beq_false_of_ne h]
  rfl

/-- Nothing lies beyond a file. -/
@[simp] theorem follow_file (folder : Folder) (content : ByteArray) (component : String) :
    folder.follow (.file content) component = .error .notDirectory := rfl

end Folder

end DeferredCalls
