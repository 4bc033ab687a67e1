import EntityGraph.Document.FileFault
import EntityGraph.Document.Path

/-!
# Folders

The files below a directory, and what reading the file of a path finds. Nothing is known of what
lies outside of the directory but that it is made of directories.
-/

namespace EntityGraph.Document

/-- What a path can lead to. -/
inductive Content
  | directory
  | file (bytes : List UInt8)
  deriving DecidableEq, Repr

/-- The files and directories below a directory, by the names that lead to them. The directories
that lead to an entry need no entries. -/
structure Folder where
  entries : List (List String × Content)

namespace Folder

/-- The greatest number of bytes of a name. -/
def maxName : Nat := 255

/-- The greatest number of bytes of a path. -/
def maxPath : Nat := 4095

/-- What is at the end of a chain of names. -/
def at? (f : Folder) (names : List String) : Option Content :=
  match f.entries.lookup names with
  | some content => some content
  | none =>
    if names.isEmpty || f.entries.any fun (entry, _) ↦ names.isPrefixOf entry then some .directory
    else none

/-- What names lead to from a place, of which `none` is outside of the folder. -/
def follow (f : Folder) (path : String) (place : Option (List String)) :
    List String → Except FileFault (List UInt8)
  | [] =>
    match place.bind f.at? with
    | some (.file bytes) => .ok bytes
    | some .directory => .error (.isDirectory path)
    | none => .error (.isDirectory path)
  | name :: names =>
    if name = ".." then
      f.follow path (place.bind fun p ↦ if p.isEmpty then none else some p.dropLast) names
    else if maxName < name.utf8ByteSize then .error (.tooLong path)
    else
      match place with
      | none => .error (.missing path)
      | some p =>
        match f.at? (p ++ [name]) with
        | none => .error (.missing path)
        | some .directory => f.follow path (some (p ++ [name])) names
        | some (.file bytes) => if names.isEmpty then .ok bytes else .error (.notDirectory path)

/-- The bytes of the file of a path. -/
def read (f : Folder) (path : Path) : Except FileFault (List UInt8) :=
  if maxPath < path.text.utf8ByteSize then .error (.tooLong path.text)
  else f.follow path.text (if path.root = "" then some [] else none) path.names

end Folder

end EntityGraph.Document
