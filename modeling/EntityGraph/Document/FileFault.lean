import EntityGraph.Text.Digits
import EntityGraph.Text.Quoted

/-!
# Failures of files

Why a file cannot be read.
-/

namespace EntityGraph.Document

/-- Why the file at a path cannot be read, as the operating system says it. -/
structure FileFault where
  number : Nat
  words : String
  /-- The path, where opening the file failed. -/
  path : Option String
  deriving DecidableEq, Repr

namespace FileFault

/-- Nothing is at the path. -/
def missing (path : String) : FileFault := ⟨2, "No such file or directory", some path⟩

/-- A part of the path that leads further is no directory. -/
def notDirectory (path : String) : FileFault := ⟨20, "Not a directory", some path⟩

/-- A directory is at the path. -/
def isDirectory (path : String) : FileFault := ⟨21, "Is a directory", some path⟩

/-- The path or one of its names has more bytes than the file system takes. -/
def tooLong (path : String) : FileFault := ⟨36, "File name too long", some path⟩

/-- The message of a failure. -/
def message (f : FileFault) : String :=
  "[Errno " ++ String.ofList (Text.decimal f.number) ++ "] " ++ f.words ++
    (f.path.map fun path ↦ ": " ++ Text.quoted path).getD ""

end FileFault

end EntityGraph.Document
