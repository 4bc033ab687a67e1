/-!
# Paths

Paths as they are written: names between slashes, in which empty names and single dots mean nothing.
-/

namespace EntityGraph.Document

/-- A path: the slashes that root it and the names that it leads through. -/
structure Path where
  root : String
  names : List String
  deriving DecidableEq, Repr

namespace Path

/-- The root that a text starts with. Two slashes are a root of their own, and more are one. -/
def rootOf : List Char → String
  | '/' :: '/' :: '/' :: _ => "/"
  | '/' :: '/' :: _ => "//"
  | '/' :: _ => "/"
  | _ => ""

/-- Whether a name between slashes is a step. -/
def isStep (name : String) : Bool := name ≠ "" && name ≠ "."

/-- The path that a text spells. -/
def ofString (text : String) : Path :=
  ⟨rootOf text.toList, ((text.toList.splitOn '/').map String.ofList).filter isStep⟩

/-- The text of a path; a path that leads nowhere is a dot. -/
def text (p : Path) : String :=
  if p.root = "" && p.names.isEmpty then "." else p.root ++ "/".intercalate p.names

/-- The last name of a path. -/
def name (p : Path) : String := p.names.getLast?.getD ""

/-- The suffix of a name: its last dot and what follows, unless either side of the dot is empty. -/
def suffixOf (name : List Char) : List Char :=
  let back := name.reverse
  let ending := back.takeWhile (· ≠ '.')
  let stem := (back.dropWhile (· ≠ '.')).drop 1
  if ending.isEmpty || stem.isEmpty then [] else '.' :: ending.reverse

/-- The suffix of a path. -/
def suffix (p : Path) : String := String.ofList (suffixOf p.name.toList)

end Path

end EntityGraph.Document
