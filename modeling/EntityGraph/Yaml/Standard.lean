import EntityGraph.Yaml.Library
import EntityGraph.Yaml.Reader
import EntityGraph.Yaml.Writer

/-!
# The library at hand

The YAML library that the tool runs with: the writer and the reader of this project.
-/

namespace EntityGraph.Yaml

/-- Why a text is not read. -/
def Error.rejection : Error → Rejection
  | malformed => .refused "the text is no document"
  | scalar kind text => .broken ⟨kind, text⟩

/-- The library at hand. The number tells the objects of the texts that it reads from others. -/
def standard (number : Nat) : Library where
  write := Yaml.text
  read text := (Yaml.read number text.toList).mapError Error.rejection

end EntityGraph.Yaml
