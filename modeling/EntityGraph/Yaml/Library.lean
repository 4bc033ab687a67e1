import EntityGraph.Value.Fault
import EntityGraph.Value.Basic

/-!
# YAML libraries

What the readers and writers of schema documents ask of a library for YAML: to write a value, and to
read the value of a text with the safe half of the language, which knows no objects of classes.
-/

namespace EntityGraph.Yaml

/-- Why a library does not read a text. -/
inductive Rejection
  /-- The text is no document, in the words of the library. -/
  | refused (words : String)
  /-- Reading ends in a fault that is none of the library's own. -/
  | broken (m : Mishap)
  deriving DecidableEq, Repr

/-- A library that writes and reads YAML texts. -/
structure Library where
  write : Value → Except Fault String
  read : String → Except Rejection Value

end EntityGraph.Yaml
