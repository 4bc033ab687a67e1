/-!
# Scalar types and delete rules

The types that an attribute can have and what can happen to related records when a record is
deleted. Both are known to documents by their tags.
-/

namespace EntityGraph

/-- The types of attributes. -/
inductive ScalarType
  | string
  | int16
  | int32
  | int64
  | decimal
  | double
  | float
  | boolean
  | date
  | binary
  | transformable
  | uuid
  | uri
  | objectReference
  deriving DecidableEq, Repr

namespace ScalarType

/-- The tag of a type. -/
def tag : ScalarType → String
  | string => "string"
  | int16 => "int16"
  | int32 => "int32"
  | int64 => "int64"
  | decimal => "decimal"
  | double => "double"
  | float => "float"
  | boolean => "boolean"
  | date => "date"
  | binary => "binary"
  | transformable => "transformable"
  | uuid => "uuid"
  | uri => "uri"
  | objectReference => "object_reference"

/-- Every type, in the order in which they are listed. -/
def all : List ScalarType :=
  [string, int16, int32, int64, decimal, double, float, boolean, date, binary, transformable,
    uuid, uri, objectReference]

/-- The type with a tag. -/
def ofTag? (tag : String) : Option ScalarType := all.find? (·.tag = tag)

/-- Whether defaults of a type are kept without looking at them. -/
def isOpaque : ScalarType → Bool
  | transformable | objectReference => true
  | _ => false

/-- The number of bits of an integer type. -/
def bits? : ScalarType → Option Nat
  | int16 => some 16
  | int32 => some 32
  | int64 => some 64
  | _ => none

/-- Every type is listed. -/
theorem mem_all (t : ScalarType) : t ∈ all := by cases t <;> decide

/-- A tag names the type it is the tag of. -/
@[simp] theorem ofTag?_tag (t : ScalarType) : ofTag? t.tag = some t := by cases t <;> decide

end ScalarType

/-- What happens to the related records of a record that is deleted. -/
inductive DeleteRule
  | nullify
  | cascade
  | deny
  | noAction
  deriving DecidableEq, Repr

namespace DeleteRule

/-- The tag of a rule. -/
def tag : DeleteRule → String
  | nullify => "nullify"
  | cascade => "cascade"
  | deny => "deny"
  | noAction => "no_action"

/-- Every rule, in the order in which they are listed. -/
def all : List DeleteRule := [nullify, cascade, deny, noAction]

/-- The rule with a tag. -/
def ofTag? (tag : String) : Option DeleteRule := all.find? (·.tag = tag)

/-- Every rule is listed. -/
theorem mem_all (r : DeleteRule) : r ∈ all := by cases r <;> decide

/-- A tag names the rule it is the tag of. -/
@[simp] theorem ofTag?_tag (r : DeleteRule) : ofTag? r.tag = some r := by cases r <;> decide

end DeleteRule

end EntityGraph
