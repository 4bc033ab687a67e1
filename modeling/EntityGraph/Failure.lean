import EntityGraph.Document.FileFault
import EntityGraph.Schema.Error
import EntityGraph.Schema.Scalar

/-!
# Failures

How a function of this library fails: a value was misused, an argument is refused, a document holds
what no value can be, a file cannot be read, or an error of the schema is reported.
-/

namespace EntityGraph

open EntityGraph.Text

/-- Why an argument is refused. The names in it are shown already. -/
inductive Refusal
  | unknownScalarType (shown : String)
  | unknownDeleteRule (shown : String)
  | namelessAttribute
  | namelessRelationship
  | namelessEntity
  | noDestination (relationship : String)
  /-- A text does not spell a value of a type. -/
  | undecodable (text : String) (type : ScalarType) (reason : String)
  /-- A component of an entity is no declaration. -/
  | strangeComponent (entity type : String)
  /-- An entry of a model is no entity. -/
  | strangeEntry (type : String)
  | version (shown : String)
  | noDefaultBoundType
  | logFormat (shown : String)
  /-- A level of logging is a text that names no level. -/
  | unknownLevel (shown : String)
  /-- A level of logging is neither a number nor a text. -/
  | strangeLevel (shown : String)
  /-- A path holds the zero character. -/
  | zeroInPath
  deriving DecidableEq, Repr

namespace Refusal

/-- The kind of a refusal. -/
def kind : Refusal → FaultKind
  | strangeComponent .. | strangeEntry _ | strangeLevel _ => .type
  | _ => .value

/-- The message of a refusal. -/
def message : Refusal → String
  | unknownScalarType shown =>
    "Invalid scalar type '" ++ shown ++ "'. Valid types: " ++
      quotedList (ScalarType.all.map (·.tag))
  | unknownDeleteRule shown =>
    "Invalid delete rule '" ++ shown ++ "'. Valid rules: " ++
      quotedList (DeleteRule.all.map (·.tag))
  | namelessAttribute => "Attribute name cannot be empty"
  | namelessRelationship => "Relationship name cannot be empty"
  | namelessEntity => "Entity name cannot be empty"
  | noDestination relationship => "Relationship '" ++ relationship ++ "' has no destination"
  | undecodable text type reason =>
    "Cannot decode '" ++ text ++ "' as " ++ type.tag ++ ": " ++ reason
  | strangeComponent entity type =>
    "Entity '" ++ entity ++ "' component must be an attribute or relationship, got " ++ type
  | strangeEntry type => "DataModel entries must be EntitySpec, got " ++ type
  | version shown => "version must be positive, got " ++ shown
  | noDefaultBoundType => "default_bound_type_name cannot be empty"
  | logFormat shown => "log_format must be 'text' or 'json', got '" ++ shown ++ "'"
  | unknownLevel shown => "Unknown level: " ++ shown
  | strangeLevel shown => "Level not an integer or a valid string: " ++ shown
  | zeroInPath => "embedded null byte"

end Refusal

/-- How a function fails. -/
inductive Failure
  | fault (f : Fault)
  | refused (r : Refusal)
  /-- Reading a text ends in a fault that is none of its own language. -/
  | unreadable (m : Mishap)
  | file (f : Document.FileFault)
  | reported (r : Report)

namespace Failure

/-- The kind of a failure that is neither reported nor about a file. -/
def kind? : Failure → Option FaultKind
  | fault f => some f.kind
  | refused r => some r.kind
  | unreadable m => some m.kind
  | file _ | reported _ => none

/-- The message of a failure. -/
def message : Failure → String
  | fault f => f.message
  | refused r => r.message
  | unreadable m => m.message
  | file f => f.message
  | reported r => r.text

instance : MonadLift (Except Fault) (Except Failure) where
  monadLift := Except.mapError Failure.fault

/-- A value that is lifted stays the same. -/
@[simp] theorem liftM_ok {α : Type} (a : α) :
    (liftM (.ok a : Except Fault α) : Except Failure α) = .ok a := rfl

/-- A fault that is lifted is a failure. -/
@[simp] theorem liftM_error {α : Type} (f : Fault) :
    (liftM (.error f : Except Fault α) : Except Failure α) = .error (.fault f) := rfl

end Failure

/-- The failure that reports an error; the fault that showing its names meets, if they cannot be
shown. -/
def SchemaError.failure (e : SchemaError) : Failure :=
  match h : e.message with
  | .ok text => .reported ⟨e, text, h⟩
  | .error f => .fault f

/-- Fails with the report of an error. -/
def SchemaError.raise {α : Type} (e : SchemaError) : Except Failure α := .error e.failure

/-- Fails with a refusal. -/
def Refusal.raise {α : Type} (r : Refusal) : Except Failure α := .error (.refused r)

end EntityGraph
