import EntityGraph.Schema.Build
import EntityGraph.Schema.Model

/-!
# Reading documents

A schema document is a value: a mapping with a name, a version and a list of entities, each of
which holds its attributes and relationships as a list of properties. Reading checks the form and
declares what the document says. An error of form says where in the document it is.
-/

namespace EntityGraph.Document

/-- Fails because the document is malformed at a path. -/
def refuse {α : Type} (path : String) (text : String) : Except Failure α :=
  (SchemaError.format text (some path)).raise

/-- A result whose failure, where it is about a value that cannot be used, is reported as an error
of form at a path. -/
def located {α : Type} (path : String) : Except Failure α → Except Failure α
  | .ok a => .ok a
  | .error e => if e.kind? = some .value then refuse path e.message else .error e

/-- Checks that a value is a mapping. -/
def checkMapping (path : String) (v : Value) : Except Failure Unit :=
  match v with
  | .dict .. => .ok ()
  | _ => refuse path ("expected a mapping, got " ++ v.typeName)

/-- The value under a key, which must be neither absent nor the empty text. -/
def require (path key : String) (v : Value) : Except Failure Value :=
  let value := v.get key
  if value.among [.null, .text ""] then refuse path ("'" ++ key ++ "' is required") else .ok value

/-- The truth value under a key, or a default where there is none. -/
def flag (path key : String) (default : Bool) (v : Value) : Except Failure Bool :=
  match v.get? key with
  | none => .ok default
  | some value =>
    match value.bool? with
    | some b => .ok b
    | none => do
      let shown ← value.inspect
      refuse path ("'" ++ key ++ "' must be true or false, got " ++ shown)

/-- The attribute that a mapping declares. -/
def readAttribute (path : String) (v : Value) : Except Failure AttributeDecl := do
  checkMapping path v
  let name ← require path "name" v
  let tag ← require path "type" v
  let type ← located path (ScalarType.read tag)
  let default ← located path (type.decode (v.get "default"))
  let isOptional ← flag path "optional" true v
  let externalStorage ← flag path "external_storage" false v
  let preservedOnDelete ← flag path "preserve_on_delete" false v
  AttributeDecl.make name type { isOptional, default, externalStorage, preservedOnDelete }

/-- The relationship that a mapping declares. -/
def readRelationship (path : String) (v : Value) : Except Failure RelationshipDecl := do
  checkMapping path v
  let deleteRule ← located path
    (DeleteRule.read ((v.get? "delete_rule").getD (.text DeleteRule.nullify.tag)))
  let name ← require path "name" v
  let destination ← require path "destination" v
  let isToMany ← flag path "to_many" false v
  let isOptional ← flag path "optional" true v
  let inverse := v.get "inverse"
  RelationshipDecl.make name destination { isToMany, isOptional, deleteRule, inverse }

/-- The one entry of a mapping that has no other, if its key is a text. -/
def onlyEntry? : Value → Option (String × Value)
  | v@(.dict _ [(k, part)]) => k.text?.map fun key ↦ (key, v.takeOut part)
  | _ => none

/-- The attribute or the relationship that a mapping holds. -/
def readProperty (path : String) (v : Value) : Except Failure Component := do
  checkMapping path v
  match onlyEntry? v with
  | some ("attribute", inner) => (readAttribute (path ++ ".attribute") inner).map .attr
  | some ("relationship", inner) => (readRelationship (path ++ ".relationship") inner).map .rel
  | _ => refuse path "property must hold exactly one of 'attribute' or 'relationship'"

/-- The path of a member of a list. -/
def memberPath (path : String) (i : Nat) : String :=
  path ++ "[" ++ String.ofList (Text.decimal i) ++ "]"

/-- The properties that values hold, from a place of their list on. -/
def readProperties (path : String) (i : Nat) : List Value → Except Failure Properties
  | [] => .ok ⟨[], []⟩
  | v :: vs => do
    let property ← readProperty (memberPath (path ++ ".properties") i) v
    let rest ← readProperties path (i + 1) vs
    match property with
    | .attr a => return { rest with attributes := a :: rest.attributes }
    | .rel r => return { rest with relationships := r :: rest.relationships }
    | .other _ => return rest

/-- The members of the value under a key; none where it does not count as true. -/
def members (key : String) (v : Value) : Except Fault (List Value) :=
  let value := v.get key
  if value.truthy then value.items else .ok []

/-- The entity that a mapping declares. -/
def readEntity (path : String) (v : Value) : Except Failure EntityDecl := do
  checkMapping path v
  let name ← require path "name" v
  let properties ← readProperties path 0 (← members "properties" v)
  let isAbstract ← flag path "abstract" false v
  let unique ← members "unique" v
  EntityDecl.make name properties.attributes properties.relationships isAbstract
    (v.get "bound_type") unique

/-- The entities that values declare, from a place of their list on. -/
def readEntities (i : Nat) : List Value → Except Failure (List EntityDecl)
  | [] => .ok []
  | v :: vs => do
    let entity ← readEntity (memberPath "entities" i) v
    let rest ← readEntities (i + 1) vs
    return entity :: rest

/-- The version of a document: an integer above zero. -/
def readVersion (v : Value) : Except Failure Value :=
  let version := (v.get? "version").getD Model.defaultVersion
  match version.int? with
  | some (.ofNat (_ + 1)) => .ok version
  | _ => do
    let shown ← version.inspect
    (SchemaError.format ("version must be a positive integer, got " ++ shown) none).raise

/-- The model that a document declares. -/
def read (v : Value) : Except Failure Model := do
  checkMapping "schema" v
  let entities ← readEntities 0 (← members "entities" v)
  let version ← readVersion v
  Model.make ((v.get? "name").getD Model.defaultName) version (entities.map .entity)

end EntityGraph.Document
