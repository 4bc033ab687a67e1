import EntityGraph.Value.Display

/-!
# Errors of schemas

Why a declaration, a schema or a schema document is refused. An error carries the names it is
about, which may be any values; its message shows them inside a sentence, which fails where a name
has no text. A `Report` is an error together with its message.
-/

namespace EntityGraph

/-- What is wrong with a declaration, a schema or a document. -/
inductive SchemaError
  /-- Any failure, with a code and details of its own. -/
  | general (text code : String) (details : List (String × Value))
  /-- Any failure of a schema, with a code and details of its own. -/
  | schema (text code : String) (details : List (String × Value))
  /-- The default of an attribute is not of its type, or outside of its range for a reason. -/
  | typeMismatch (attr : Value) (type valueType reason : String)
  /-- Two properties of an entity have one name. -/
  | duplicateProperty (entity property : Value)
  /-- Two entities have one name. -/
  | duplicateEntity (entity : Value)
  /-- A relationship leads to no entity of the schema. -/
  | unknownDestination (entity relationship destination : Value)
  /-- A relationship names an inverse that is no relationship of its destination. -/
  | unknownInverse (entity relationship inverse destination : Value)
  /-- A relationship linked to one inverse was to be linked to another. -/
  | conflictingInverse (entity relationship existing requested : Value)
  /-- A uniqueness constraint names no attribute. -/
  | unknownUnique (entity attr : Value)
  /-- The default of an attribute refuses to be copied. -/
  | uncopyableDefault (entity attr : Value) (reason : String)
  /-- A relationship was to be fixed before it had a destination. -/
  | unresolved (entity relationship : Value)
  /-- A schema has no text. -/
  | unserializable (name : Value) (reason : String)
  /-- A schema has findings where none are allowed. -/
  | inconsistent (name : Value) (findings : List String)
  /-- A document is malformed, at a path if there is one. -/
  | format (text : String) (path : Option String)

namespace SchemaError

/-- The code of an error. -/
def code : SchemaError → String
  | general _ code _ => if code = "" then "ENTMODEL_ERROR" else code
  | schema _ code _ => if code = "" then "SCHEMA_ERROR" else code
  | typeMismatch .. => "TYPE_MISMATCH"
  | duplicateProperty .. => "DUPLICATE_PROPERTY"
  | duplicateEntity .. => "DUPLICATE_ENTITY"
  | unknownDestination .. => "UNKNOWN_DESTINATION_ENTITY"
  | unknownInverse .. => "UNKNOWN_INVERSE_RELATIONSHIP"
  | conflictingInverse .. => "CONFLICTING_INVERSE"
  | unknownUnique .. => "UNKNOWN_UNIQUE_ATTRIBUTE"
  | uncopyableDefault .. => "UNCOPYABLE_DEFAULT"
  | unresolved .. => "UNRESOLVED_RELATIONSHIP"
  | unserializable .. => "UNSERIALIZABLE_SCHEMA"
  | inconsistent .. => "INCONSISTENT_SCHEMA"
  | format .. => "SCHEMA_FORMAT"

/-- What an error is about, by name. -/
def details : SchemaError → List (String × Value)
  | general _ _ details | schema _ _ details => details
  | typeMismatch attr type valueType _ =>
    [("attribute", attr), ("scalar_type", .text type), ("value_type", .text valueType)]
  | duplicateProperty entity property => [("entity", entity), ("property", property)]
  | duplicateEntity entity => [("entity", entity)]
  | unknownDestination entity relationship destination =>
    [("entity", entity), ("relationship", relationship), ("destination", destination)]
  | unknownInverse entity relationship inverse destination =>
    [("entity", entity), ("relationship", relationship), ("inverse", inverse),
      ("destination", destination)]
  | conflictingInverse entity relationship existing requested =>
    [("entity", entity), ("relationship", relationship), ("existing", existing),
      ("requested", requested)]
  | unknownUnique entity attr | uncopyableDefault entity attr _ =>
    [("entity", entity), ("attribute", attr)]
  | unresolved entity relationship => [("entity", entity), ("relationship", relationship)]
  | unserializable .. => []
  | inconsistent _ findings => [("findings", .list (findings.map .text))]
  | format _ path => [("path", path.elim .null .text)]

/-- The texts of an entity and of one of its properties, joined by a dot. -/
def memberText (entity property : Value) : Except Fault String := do
  let owner ← entity.display
  let name ← property.display
  return owner ++ "." ++ name

/-- The message of an error. -/
def message : SchemaError → Except Fault String
  | general text .. | schema text .. => .ok text
  | typeMismatch attr type valueType reason => do
    let name ← attr.display
    return "Default value for attribute '" ++ name ++ "' does not match type '" ++ type ++
      "': got " ++ valueType ++ (if reason = "" then "" else " (" ++ reason ++ ")")
  | duplicateProperty entity property => do
    let name ← property.display
    let owner ← entity.display
    return "Duplicate property '" ++ name ++ "' in entity '" ++ owner ++ "'"
  | duplicateEntity entity => do
    return "Duplicate entity '" ++ (← entity.display) ++ "'"
  | unknownDestination entity relationship destination => do
    let member ← memberText entity relationship
    return "Relationship '" ++ member ++ "' references unknown destination entity '" ++
      (← destination.display) ++ "'"
  | unknownInverse entity relationship inverse destination => do
    let member ← memberText entity relationship
    let name ← inverse.display
    let place ← if destination.truthy then
        destination.display.map fun shown ↦ " on entity '" ++ shown ++ "'"
      else .ok ""
    return "Relationship '" ++ member ++ "' references unknown inverse relationship '" ++ name ++
      "'" ++ place
  | conflictingInverse entity relationship existing requested => do
    let member ← memberText entity relationship
    let clash ← if existing.truthy && requested.truthy then do
        let linked ← existing.display
        let wanted ← requested.display
        pure (": already linked to '" ++ linked ++ "', cannot link to '" ++ wanted ++ "'")
      else .ok ""
    return "Conflicting inverse for relationship '" ++ member ++ "'" ++ clash
  | unknownUnique entity attr => do
    let owner ← entity.display
    let name ← attr.display
    return "Uniqueness constraint on entity '" ++ owner ++ "' references unknown attribute '" ++
      name ++ "'"
  | uncopyableDefault entity attr reason => do
    let member ← memberText entity attr
    return "Default value for attribute '" ++ member ++ "' cannot be copied: " ++ reason
  | unresolved entity relationship => do
    let member ← memberText entity relationship
    return "Relationship '" ++ member ++ "' was not resolved"
  | unserializable name reason => do
    return "Schema '" ++ (← name.display) ++ "' cannot be serialized: " ++ reason
  | inconsistent name findings => do
    return "Schema '" ++ (← name.display) ++ "' failed consistency checks: " ++
      "; ".intercalate findings
  | format text path =>
    match path with
    | none | some "" => .ok text
    | some path => .ok (path ++ ": " ++ text)

end SchemaError

/-- An error together with its message. -/
structure Report where
  error : SchemaError
  text : String
  text_eq : error.message = .ok text

end EntityGraph
