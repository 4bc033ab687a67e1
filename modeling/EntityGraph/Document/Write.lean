import EntityGraph.Schema.Model

/-!
# Writing documents

The document that declares a model. What is as it would be by default is left out.
-/

namespace EntityGraph

/-- An entry that is written under a condition. -/
def Value.entryIf (condition : Bool) (key : String) (v : Value) : List (String × Value) :=
  if condition then [(key, v)] else []

/-- The document of an attribute. -/
def AttributeDecl.document (a : AttributeDecl) : Except Fault Value := do
  let default ← a.type.encode a.default
  return .record <|
    [("name", a.name), ("type", .text a.type.tag)] ++
    Value.entryIf (!a.isOptional) "optional" (.bool false) ++
    Value.entryIf (!a.default.isNull) "default" default ++
    Value.entryIf a.externalStorage "external_storage" (.bool true) ++
    Value.entryIf a.preservedOnDelete "preserve_on_delete" (.bool true)

/-- The document of a relationship. -/
def RelationshipDecl.document (r : RelationshipDecl) : Value :=
  .record <|
    [("name", r.name), ("destination", r.destination)] ++
    Value.entryIf r.isToMany "to_many" (.bool true) ++
    Value.entryIf (!r.isOptional) "optional" (.bool false) ++
    Value.entryIf (r.deleteRule ≠ .nullify) "delete_rule" (.text r.deleteRule.tag) ++
    Value.entryIf r.inverse.truthy "inverse" r.inverse

/-- The document of an entity. -/
def EntityDecl.document (e : EntityDecl) : Except Fault Value := do
  let attributes ← e.attributes.mapM (·.document)
  return .record <|
    [("name", e.name)] ++
    Value.entryIf e.isAbstract "abstract" (.bool true) ++
    Value.entryIf e.boundType.truthy "bound_type" e.boundType ++
    Value.entryIf (!e.unique.isEmpty) "unique" (.list e.unique) ++
    [("properties",
      .list (attributes.map (fun a ↦ .record [("attribute", a)]) ++
        e.relationships.map fun r ↦ .record [("relationship", r.document)]))]

/-- The document of a model. -/
def Model.document (m : Model) : Except Fault Value := do
  let entities ← m.entities.mapM (·.document)
  return .record [("name", m.name), ("version", m.version), ("entities", .list entities)]

end EntityGraph
