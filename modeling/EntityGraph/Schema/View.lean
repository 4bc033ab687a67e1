import EntityGraph.Bytes.Sha256
import EntityGraph.Bytes.Utf8
import EntityGraph.Schema.Graph

/-!
# The view of a graph

The value that a graph is handed on as, and the fingerprint of it: the digest of its JSON text
without spaces and with sorted keys.
-/

namespace EntityGraph

open EntityGraph.Bytes

/-- The form of a default in a view: the canonical form where the type is opaque, the encoded form
elsewhere. -/
def ScalarType.viewOf (type : ScalarType) (default : Value) : Except Fault Value :=
  if type.isOpaque then default.canonical else type.encode default

/-- The view of an attribute. -/
def Attribute.view (a : Attribute) : Except Fault Value := do
  let default ← a.type.viewOf a.default
  return .record
    [("kind", .text "attribute"), ("name", a.name), ("scalar_type", .text a.type.tag),
      ("is_optional", .bool a.isOptional), ("default_value", default),
      ("allows_external_storage", .bool a.externalStorage),
      ("preserves_on_delete", .bool a.preservedOnDelete)]

/-- The view of a relationship. The inverse, if there is one, is given by its name. -/
def Relationship.view (r : Relationship) : Value :=
  .record <|
    [("kind", .text "relationship"), ("name", r.name), ("destination_entity", r.destination),
      ("max_count", .int r.maxCount), ("min_count", .int r.minCount),
      ("delete_rule", .text r.deleteRule.tag)] ++
    (r.inverse.map fun key ↦ ("inverse_relationship", key.name)).toList

/-- The view of an entity. -/
def Entity.view (e : Entity) : Except Fault Value := do
  let attributes ← e.attributes.mapM (·.view)
  return .record <|
    [("name", e.name), ("is_abstract", .bool e.isAbstract), ("bound_type_name", e.boundType),
      ("properties", .list (attributes ++ e.relationships.map (·.view)))] ++
    (if e.unique.isEmpty then [] else [("unique_constraints", .list e.unique)])

namespace Graph

/-- The view of a graph. -/
def view (g : Graph) : Except Fault Value := do
  let entities ← g.entities.mapM (·.view)
  return .record [("name", g.name), ("version", g.version), ("entities", .list entities)]

/-- The fingerprint of the graph that has a view. -/
def fingerprintOf (view : Value) : Except Fault String := do
  let text ← Json.text .compact view
  return "sha256:" ++ Sha256.hexDigest (Utf8.encode text.toList)

/-- The fingerprint of a graph. -/
def fingerprint (g : Graph) : Except Fault String := do
  let view ← g.view
  fingerprintOf view

end Graph

/-- A graph that has a fingerprint. -/
structure Schema where
  graph : Graph
  fingerprint : String
  fingerprint_eq : graph.fingerprint = .ok fingerprint

namespace Schema

/-- The schema of a graph, if the graph has a text. -/
def ofGraph (g : Graph) : Except Fault Schema :=
  match h : g.fingerprint with
  | .ok fingerprint => .ok ⟨g, fingerprint, h⟩
  | .error f => .error f

/-- The JSON text of the view of a schema; on one line if there is no indentation. -/
def json (s : Schema) (indent : Json.Indent) : Except Fault String := do
  let view ← s.graph.view
  let unit ← indent.unit?
  Json.text (unit.elim .line .indented) view

end Schema

end EntityGraph
