import EntityGraph.Schema.Compile

/-!
# Describing schemas

The text that lists a schema line by line, and the JSON text of its view with its fingerprint.
-/

namespace EntityGraph

/-- The line of an attribute. -/
def Attribute.line (a : Attribute) : Except Fault String := do
  let name ← a.name.display
  let mark := if a.isOptional then "?" else ""
  let default ← if a.default.isNull then .ok ""
    else a.default.inspect.map fun shown ↦ " = " ++ shown
  return "    " ++ name ++ ": " ++ a.type.tag ++ mark ++ default

/-- The line of a relationship. -/
def Relationship.line (r : Relationship) : Except Fault String := do
  let name ← r.name.display
  let arrow := if r.isToMany then "->>" else "->"
  let destination ← r.destination.display
  let inverse ← match r.inverse with
    | none => .ok ""
    | some key => key.text.map fun text ↦ " inverse=" ++ text
  return "    " ++ name ++ " " ++ arrow ++ " " ++ destination ++ " min=" ++
    Schema.countText r.minCount ++ " max=" ++ Schema.countText r.maxCount ++ " delete=" ++
    r.deleteRule.tag ++ inverse

/-- The lines of an entity: its head, its attributes and its relationships. -/
def Entity.lines (e : Entity) : Except Fault (List String) := do
  let name ← e.name.display
  let boundType ← e.boundType.display
  let mark := if e.isAbstract then " abstract" else ""
  let attributes ← e.attributes.mapM (·.line)
  let relationships ← e.relationships.mapM (·.line)
  return ("  " ++ name ++ " [" ++ boundType ++ "]" ++ mark) :: (attributes ++ relationships)

namespace Schema

/-- The text that lists a schema. -/
def describe (s : Schema) : Except Fault String := do
  let name ← s.graph.name.display
  let version ← s.graph.version.display
  let lines ← s.graph.entities.mapM (·.lines)
  let head := name ++ " v" ++ version ++ " (" ++ s.fingerprint ++ ")"
  return "\n".intercalate (head :: lines.flatten)

/-- The JSON text of the view of a schema together with its fingerprint. -/
def describeJson (s : Schema) : Except Fault String := do
  let view ← s.graph.view
  Json.text .document (.record [("fingerprint", .text s.fingerprint), ("schema", view)])

end Schema

end EntityGraph
