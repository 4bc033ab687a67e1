import EntityGraph.Schema.Declaration

/-!
# Schema graphs

Entities whose relationships know where they lead. Entities do not hold each other: a relationship
holds the name of its destination and the key of its inverse, and the graph turns these back into
an entity and a relationship. Cycles are therefore plain data.
-/

namespace EntityGraph

/-- The names of an entity and of one of its relationships. -/
structure Key where
  entity : Value
  name : Value

namespace Key

/-- Whether two keys are one. -/
def same (k l : Key) : Bool := k.entity.same l.entity && k.name.same l.name

/-- The text of a key. -/
def text (k : Key) : Except Fault String := SchemaError.memberText k.entity k.name

/-- Whether a key is among others. -/
def among (k : Key) (ks : List Key) : Bool := ks.any (k.same ·)

end Key

/-- An attribute of an entity of a graph. -/
structure Attribute where
  entity : Value
  name : Value
  type : ScalarType
  isOptional : Bool
  default : Value
  externalStorage : Bool
  preservedOnDelete : Bool

/-- A relationship of an entity of a graph. The name of the inverse is the one declared on this
side, which may be absent although an inverse is linked. -/
structure Relationship where
  entity : Value
  name : Value
  destination : Value
  isToMany : Bool
  isOptional : Bool
  deleteRule : DeleteRule
  inverseName : Value
  inverse : Option Key

namespace Relationship

/-- The key of a relationship. -/
def key (r : Relationship) : Key := ⟨r.entity, r.name⟩

/-- The most records that a relationship holds; zero stands for any number. -/
def maxCount (r : Relationship) : Nat := if r.isToMany then 0 else 1

/-- The fewest records that a relationship holds. -/
def minCount (r : Relationship) : Nat := if r.isOptional then 0 else 1

end Relationship

/-- An entity of a graph. -/
structure Entity where
  name : Value
  isAbstract : Bool
  boundType : Value
  /-- The bound type as it was declared, which may be absent. -/
  declaredBoundType : Value
  attributes : List Attribute
  relationships : List Relationship
  unique : List Value

namespace Entity

/-- The attribute of a name. -/
def attribute? (e : Entity) (name : Value) : Option Attribute :=
  e.attributes.find? (·.name.equals name)

/-- The relationship of a name. -/
def relationship? (e : Entity) (name : Value) : Option Relationship :=
  e.relationships.find? (·.name.equals name)

end Entity

/-- A named and versioned list of entities. -/
structure Graph where
  name : Value
  version : Value
  entities : List Entity

namespace Graph

variable (g : Graph)

/-- The names of the entities. -/
def names : List Value := g.entities.map (·.name)

/-- The entity of a name. -/
def find? (name : Value) : Option Entity := g.entities.find? (·.name.same name)

/-- The entity of a name, which has to be a key. -/
def entity? (name : Value) : Except Fault (Option Entity) := do
  name.checkKey
  return g.find? name

/-- Whether there is an entity of a name. -/
def contains (name : Value) : Except Fault Bool := (g.entity? name).map (·.isSome)

/-- The relationship of a key. -/
def relationshipAt (key : Key) : Except Fault (Option Relationship) := do
  let entity ← g.entity? key.entity
  return entity.bind (·.relationship? key.name)

/-- The entity that a relationship leads to. -/
def destinationOf (r : Relationship) : Except Fault Entity := do
  let entity ← g.entity? r.destination
  match entity with
  | some e => return e
  | none =>
    let shown ← r.destination.inspect
    .error (.missing shown)

/-- The inverse of a relationship, if it has one. -/
def inverseOf (r : Relationship) : Except Fault (Option Relationship) :=
  match r.inverse with
  | none => .ok none
  | some key => g.relationshipAt key

/-- How a graph is shown in a listing. -/
def inspect : Except Fault String := do
  let name ← g.name.inspect
  let version ← g.version.display
  let names ← (Value.list g.names).inspect
  return "CompiledSchema(name=" ++ name ++ ", version=" ++ version ++ ", entities=" ++ names ++ ")"

end Graph

end EntityGraph
