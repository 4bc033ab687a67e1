import EntityGraph.Schema.Declaration

/-!
# Models

A named and versioned list of entity declarations.
-/

namespace EntityGraph

/-- A model. Its version is a number above zero, as far as it can be compared with zero. -/
structure Model where
  name : Value
  version : Value
  entities : List EntityDecl
  isPositive : version.atMostZero = .ok false

/-- What a model is made from. -/
inductive Entry
  | entity (e : EntityDecl)
  /-- Something else that has a name, of a type. -/
  | named (type : String) (name : Value)
  /-- Something else that has none, of a type. -/
  | other (type : String)
  | value (v : Value)

/-- The entities that entries are. -/
def Entry.entities : List Entry → Except Failure (List EntityDecl)
  | [] => .ok []
  | .entity e :: rest => (entities rest).map (e :: ·)
  | .named type _ :: _ | .other type :: _ => (Refusal.strangeEntry type).raise
  | .value v :: _ => (Refusal.strangeEntry v.typeName).raise

namespace Model

/-- The name of a model that is given none. -/
def defaultName : Value := .text "Model"

/-- The version of a model that is given none. -/
def defaultVersion : Value := .int 1

/-- The model of a name, a version and entries. -/
def make (name version : Value) (entries : List Entry) : Except Failure Model :=
  match h : version.atMostZero with
  | .error f => .error (.fault f)
  | .ok true => do
    let shown ← version.display
    (Refusal.version shown).raise
  | .ok false => (Entry.entities entries).map fun entities ↦ ⟨name, version, entities, h⟩

/-- The first entity of a name. -/
def entity? (m : Model) (name : Value) : Option EntityDecl := m.entities.find? (·.name.equals name)

/-- How a model is shown in a listing. -/
def inspect (m : Model) : Except Fault String := do
  let name ← m.name.inspect
  let version ← m.version.display
  let names ← (Value.list (m.entities.map (·.name))).inspect
  return "DataModel(name=" ++ name ++ ", version=" ++ version ++ ", entities=" ++ names ++ ")"

/-- Whether the entities of two models are equal. -/
def sameEntities (m n : Model) : Bool := sameLists EntityDecl.same m.entities n.entities

/-- Whether two models are equal: in name, version and entities. -/
def equals (m n : Model) : Bool :=
  m.sameEntities n && m.name.equals n.name && m.version.equals n.version

/-- Whether comparing the entities of two models never ends. -/
def endlessEntities (m n : Model) : Bool :=
  m.entities.length = n.entities.length &&
    endlessLists EntityDecl.same EntityDecl.endless m.entities n.entities

/-- Whether the entities of two models are equal, as far as comparing them ends. -/
def compareEntities (m n : Model) : Except Fault Bool :=
  if m.endlessEntities n then .error .endless else .ok (m.sameEntities n)

/-- Whether two models are equal, as far as comparing them ends. -/
def compare (m n : Model) : Except Fault Bool :=
  if m.endlessEntities n then .error .endless else .ok (m.equals n)

/-- A model without entities. -/
example : (make defaultName defaultVersion []).toOption.isSome = true := by decide +kernel

end Model

end EntityGraph
