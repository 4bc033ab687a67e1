import EntityGraph.Schema.Declaration

/-!
# Building declarations

The ways to write a declaration down: attributes by type or by the tag of a type, relationships by
the tag of a delete rule, and entities from attributes and relationships in any mix.
-/

namespace EntityGraph

/-- Declares an attribute whose type is given by its tag. -/
def AttributeDecl.ofTag (name tag : Value) (options : AttributeOptions) :
    Except Failure AttributeDecl := do
  let type ← ScalarType.read tag
  make name type options

/-- Declares a relationship whose delete rule is given by its tag. -/
def RelationshipDecl.ofTag (name destination rule : Value) (options : RelationshipOptions) :
    Except Failure RelationshipDecl := do
  let deleteRule ← DeleteRule.read rule
  make name destination { options with deleteRule }

/-- The member of an object that its class is named by and that the object lacks. -/
def missingClassMember : Value → String
  | .atom _ (.decimal _) | .atom _ (.uuid _) | .atom _ (.foreign _) => "__qualname__"
  | _ => "__module__"

/-- The name of a bound type: a text is the name, and a class is named by its module and its
qualified name. -/
def boundTypeName : Value → Except Fault Value
  | v@(.atom _ (.text _)) => .ok v
  | .atom _ (.classRef module name) => .ok (.text (module ++ "." ++ name))
  | v => .error (.noMember v.longTypeName (missingClassMember v))

/-- What an entity is made from. -/
inductive Component
  | attr (a : AttributeDecl)
  | rel (r : RelationshipDecl)
  /-- Something that is no declaration of a property, of a type. -/
  | other (type : String)

/-- The attributes and the relationships among components. -/
structure Properties where
  attributes : List AttributeDecl
  relationships : List RelationshipDecl

/-- Components taken apart, each kind in its order. -/
def Properties.ofComponents (entity : Value) : List Component → Except Failure Properties
  | [] => .ok ⟨[], []⟩
  | .attr a :: cs => (ofComponents entity cs).map fun p ↦ { p with attributes := a :: p.attributes }
  | .rel r :: cs =>
    (ofComponents entity cs).map fun p ↦ { p with relationships := r :: p.relationships }
  | .other type :: _ => do
    let shown ← entity.display
    (Refusal.strangeComponent shown type).raise

/-- The parts of an entity that may be left out. -/
structure EntityOptions where
  isAbstract : Bool := false
  boundType : Value := .null
  unique : Value := .seq .fresh .tuple []

/-- Declares an entity from components in any order. -/
def EntityDecl.ofComponents (name : Value) (components : List Component) (options : EntityOptions) :
    Except Failure EntityDecl := do
  let properties ← Properties.ofComponents name components
  let boundType ← if options.boundType.isNull then .ok .null else boundTypeName options.boundType
  let unique ← options.unique.items
  make name properties.attributes properties.relationships options.isAbstract boundType unique

end EntityGraph
