import EntityGraph.Log.Record
import EntityGraph.Schema.Graph

/-!
# Linking

Every relationship is given its destination and, where either side declares it, its inverse. The
relationships are gone through in the order of their declaration; each looks its destination and its
inverse up among all declarations and links the pair in both directions. No relationship is linked
to two inverses.
-/

namespace EntityGraph

/-- Where relationships lead and which relationships are linked to each other, latest first. -/
structure Links where
  destinations : List (Key × Value)
  inverses : List (Key × Key)

/-- The first entry under a key. -/
def Key.find? {α : Type} (key : Key) (entries : List (Key × α)) : Option α :=
  (entries.find? fun e ↦ e.1.same key).map (·.2)

namespace Links

/-- No links. -/
def none : Links := ⟨[], []⟩

/-- The destination of a relationship. -/
def destination? (l : Links) (key : Key) : Option Value := key.find? l.destinations

/-- The inverse of a relationship. -/
def inverse? (l : Links) (key : Key) : Option Key := key.find? l.inverses

/-- The links with the destination of one more relationship. -/
def direct (l : Links) (key : Key) (destination : Value) : Links :=
  { l with destinations := (key, destination) :: l.destinations }

/-- The links with two relationships linked to each other. -/
def join (l : Links) (key inverse : Key) : Links :=
  { l with inverses := (inverse, key) :: (key, inverse) :: l.inverses }

/-- Checks that a relationship is linked to nothing or to one inverse already. -/
def checkFree (l : Links) (key inverse : Key) : Except Failure Unit :=
  match l.inverse? key with
  | Option.none => .ok ()
  | some existing =>
    if existing.same inverse then .ok ()
    else do
      let linked ← existing.text
      let wanted ← inverse.text
      (SchemaError.conflictingInverse key.entity key.name (.text linked) (.text wanted)).raise

/-- The links with two relationships linked to each other, unless one is linked elsewhere. -/
def join? (l : Links) (key inverse : Key) : Except Failure Links := do
  l.checkFree key inverse
  l.checkFree inverse key
  return l.join key inverse

end Links

/-- The declaration of an entity of a name. -/
def EntityDecl.find? (entities : List EntityDecl) (name : Value) : Option EntityDecl :=
  entities.find? (·.name.same name)

/-- The declaration of a relationship of an entity, by a name as a key. -/
def EntityDecl.member? (e : EntityDecl) (name : Value) : Option RelationshipDecl :=
  e.relationships.find? (·.name.same name)

namespace Links

/-- The logger of compilation. -/
def logger : String := "entmodel.schema.compiler"

/-- The note that a relationship is resolved. -/
def resolvedText (key : Key) (destination : Value) (inverse : Option Key) :
    Except Fault String := do
  let shown ← key.text
  let target ← destination.display
  let partner ← match inverse with
    | Option.none => .ok ""
    | some k => k.text.map fun text ↦ " (inverse " ++ text ++ ")"
  return "Resolved " ++ shown ++ " -> " ++ target ++ partner

/-- The links after one more relationship of an entity. -/
def visit (entities : List EntityDecl) (l : Links) (owner : EntityDecl) (r : RelationshipDecl) :
    Traced Links := do
  let key : Key := ⟨owner.name, r.name⟩
  r.destination.checkKey
  match EntityDecl.find? entities r.destination with
  | Option.none =>
    Traced.ofResult (SchemaError.unknownDestination owner.name r.name r.destination).raise
  | some destination =>
    let l := l.direct key r.destination
    if r.inverse.isNull then
      Traced.note .debug logger (resolvedText key r.destination Option.none)
      return l
    r.inverse.checkKey
    match destination.member? r.inverse with
    | Option.none =>
      Traced.ofResult
        (SchemaError.unknownInverse owner.name r.name r.inverse r.destination).raise
    | some inverse =>
      let partner : Key := ⟨destination.name, inverse.name⟩
      let l ← (l.join? key partner : Except Failure Links)
      Traced.note .debug logger (resolvedText key r.destination (some partner))
      return l

/-- Every relationship with its owner, in the order of declaration. -/
def declared (entities : List EntityDecl) : List (EntityDecl × RelationshipDecl) :=
  entities.flatMap fun e ↦ e.relationships.map fun r ↦ (e, r)

/-- The links of all relationships. -/
def ofEntities (entities : List EntityDecl) : Traced Links :=
  (declared entities).foldlM (fun l (e, r) ↦ visit entities l e r) none

end Links

/-- A relationship that may not be resolved yet. -/
structure Draft where
  owner : Value
  decl : RelationshipDecl
  destination : Option Value
  inverse : Option Key

namespace Draft

/-- The draft of a relationship under some links. -/
def ofLinks (l : Links) (owner : Value) (r : RelationshipDecl) : Draft :=
  let key : Key := ⟨owner, r.name⟩
  ⟨owner, r, l.destination? key, l.inverse? key⟩

/-- The relationship of a draft, which has to be resolved. -/
def freeze (d : Draft) : Except Failure Relationship :=
  match d.destination with
  | none => (SchemaError.unresolved d.owner d.decl.name).raise
  | some destination =>
    .ok
      { entity := d.owner
        name := d.decl.name
        destination
        isToMany := d.decl.isToMany
        isOptional := d.decl.isOptional
        deleteRule := d.decl.deleteRule
        inverseName := d.decl.inverse
        inverse := d.inverse }

end Draft

end EntityGraph
