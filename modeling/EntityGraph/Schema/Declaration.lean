import EntityGraph.Schema.Default

/-!
# Declarations

What a caller says about a schema: attributes, relationships and the entities that hold them.
Relationships name their destination and their inverse; nothing is looked up before a schema is
compiled. Names are values of any kind, since documents hold any; the invariants of a declaration
are part of its type.
-/

namespace EntityGraph

/-- The declaration of an attribute. Its name counts as true and its default has its type. -/
structure AttributeDecl where
  name : Value
  type : ScalarType
  isOptional : Bool
  default : Value
  externalStorage : Bool
  preservedOnDelete : Bool
  named : name.truthy = true
  typed : type.checkDefault name default = .ok ()

/-- The parts of an attribute that may be left out. -/
structure AttributeOptions where
  isOptional : Bool := true
  default : Value := .null
  externalStorage : Bool := false
  preservedOnDelete : Bool := false

/-- Declares an attribute. -/
def AttributeDecl.make (name : Value) (type : ScalarType) (options : AttributeOptions) :
    Except Failure AttributeDecl :=
  if named : name.truthy = true then
    match typed : type.checkDefault name options.default with
    | .ok () =>
      .ok ⟨name, type, options.isOptional, options.default, options.externalStorage,
        options.preservedOnDelete, named, typed⟩
    | .error e => .error e
  else Refusal.namelessAttribute.raise

/-- The declaration of a relationship. Its name and its destination count as true. -/
structure RelationshipDecl where
  name : Value
  destination : Value
  isToMany : Bool
  isOptional : Bool
  deleteRule : DeleteRule
  inverse : Value
  named : name.truthy = true
  directed : destination.truthy = true

/-- The parts of a relationship that may be left out. -/
structure RelationshipOptions where
  isToMany : Bool := false
  isOptional : Bool := true
  deleteRule : DeleteRule := .nullify
  inverse : Value := .null

/-- Declares a relationship. -/
def RelationshipDecl.make (name destination : Value) (options : RelationshipOptions) :
    Except Failure RelationshipDecl :=
  if named : name.truthy = true then
    if directed : destination.truthy = true then
      .ok ⟨name, destination, options.isToMany, options.isOptional, options.deleteRule,
        options.inverse, named, directed⟩
    else do
      let shown ← name.display
      (Refusal.noDestination shown).raise
  else Refusal.namelessRelationship.raise

/-- Names that can be keys and are pairwise different. -/
structure DistinctNames (names : List Value) : Prop where
  isKey : ∀ n ∈ names, n.checkKey = .ok ()
  pairwise : names.Pairwise fun m n ↦ n.same m = false

/-- Checks names one after the other against those that came before; `refuse` says how a repeated
name is refused. -/
def checkDistinct (refuse : Value → SchemaError) (seen : List Value) :
    List Value → Except Failure Unit
  | [] => .ok ()
  | n :: ns => do
    n.checkKey
    if n.among seen then (refuse n).raise
    checkDistinct refuse (seen ++ [n]) ns

/-- One step of the check of names. -/
theorem checkDistinct_cons {refuse : Value → SchemaError} {seen : List Value} {n : Value}
    {ns : List Value} :
    checkDistinct refuse seen (n :: ns) = .ok () ↔
      n.checkKey = .ok () ∧ n.among seen = false ∧
        checkDistinct refuse (seen ++ [n]) ns = .ok () := by
  cases hk : n.checkKey with
  | error f =>
    simp [checkDistinct, hk, bind, Except.bind]
  | ok u =>
    cases hs : n.among seen <;>
      simp [checkDistinct, hk, hs, bind, Except.bind, SchemaError.raise]

/-- Names pass the check exactly if they can be keys and none is among those before it. -/
theorem checkDistinct_eq_ok {refuse : Value → SchemaError} {seen names : List Value} :
    checkDistinct refuse seen names = .ok () ↔
      (∀ n ∈ names, n.checkKey = .ok ()) ∧ (∀ n ∈ names, ∀ m ∈ seen, n.same m = false) ∧
        names.Pairwise fun m n ↦ n.same m = false := by
  induction names generalizing seen with
  | nil => simp [checkDistinct]
  | cons n ns ih =>
    rw [checkDistinct_cons, ih, List.pairwise_cons]
    simp only [Value.among, List.any_eq_false, Bool.not_eq_true, List.mem_append,
      List.mem_cons, forall_eq_or_imp]
    grind

private theorem distinctNames_of_check {refuse : Value → SchemaError} {names : List Value}
    (h : checkDistinct refuse [] names = .ok ()) : DistinctNames names :=
  ⟨(checkDistinct_eq_ok.1 h).1, (checkDistinct_eq_ok.1 h).2.2⟩

/-- The names of attributes followed by those of relationships. -/
def propertyNames (attributes : List AttributeDecl) (relationships : List RelationshipDecl) :
    List Value :=
  attributes.map (·.name) ++ relationships.map (·.name)

/-- The declaration of an entity. Its name counts as true, and no two of its properties have one
name. -/
structure EntityDecl where
  name : Value
  attributes : List AttributeDecl
  relationships : List RelationshipDecl
  isAbstract : Bool
  boundType : Value
  unique : List Value
  named : name.truthy = true
  distinct : DistinctNames (propertyNames attributes relationships)

namespace EntityDecl

/-- Declares an entity. -/
def make (name : Value) (attributes : List AttributeDecl) (relationships : List RelationshipDecl)
    (isAbstract : Bool) (boundType : Value) (unique : List Value) : Except Failure EntityDecl :=
  if named : name.truthy = true then
    match h : checkDistinct (.duplicateProperty name) []
        (propertyNames attributes relationships) with
    | .ok () =>
      .ok ⟨name, attributes, relationships, isAbstract, boundType, unique, named,
        distinctNames_of_check h⟩
    | .error e => .error e
  else Refusal.namelessEntity.raise

/-- The names of the properties, attributes first. -/
def properties (e : EntityDecl) : List Value := propertyNames e.attributes e.relationships

/-- The attribute of a name. -/
def attribute? (e : EntityDecl) (name : Value) : Option AttributeDecl :=
  e.attributes.find? (·.name.equals name)

/-- The relationship of a name. -/
def relationship? (e : EntityDecl) (name : Value) : Option RelationshipDecl :=
  e.relationships.find? (·.name.equals name)

end EntityDecl

namespace AttributeDecl

/-- Whether two declarations are equal. -/
def same (a b : AttributeDecl) : Bool :=
  a.name.same b.name && a.type = b.type && a.isOptional = b.isOptional &&
    a.default.same b.default && a.externalStorage = b.externalStorage &&
    a.preservedOnDelete = b.preservedOnDelete

/-- Whether comparing two declarations never ends. -/
def endless (a b : AttributeDecl) : Bool :=
  a.name.same b.name && a.type = b.type && a.isOptional = b.isOptional &&
    a.default.endless b.default

end AttributeDecl

namespace RelationshipDecl

/-- Whether two declarations are equal. -/
def same (r s : RelationshipDecl) : Bool :=
  r.name.same s.name && r.destination.same s.destination && r.isToMany = s.isToMany &&
    r.isOptional = s.isOptional && r.deleteRule = s.deleteRule && r.inverse.same s.inverse

end RelationshipDecl

/-- Whether two lists agree place by place. -/
def sameLists {α : Type} (same : α → α → Bool) : List α → List α → Bool
  | [], [] => true
  | a :: as, b :: bs => same a b && sameLists same as bs
  | _, _ => false

/-- Whether comparing two lists place by place never ends. -/
def endlessLists {α : Type} (same endless : α → α → Bool) : List α → List α → Bool
  | a :: as, b :: bs => endless a b || (same a b && endlessLists same endless as bs)
  | _, _ => false

namespace EntityDecl

/-- Whether two declarations are equal: the same properties in the same order, and all else the
same. -/
def same (e f : EntityDecl) : Bool :=
  e.name.same f.name && sameLists AttributeDecl.same e.attributes f.attributes &&
    sameLists RelationshipDecl.same e.relationships f.relationships &&
    e.isAbstract = f.isAbstract && e.boundType.same f.boundType &&
    sameLists Value.same e.unique f.unique

/-- Whether comparing two declarations never ends. -/
def endless (e f : EntityDecl) : Bool :=
  e.name.endless f.name || (e.name.same f.name && e.attributes.length = f.attributes.length &&
    endlessLists AttributeDecl.same AttributeDecl.endless e.attributes f.attributes)

end EntityDecl

end EntityGraph
