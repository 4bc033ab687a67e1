import EntityGraph.Proofs.Blame
import EntityGraph.Proofs.Location

/-!
# Properties in any mix

Attributes and relationships are taken apart, each kind in its order, both where an entity is
declared from components and where it is read from a document. What comes of it is what the two
lists declare, however they are mixed. Names are checked after the kinds are taken apart, attributes
first, so the name that is refused need not be the one that repeats first in the mix.
-/

namespace EntityGraph

/-- Components that are some attributes and some relationships, mixed but each kind in its order. -/
inductive Interleaves : List AttributeDecl → List RelationshipDecl → List Component → Prop
  | nil : Interleaves [] [] []
  | attr (a : AttributeDecl) {as : List AttributeDecl} {rs : List RelationshipDecl}
    {cs : List Component} (h : Interleaves as rs cs) : Interleaves (a :: as) rs (.attr a :: cs)
  | rel (r : RelationshipDecl) {as : List AttributeDecl} {rs : List RelationshipDecl}
    {cs : List Component} (h : Interleaves as rs cs) : Interleaves as (r :: rs) (.rel r :: cs)

/-- What declaring an entity of a name and of properties comes to: an entity that has these, where
their names differ, and otherwise an error about the first name that repeats, attributes first. -/
structure Yields (name : String) (as : List AttributeDecl) (rs : List RelationshipDecl)
    (outcome : Except Failure EntityDecl) : Prop where
  made : (propertyNames as rs).Nodup → ∃ e, outcome = .ok e ∧ e.name = .text name ∧
    e.attributes = as ∧ e.relationships = rs ∧ e.properties = propertyNames as rs
  refused : ¬ (propertyNames as rs).Nodup → ∃ n, IsFirstRepeated (propertyNames as rs) n ∧
    Reports outcome (.duplicateProperty (.text name) n)

/-! ### Names -/

private theorem exists_checkDistinct_eq_raise (refuse : Value → SchemaError) {names : List Value}
    (texts : ∀ n ∈ names, n.IsText) (repeats : ¬ names.Nodup) :
    ∃ n, n.IsText ∧ IsFirstRepeated names n ∧ checkDistinct refuse [] names = (refuse n).raise := by
  obtain ⟨n, first⟩ := exists_isFirstRepeated names repeats
  obtain ⟨before, after, rfl, hnodup, hn⟩ := id first
  have hnt : n.IsText := texts n (by simp)
  exact ⟨n, hnt, first, checkDistinct_eq_raise refuse after hnt before []
    (fun m hm ↦ texts m (List.mem_append_left _ hm)) hnodup hn⟩

variable {name : String} {as : List AttributeDecl} {rs : List RelationshipDecl}

private theorem EntityDecl.make_eq_error {name : Value} (named : name.truthy = true) {f : Failure}
    (refused : checkDistinct (.duplicateProperty name) [] (propertyNames as rs) = .error f)
    (isAbstract : Bool) (boundType : Value) (unique : List Value) :
    make name as rs isAbstract boundType unique = .error f := by
  unfold make
  rw [dif_pos named]
  split
  · next passed => cases passed.symm.trans refused
  · next other stopped => exact congrArg _ (Except.error.inj (stopped.symm.trans refused))

/-- An entity is declared as it should be, whatever its other parts are. -/
private theorem yields_make (nonempty : name ≠ "") (texts : ∀ n ∈ propertyNames as rs, n.IsText)
    (isAbstract : Bool) (boundType : Value) (unique : List Value) :
    Yields name as rs (EntityDecl.make (.text name) as rs isAbstract boundType unique) := by
  have named := Value.truthy_of_ne nonempty
  constructor
  · intro distinct
    have names : DistinctNames (propertyNames as rs) :=
      ⟨fun n hn ↦ (texts n hn).checkKey, (Value.pairwise_same_iff texts).mpr distinct⟩
    exact ⟨_, EntityDecl.make_eq_ok isAbstract boundType unique named names, rfl, rfl, rfl, rfl⟩
  · intro repeats
    obtain ⟨n, hn, first, refused⟩ :=
      exists_checkDistinct_eq_raise (.duplicateProperty (.text name)) texts repeats
    obtain ⟨shown, hshown⟩ := hn.exists_display
    have said : (SchemaError.duplicateProperty (.text name) n).message =
        .ok ("Duplicate property '" ++ shown ++ "' in entity '" ++ name ++ "'") := by
      simp only [SchemaError.message, hshown]
      rfl
    rw [EntityDecl.make_eq_error named refused]
    exact ⟨n, first, reports_raise said⟩

/-! ### Components -/

private theorem Interleaves.ofComponents_eq_ok {cs : List Component} (h : Interleaves as rs cs)
    (entity : Value) : Properties.ofComponents entity cs = .ok ⟨as, rs⟩ := by
  induction h with
  | nil => rfl
  | attr a _ ih => rw [Properties.ofComponents, ih, Except.map]
  | rel r _ ih => rw [Properties.ofComponents, ih, Except.map]

/-- Parts of an entity that can be used: a bound type is a text or a class, and constraints have
members. -/
structure EntityOptions.AreUsable (options : EntityOptions) : Prop where
  boundType : options.boundType.isNull = true ∨ ∃ w, boundTypeName options.boundType = .ok w
  unique : ∃ us, options.unique.items = .ok us

private theorem Interleaves.ofComponents_eq_make {options : EntityOptions}
    (usable : options.AreUsable)
    (name : Value) : ∃ boundType unique, ∀ {as rs cs}, Interleaves as rs cs →
      EntityDecl.ofComponents name cs options =
        EntityDecl.make name as rs options.isAbstract boundType unique := by
  obtain ⟨unique, hunique⟩ := usable.unique
  cases bound : options.boundType.isNull with
  | true =>
    refine ⟨.null, unique, fun {as rs cs} h ↦ ?_⟩
    simp only [EntityDecl.ofComponents, h.ofComponents_eq_ok, bound, hunique]
    rfl
  | false =>
    obtain ⟨boundType, hbound⟩ := usable.boundType.resolve_left (by simp [bound])
    refine ⟨boundType, unique, fun {as rs cs} h ↦ ?_⟩
    simp only [EntityDecl.ofComponents, h.ofComponents_eq_ok, bound, hbound, hunique]
    rfl

namespace Document

/-! ### Documents -/

/-- A mapping whose properties can be read one by one, as some components. -/
def ListsComponents (w : Value) (cs : List Component) : Prop :=
  ∃ vs, members "properties" w = .ok vs ∧
    List.Forall₂ (fun v c ↦ ∃ path, readProperty path v = .ok c) vs cs

private theorem readProperties_eq_ok {cs : List Component} (h : Interleaves as rs cs)
    {vs : List Value}
    (each : List.Forall₂ (fun v c ↦ ∃ path, readProperty path v = .ok c) vs cs) (path : String)
    (i : Nat) : readProperties path i vs = .ok ⟨as, rs⟩ := by
  induction h generalizing vs i with
  | nil =>
    obtain rfl := List.forall₂_nil_right_iff.mp each
    rfl
  | attr a _ ih =>
    obtain ⟨v, vs, ⟨_, hv⟩, rest, rfl⟩ := List.forall₂_cons_right_iff.mp each
    rw [readProperties, readProperty_of_eq_ok _ hv, ih rest]
    rfl
  | rel r _ ih =>
    obtain ⟨v, vs, ⟨_, hv⟩, rest, rfl⟩ := List.forall₂_cons_right_iff.mp each
    rw [readProperties, readProperty_of_eq_ok _ hv, ih rest]
    rfl

/-- A mapping that names an entity and whose other parts, except for its properties, are as they
should be. -/
structure IsHeaded (name : String) (w : Value) : Prop where
  named : w.get? "name" = some (.text name)
  isAbstract : HasFlag "abstract" w
  unique : ∃ us, members "unique" w = .ok us

/-- Mappings that say the same of an entity but for its properties. -/
def SameHead (w w' : Value) : Prop := ∀ key, key ≠ "properties" → w'.get? key = w.get? key

/-- Mappings that say the same but for the properties of an entity declare what their attributes and
relationships do. -/
private theorem readEntity_eq_make (nonempty : name ≠ "") {w : Value} (heads : IsHeaded name w) :
    ∃ isAbstract boundType unique, ∀ {as rs cs path w'}, IsMapping w' → SameHead w w' →
      ListsComponents w' cs → Interleaves as rs cs →
      readEntity path w' = EntityDecl.make (.text name) as rs isAbstract boundType unique := by
  obtain ⟨isAbstract, hflag⟩ := (exists_flag_eq_ok "" "abstract" false w).mpr heads.isAbstract
  obtain ⟨unique, hunique⟩ := heads.unique
  refine ⟨isAbstract, w.get "bound_type", unique, ?_⟩
  rintro as rs cs path w' mapping same ⟨vs, hvs, each⟩ h
  have get : ∀ key, key ≠ "properties" → w'.get key = w.get key := fun key hkey ↦ by
    rw [Value.get, Value.get, same key hkey]
  have checked : checkMapping path w' = .ok () := (checkMapping_eq_ok path w').mpr mapping
  have hname : require path "name" w' = .ok (.text name) := by
    refine (require_eq_ok _ _ _ _).mpr ⟨among_empty_of_truthy (Value.truthy_of_ne nonempty), ?_⟩
    rw [get "name" (by decide), Value.get, heads.named]
    rfl
  have flagged : flag path "abstract" false w' = .ok isAbstract := by
    rw [flag_eq_ok_iff, same "abstract" (by decide)]
    exact (flag_eq_ok_iff _ _ _ _ _).mp hflag
  have constraints : members "unique" w' = .ok unique := by
    rw [members, get "unique" (by decide)]
    exact hunique
  have properties := readProperties_eq_ok h each path 0
  simp only [readEntity, bind, Except.bind, Failure.liftM_ok, checked, hname, hvs, properties,
    flagged, constraints, get "bound_type" (by decide)]

end Document

/-! ### Declared and read -/

/-- What comes of mixed attributes and relationships depends on the attributes in their order and on
the relationships in theirs, not on the mix, and where the names are texts it is what the two lists
declare. So it is for an entity that is declared from components with usable parts, and for one that
is read from a document whose properties can be read one by one. -/
theorem outcome_of_interleaves (nonempty : name ≠ "") (as : List AttributeDecl)
    (rs : List RelationshipDecl) :
    (∀ options : EntityOptions, options.AreUsable → ∃ outcome,
      ((∀ n ∈ propertyNames as rs, n.IsText) → Yields name as rs outcome) ∧
      ∀ cs, Interleaves as rs cs →
        EntityDecl.ofComponents (.text name) cs options = outcome) ∧
    (∀ w, Document.IsHeaded name w → ∃ outcome,
      ((∀ n ∈ propertyNames as rs, n.IsText) → Yields name as rs outcome) ∧
      ∀ path w' cs, Document.IsMapping w' → Document.SameHead w w' →
        Document.ListsComponents w' cs → Interleaves as rs cs →
        Document.readEntity path w' = outcome) := by
  constructor
  · intro options usable
    obtain ⟨boundType, unique, made⟩ := Interleaves.ofComponents_eq_make usable (.text name)
    exact ⟨_, fun texts ↦ yields_make nonempty texts options.isAbstract boundType unique,
      fun cs h ↦ made h⟩
  · intro w heads
    obtain ⟨isAbstract, boundType, unique, made⟩ := Document.readEntity_eq_make nonempty heads
    exact ⟨_, fun texts ↦ yields_make nonempty texts isAbstract boundType unique,
      fun path w' cs mapping same lists h ↦ made mapping same lists h⟩

/-! ### An example -/

namespace Item

private theorem ne_item : "Item" ≠ "" := by decide

/-- An item has a title. -/
def title : AttributeDecl := ⟨.text "title", .string, true, .null, false, false, rfl, rfl⟩

/-- An item has an owner. -/
def owner : RelationshipDecl :=
  ⟨.text "owner", .text "Person", false, true, .nullify, .null, rfl, rfl⟩

/-- Items in a document that says first who owns them. -/
def document : Value :=
  .record [("name", .text "Item"), ("properties", .list
    [.record [("relationship", .record [("name", .text "owner"), ("destination", .text "Person")])],
      .record [("attribute", .record [("name", .text "title"), ("type", .text "string")])]])]

private theorem heads : Document.IsHeaded "Item" document := by
  refine ⟨by cbv, ?_, [], by cbv⟩
  intro v hv
  have absent : document.get? "abstract" = none := by cbv
  cases absent.symm.trans hv

private theorem lists : Document.ListsComponents document [.rel owner, .attr title] := by
  refine ⟨_, by cbv, .cons ⟨"", ?_⟩ (.cons ⟨"", ?_⟩ .nil)⟩
  · cbv
  · cbv

/-- Items are the same whether their title or their owner is declared first, and are read from the
document with their title first. -/
theorem outcome_of_interleaves_item : "Item" ≠ "" ∧ ∃ e f : EntityDecl,
    e.properties = [.text "title", .text "owner"] ∧ f.properties = e.properties ∧
      EntityDecl.ofComponents (.text "Item") [.attr title, .rel owner] {} = .ok e ∧
      EntityDecl.ofComponents (.text "Item") [.rel owner, .attr title] {} = .ok e ∧
      Document.readEntity "entities[0]" document = .ok f := by
  have texts : ∀ n ∈ propertyNames [title] [owner], n.IsText := by
    simp [propertyNames, title, owner, Value.IsText]
  have distinct : (propertyNames [title] [owner]).Nodup := by
    simp [propertyNames, title, owner, Value.text]
  have usable : EntityOptions.AreUsable {} := ⟨.inl rfl, [], rfl⟩
  obtain ⟨built, read⟩ := outcome_of_interleaves ne_item [title] [owner]
  obtain ⟨x, hx, built⟩ := built {} usable
  obtain ⟨y, hy, read⟩ := read document heads
  obtain ⟨e, rfl, -, -, -, he⟩ := (hx texts).made distinct
  obtain ⟨f, rfl, -, -, -, hf⟩ := (hy texts).made distinct
  exact ⟨ne_item, e, f, he, hf.trans he.symm, built _ (.attr title (.rel owner .nil)),
    built _ (.rel owner (.attr title .nil)), read _ document _ ⟨_, _, rfl⟩ (fun _ _ ↦ rfl) lists
      (.rel owner (.attr title .nil))⟩

end Item

end EntityGraph
