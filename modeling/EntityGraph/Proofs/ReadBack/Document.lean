import EntityGraph.Document.Write
import EntityGraph.Proofs.Grammar
import EntityGraph.Proofs.ReadBack.Default

/-!
# Documents read back

The document of a model is read as a model of the same declarations. What is left out of a document
is supplied again when it is read, but for inverses and bound types that do not count as true: these
are read as absent. Defaults are read from their codes.
-/

namespace EntityGraph

/-! ### Entries -/

namespace Value

/-- What a new mapping holds under a text. -/
theorem get?_record (key : String) (es : List (String × Value)) :
    (record es).get? key = (es.find? (·.1 = key)).map (·.2) := by
  rw [record, get?, (funext (takeOut_dict_fresh _) : takeOut _ = id), Option.map_id, id]
  induction es with
  | nil => rfl
  | cons e es ih =>
    obtain ⟨k, v⟩ := e
    rw [List.map_cons, find?, same_text, List.find?_cons, ih]
    by_cases h : k = key
    · simp [h]
    · simp [h, Ne.symm h]

/-- An entry that is written under a condition is found if the condition holds. -/
theorem find?_entryIf (condition : Bool) (k : String) (v : Value) (p : String × Value → Bool) :
    (entryIf condition k v).find? p = if condition && p (k, v) then some (k, v) else none := by
  cases condition <;> cases h : p (k, v) <;> simp [entryIf, h]

end Value

/-! ### Attributes -/

/-- The attribute that the document of an attribute declares. -/
structure AttributeDecl.IsReread (a b : AttributeDecl) : Prop where
  name : b.name = a.name
  type : b.type = a.type
  isOptional : b.isOptional = a.isOptional
  default : ∃ code, a.type.Rereads a.default code b.default
  externalStorage : b.externalStorage = a.externalStorage
  preservedOnDelete : b.preservedOnDelete = a.preservedOnDelete

/-- The default of an attribute of dates keeps its offset from universal time, if it has one: the
offset is zero or at least a second. -/
def AttributeDecl.HasLongOffset (a : AttributeDecl) : Prop :=
  a.type = .date → a.default.HasLongOffset

namespace Document

/-- A flag that is written only where it is not as it would be by default is read back. -/
theorem flag_eq_ok {path key : String} {default b : Bool} {v : Value}
    (h : v.get? key = if b = default then none else some (.bool b)) :
    flag path key default v = .ok b := by
  rw [flag, h]
  by_cases same : b = default
  · rw [if_pos same, same]
  · rw [if_neg same]
    rfl

/-- What counts as true is there where it is required. -/
theorem require_of_truthy (path : String) {key : String} {v w : Value} (h : v.get? key = some w)
    (truthy : w.truthy = true) : require path key v = .ok w := by
  have value : v.get key = w := by rw [Value.get, h, Option.getD_some]
  exact (require_eq_ok path key v w).mpr ⟨among_empty_of_truthy truthy, value⟩

end Document

/-- The entries of the document of an attribute whose default has a code. -/
def AttributeDecl.entries (a : AttributeDecl) (code : Value) : List (String × Value) :=
  [("name", a.name), ("type", .text a.type.tag)] ++
  Value.entryIf (!a.isOptional) "optional" (.bool false) ++
  Value.entryIf (!a.default.isNull) "default" code ++
  Value.entryIf a.externalStorage "external_storage" (.bool true) ++
  Value.entryIf a.preservedOnDelete "preserve_on_delete" (.bool true)

/-- The document of an attribute is read back. -/
private theorem AttributeDecl.exists_readAttribute_document (a : AttributeDecl)
    (ordinary : a.default.IsOrdinary) : ∃ d b, a.document = .ok d ∧
      (∀ path, Document.readAttribute path d = .ok b) ∧ a.IsReread b := by
  obtain ⟨code, w, h⟩ := ScalarType.exists_rereads a.typed ordinary
  have typed := h.checkDefault_eq a.typed
  let d := Value.record (a.entries code)
  refine ⟨d, ⟨a.name, a.type, a.isOptional, w, a.externalStorage, a.preservedOnDelete, a.named,
    typed⟩, ?_, fun path ↦ ?_, ⟨rfl, rfl, rfl, ⟨code, h⟩, rfl, rfl⟩⟩
  · rw [document, h.encode_eq]
    rfl
  · have held : ∀ key, d.get? key = ((a.entries code).find? (·.1 = key)).map (·.2) := fun key ↦
      Value.get?_record key _
    have name : d.get? "name" = some a.name := by simp [held, entries]
    have type : d.get? "type" = some (.text a.type.tag) := by simp [held, entries]
    have optional : d.get? "optional" =
        if a.isOptional = true then none else some (.bool a.isOptional) := by
      cases ho : a.isOptional <;> simp [held, entries, Value.find?_entryIf, ho]
    have externalStorage : d.get? "external_storage" =
        if a.externalStorage = false then none else some (.bool a.externalStorage) := by
      cases he : a.externalStorage <;> simp [held, entries, Value.find?_entryIf, he]
    have preservedOnDelete : d.get? "preserve_on_delete" =
        if a.preservedOnDelete = false then none else some (.bool a.preservedOnDelete) := by
      cases hp : a.preservedOnDelete <;> simp [held, entries, Value.find?_entryIf, hp]
    have default : d.get "default" = code := by
      rw [Value.get, held]
      cases absent : a.default.isNull with
      | true => simp [entries, Value.find?_entryIf, absent, h.code_of_isNull absent]
      | false => simp [entries, Value.find?_entryIf, absent]
    have tagged : (Value.text a.type.tag).truthy = true := by cases a.type <;> rfl
    simp only [Document.readAttribute, Success.bind_eq_ok, Document.located_eq_ok, default]
    exact ⟨(), rfl, a.name, Document.require_of_truthy path name a.named, _,
      Document.require_of_truthy path type tagged, a.type, ScalarType.read_tag a.type, w,
      h.decode_eq, a.isOptional, Document.flag_eq_ok optional, a.externalStorage,
      Document.flag_eq_ok externalStorage, a.preservedOnDelete,
      Document.flag_eq_ok preservedOnDelete, make_eq_ok _ a.named typed⟩

/-! ### Relationships -/

/-- The relationship that the document of a relationship declares. -/
def RelationshipDecl.reread (r : RelationshipDecl) : RelationshipDecl :=
  { r with inverse := r.inverse.orElse .null }

/-- The document of a relationship is read back. -/
private theorem RelationshipDecl.readRelationship_document (r : RelationshipDecl) (path : String) :
    Document.readRelationship path r.document = .ok r.reread := by
  have held : ∀ key, r.document.get? key = _ := fun key ↦ Value.get?_record key _
  have name : r.document.get? "name" = some r.name := by simp [held]
  have destination : r.document.get? "destination" = some r.destination := by simp [held]
  have toMany : r.document.get? "to_many" =
      if r.isToMany = false then none else some (.bool r.isToMany) := by
    cases ht : r.isToMany <;> simp [held, Value.find?_entryIf, ht]
  have optional : r.document.get? "optional" =
      if r.isOptional = true then none else some (.bool r.isOptional) := by
    cases ho : r.isOptional <;> simp [held, Value.find?_entryIf, ho]
  have deleteRule : (r.document.get? "delete_rule").getD (.text DeleteRule.nullify.tag) =
      .text r.deleteRule.tag := by
    by_cases hr : r.deleteRule = .nullify <;> simp [held, Value.find?_entryIf, hr]
  have inverse : r.document.get "inverse" = r.inverse.orElse .null := by
    cases hi : r.inverse.truthy <;>
      simp [Value.get, held, Value.find?_entryIf, Value.orElse, hi]
  simp only [Document.readRelationship, Success.bind_eq_ok, Document.located_eq_ok, deleteRule,
    inverse]
  exact ⟨(), rfl, r.deleteRule, DeleteRule.read_tag r.deleteRule, r.name,
    Document.require_of_truthy path name r.named, r.destination,
    Document.require_of_truthy path destination r.directed, r.isToMany,
    Document.flag_eq_ok toMany, r.isOptional, Document.flag_eq_ok optional,
    make_eq_ok _ r.named r.directed⟩

/-! ### Entities -/

namespace Document

private theorem readProperty_attribute {path : String} {d : Value} {a : AttributeDecl}
    (h : ∀ path, readAttribute path d = .ok a) :
    readProperty path (.record [("attribute", d)]) = .ok (.attr a) :=
  (readProperty_eq_ok path _ _).mpr ⟨_, _, d, rfl, .inl ⟨rfl, a, h _, rfl⟩⟩

private theorem readProperty_relationship (path : String) (r : RelationshipDecl) :
    readProperty path (.record [("relationship", r.document)]) = .ok (.rel r.reread) :=
  (readProperty_eq_ok path _ _).mpr
    ⟨_, _, r.document, rfl, .inr ⟨rfl, _, r.readRelationship_document _, rfl⟩⟩

private theorem readProperties_relationships (path : String) (i : Nat)
    (rs : List RelationshipDecl) :
    readProperties path i (rs.map fun r ↦ .record [("relationship", r.document)]) =
      .ok ⟨[], rs.map (·.reread)⟩ := by
  induction rs generalizing i with
  | nil => rfl
  | cons r rs ih =>
    rw [List.map_cons, readProperties, readProperty_relationship, ih]
    rfl

private theorem readProperties_append (path : String) (i : Nat) {ds : List Value}
    {bs : List AttributeDecl}
    (h : List.Forall₂ (fun d b ↦ ∀ path, readAttribute path d = .ok b) ds bs)
    (rs : List RelationshipDecl) :
    readProperties path i (ds.map (fun d ↦ .record [("attribute", d)]) ++
      rs.map fun r ↦ .record [("relationship", r.document)]) = .ok ⟨bs, rs.map (·.reread)⟩ := by
  induction h generalizing i with
  | nil => exact readProperties_relationships path i rs
  | cons hd _ ih =>
    rw [List.map_cons, List.cons_append, readProperties, readProperty_attribute hd, ih]
    rfl

/-- The members of a new list are its members. -/
theorem members_of_list {key : String} {v : Value} {items : List Value}
    (h : v.get key = .list items) : members key v = .ok items := by
  have listed : (Value.list items).items = .ok items :=
    congrArg Except.ok (Value.map_takeOut_of_fresh rfl items)
  rw [members, h, listed]
  cases items <;> rfl

end Document

/-- The entity that the document of an entity declares. -/
structure EntityDecl.IsReread (e f : EntityDecl) : Prop where
  name : f.name = e.name
  attributes : List.Forall₂ AttributeDecl.IsReread e.attributes f.attributes
  relationships : f.relationships = e.relationships.map (·.reread)
  isAbstract : f.isAbstract = e.isAbstract
  boundType : f.boundType = e.boundType.orElse .null
  unique : f.unique = e.unique

/-- The attributes of documents have the names of those that the documents were made of. -/
theorem AttributeDecl.names_of_isReread {as bs : List AttributeDecl}
    (h : List.Forall₂ IsReread as bs) : bs.map (·.name) = as.map (·.name) :=
  Success.map_eq_of_forall₂ h fun _ _ hab ↦ hab.name

private theorem AttributeDecl.exists_readAttribute_documents (as : List AttributeDecl)
    (ordinary : ∀ a ∈ as, a.default.IsOrdinary) : ∃ ds bs, as.mapM (·.document) = .ok ds ∧
      List.Forall₂ (fun d b ↦ ∀ path, Document.readAttribute path d = .ok b) ds bs ∧
      List.Forall₂ IsReread as bs := by
  induction as with
  | nil => exact ⟨[], [], rfl, .nil, .nil⟩
  | cons a as ih =>
    rw [List.forall_mem_cons] at ordinary
    obtain ⟨d, b, hd, hb, hab⟩ := a.exists_readAttribute_document ordinary.1
    obtain ⟨ds, bs, hds, hbs, h⟩ := ih ordinary.2
    refine ⟨d :: ds, b :: bs, ?_, .cons hb hbs, .cons hab h⟩
    rw [List.mapM_cons, hd, hds]
    rfl

/-- The document of an entity whose attributes have documents. -/
def EntityDecl.documentOf (e : EntityDecl) (ds : List Value) : Value :=
  .record <|
    [("name", e.name)] ++
    Value.entryIf e.isAbstract "abstract" (.bool true) ++
    Value.entryIf e.boundType.truthy "bound_type" e.boundType ++
    Value.entryIf (!e.unique.isEmpty) "unique" (.list e.unique) ++
    [("properties",
      .list (ds.map (fun d ↦ .record [("attribute", d)]) ++
        e.relationships.map fun r ↦ .record [("relationship", r.document)]))]

/-- The document of an entity is read back. -/
private theorem EntityDecl.exists_readEntity_document (e : EntityDecl)
    (ordinary : ∀ a ∈ e.attributes, a.default.IsOrdinary) : ∃ d f, e.document = .ok d ∧
      (∀ path, Document.readEntity path d = .ok f) ∧ e.IsReread f := by
  obtain ⟨ds, bs, hds, hbs, hab⟩ :=
    AttributeDecl.exists_readAttribute_documents e.attributes ordinary
  have names : propertyNames bs (e.relationships.map (·.reread)) = e.properties := by
    rw [propertyNames, AttributeDecl.names_of_isReread hab, List.map_map]
    rfl
  have distinct : DistinctNames (propertyNames bs (e.relationships.map (·.reread))) :=
    names ▸ e.distinct
  let d := e.documentOf ds
  refine ⟨d, ⟨e.name, bs, e.relationships.map (·.reread), e.isAbstract,
    e.boundType.orElse .null, e.unique, e.named, distinct⟩,
    (Success.bind_eq_ok _ _ _).mpr ⟨ds, hds, rfl⟩, fun path ↦ ?_, ⟨rfl, hab, rfl, rfl, rfl, rfl⟩⟩
  have held : ∀ key, d.get? key = _ := fun key ↦ Value.get?_record key _
  have name : d.get? "name" = some e.name := by simp [held]
  have isAbstract : d.get? "abstract" =
      if e.isAbstract = false then none else some (.bool e.isAbstract) := by
    cases ha : e.isAbstract <;> simp [held, Value.find?_entryIf, ha]
  have boundType : d.get "bound_type" = e.boundType.orElse .null := by
    cases hb : e.boundType.truthy <;>
      simp [Value.get, held, Value.find?_entryIf, Value.orElse, hb]
  have properties := Document.readProperties_append path 0 hbs e.relationships
  have listed : Document.members "properties" d = .ok _ :=
    Document.members_of_list (by rw [Value.get, held]; simp [Value.find?_entryIf]; rfl)
  have unique : Document.members "unique" d = .ok e.unique := by
    cases hu : e.unique with
    | nil => simp [Document.members, Value.get, held, Value.find?_entryIf, hu]
    | cons u us =>
      apply Document.members_of_list
      simp [Value.get, held, Value.find?_entryIf, hu]
  simp only [Document.readEntity, Success.bind_eq_ok, Success.liftM_eq_ok, boundType]
  exact ⟨(), rfl, e.name, Document.require_of_truthy path name e.named, _, listed, _, properties,
    e.isAbstract, Document.flag_eq_ok isAbstract, e.unique, unique,
    make_eq_ok _ _ _ e.named distinct⟩

/-! ### Models -/

/-- The model that the document of a model declares. -/
structure Model.IsReread (m n : Model) : Prop where
  name : n.name = m.name
  version : n.version = m.version
  entities : List.Forall₂ EntityDecl.IsReread m.entities n.entities

private theorem EntityDecl.exists_readEntities_documents (es : List EntityDecl)
    (ordinary : ∀ e ∈ es, ∀ a ∈ e.attributes, a.default.IsOrdinary) : ∃ ds fs,
      es.mapM (·.document) = .ok ds ∧ (∀ i, Document.readEntities i ds = .ok fs) ∧
      List.Forall₂ IsReread es fs := by
  induction es with
  | nil => exact ⟨[], [], rfl, fun _ ↦ rfl, .nil⟩
  | cons e es ih =>
    rw [List.forall_mem_cons] at ordinary
    obtain ⟨d, f, hd, hf, hef⟩ := e.exists_readEntity_document ordinary.1
    obtain ⟨ds, fs, hds, hfs, h⟩ := ih ordinary.2
    refine ⟨d :: ds, f :: fs, ?_, fun i ↦ ?_, .cons hef h⟩
    · rw [List.mapM_cons, hd, hds]
      rfl
    · rw [Document.readEntities, hf, hfs]
      rfl

/-- The document of a model whose version is an integer is read back. -/
theorem Model.exists_read_document (m : Model) {i : Int} (hversion : m.version.int? = some i)
    (ordinary : ∀ e ∈ m.entities, ∀ a ∈ e.attributes, a.default.IsOrdinary) :
    ∃ d n, m.document = .ok d ∧ Document.read d = .ok n ∧ m.IsReread n := by
  obtain ⟨ds, fs, hds, hfs, h⟩ := EntityDecl.exists_readEntities_documents m.entities ordinary
  let d := Value.record [("name", m.name), ("version", m.version), ("entities", .list ds)]
  refine ⟨d, ⟨m.name, m.version, fs, m.isPositive⟩,
    (Success.bind_eq_ok _ _ _).mpr ⟨ds, hds, rfl⟩, ?_, ⟨rfl, rfl, h⟩⟩
  have held : ∀ key, d.get? key = _ := fun key ↦ Value.get?_record key _
  have name : (d.get? "name").getD Model.defaultName = m.name := by simp [held]
  have version : (d.get? "version").getD Model.defaultVersion = m.version := by simp [held]
  have listed : Document.members "entities" d = .ok ds :=
    Document.members_of_list (by simp [Value.get, held])
  have positive : ∃ i, m.version.int? = some i ∧ 0 < i :=
    ⟨i, hversion, Value.pos_of_int? hversion m.isPositive⟩
  simp only [Document.read, Success.bind_eq_ok, Success.liftM_eq_ok, name]
  exact ⟨(), rfl, ds, listed, fs, hfs 0, m.version,
    (Document.readVersion_eq_ok d m.version).mpr ⟨positive, version⟩,
    Document.make_eq_ok m.name fs m.isPositive⟩

end EntityGraph
