import EntityGraph.Proofs.ReadBack.Contents
import EntityGraph.Proofs.ReadBack.Equality
import EntityGraph.Proofs.Relisted

/-!
# Documents with a form

A notation has forms for some values, and a document has a form in it if the defaults have one. The
document of a model with an anonymous version and anonymous defaults is the anonymous document. So
what is read from the form of the anonymous document is equal to the model, unless a moment loses
its offset from universal time.
-/

namespace EntityGraph

/-! ### Values with a form -/

/-- The keys of documents. -/
def Document.keys : List String :=
  ["name", "version", "entities", "abstract", "bound_type", "unique", "properties", "attribute",
    "relationship", "type", "optional", "default", "external_storage", "preserve_on_delete",
    "destination", "to_many", "delete_rule", "inverse"]

/-- Documents can be built from the values that have a form: from atoms on every level, from lists
of what has a form on the level below, and from mappings of it. -/
structure Document.AreForms (Q : Nat → Value → Prop) : Prop where
  null : ∀ n, Q n .null
  bool : ∀ n b, Q n (.bool b)
  text : ∀ n s, Q n (.text s)
  list : ∀ n vs, (∀ v ∈ vs, Q n v) → Q (n + 1) (.list vs)
  record : ∀ n (es : List (String × Value)), (es.map (·.1)).Nodup → (∀ e ∈ es, e.1 ∈ keys) →
    (∀ e ∈ es, Q n e.2) → Q (n + 1) (.record es)

/-- Values that are one integer are equal. -/
theorem Value.equals_of_int? {v w : Value} {i : Int} (hv : v.int? = some i) (hw : w.int? = some i) :
    v.equals w = true := by
  obtain ⟨id, rfl⟩ := exists_eq_of_int? hv
  obtain ⟨jd, rfl⟩ := exists_eq_of_int? hw
  have self : (Atom.int i).equals (.int i) = true := Atom.equals_self rfl
  simp [equals, same, isNaN, Atom.isNaN, self]

/-- What is a text has a form. -/
theorem Document.AreForms.of_isText {Q : Nat → Value → Prop} (forms : AreForms Q) (n : Nat)
    {v : Value} (h : v.IsText) : Q n v := by
  obtain ⟨s, rfl⟩ := h
  exact forms.text n s

/-- A default is as callers have it and no number that is none, and has a form where it is not
encoded in a text. -/
structure AttributeDecl.HasFormIn (P : Value → Prop) (a : AttributeDecl) : Prop where
  ordinary : a.default.IsOrdinary
  number : a.default.isNaN = false
  form : a.type.isEncoded = false → P a.default

/-- An entity is declared in texts, names no inverse and no bound type by an empty text, and has
defaults that have a form. -/
structure EntityDecl.HasFormIn (P : Value → Prop) (e : EntityDecl) : Prop where
  textual : e.IsTextual
  attributes : ∀ a ∈ e.attributes, a.HasFormIn P
  inverse : ∀ r ∈ e.relationships, r.inverse.isNull = true ∨ r.inverse.truthy = true
  boundType : e.boundType.isNull = true ∨ e.boundType.truthy = true

/-- An entity that has a form has another one if its defaults have. -/
theorem EntityDecl.HasFormIn.of_default {P Q : Value → Prop} {e : EntityDecl} (h : e.HasFormIn P)
    (form : ∀ a ∈ e.attributes, a.type.isEncoded = false → Q a.default) : e.HasFormIn Q :=
  { h with attributes := fun a ha ↦ { h.attributes a ha with form := form a ha } }

namespace ScalarType.Rereads

variable {type : ScalarType} {v code w : Value} (h : type.Rereads v code w)

include h

private theorem code_hasForm {Q : Nat → Value → Prop} (forms : Document.AreForms Q) {n : Nat}
    (form : type.isEncoded = false → Q n v) : Q n code := by
  cases h with
  | absent => exact forms.null n
  | kept _ _ _ plain => exact form plain
  | _ => exact forms.text n _

/-- The content of a default is encoded and read as the default is. -/
theorem anonymous : type.Rereads v.anonymous code.anonymous w.anonymous := by
  cases h with
  | absent => exact .absent type
  | kept _ _ some plain => exact .kept type _ ((Value.isNull_anonymous v).trans some) plain
  | date id d => exact .date .fresh d
  | moment id m => exact .moment .fresh m
  | bytes id growable content => exact .bytes .fresh growable content
  | uuid id u => exact .uuid .fresh u
  | decimal id d range => exact .decimal .fresh d range
  | int id i short => exact .int .fresh i short

private theorem anonymous_eq (anonymous : v.anonymous = v) : w.anonymous = w := by
  cases h with
  | kept => exact anonymous
  | _ => rfl

end ScalarType.Rereads

namespace Value

variable (condition : Bool) (key : String) (v : Value)

/-- An entry that is written under a condition becomes anonymous. -/
theorem map_entryIf : (entryIf condition key v).map (fun e ↦ (e.1, e.2.anonymous)) =
    entryIf condition key v.anonymous := by
  cases condition <;> rfl

/-- What counts as true and is absent or a text is a text. -/
theorem isText_of_truthy {v : Value} (h : v.isNull = true ∨ v.IsText) (some : v.truthy = true) :
    v.IsText := by
  cases h with
  | inl absent => rw [truthy_of_isNull absent] at some; cases some
  | inr text => exact text

/-- An entry of a text that is left out where it is absent or empty is anonymous. -/
theorem entryIf_anonymous {v : Value} (h : v.isNull = true ∨ v.IsText) (key : String) :
    entryIf v.truthy key v.anonymous = entryIf v.truthy key v := by
  cases some : v.truthy with
  | false => rfl
  | true => rw [(isText_of_truthy h some).anonymous_eq]

end Value

/-- Entries under some of the keys that are listed, in their order, with values that have a form. -/
structure Document.AreEntries (P : Value → Prop) (listed : List String)
    (es : List (String × Value)) : Prop where
  keys : (es.map (·.1)).Sublist listed
  values : ∀ e ∈ es, P e.2

namespace Document.AreEntries

variable {P : Value → Prop} {listed : List String} {es : List (String × Value)} {v : Value}

/-- An entry is under its key. -/
theorem single (key : String) (form : P v) : AreEntries P [key] [(key, v)] :=
  ⟨List.Sublist.refl _, List.forall_mem_singleton.mpr form⟩

/-- Another entry is under another key. -/
theorem concat (h : AreEntries P listed es) (key : String) (form : P v) :
    AreEntries P (listed ++ [key]) (es ++ [(key, v)]) where
  keys := by
    rw [List.map_append]
    exact h.keys.append (List.Sublist.refl _)
  values := List.forall_mem_append.mpr ⟨h.values, List.forall_mem_singleton.mpr form⟩

/-- An entry that is written under a condition has a form if it has one under the condition. -/
theorem entryIf (h : AreEntries P listed es) {condition : Bool} {key : String}
    (form : condition = true → P v) :
    AreEntries P (listed ++ [key]) (es ++ Value.entryIf condition key v) := by
  cases condition with
  | true => exact h.concat key (form rfl)
  | false =>
    rw [Value.entryIf, if_neg Bool.false_ne_true, List.append_nil]
    exact ⟨h.keys.trans (List.sublist_append_left _ _), h.values⟩

/-- A mapping of such entries has a form if the listed keys are different keys of documents. -/
theorem record {Q : Nat → Value → Prop} (forms : AreForms Q) {n : Nat}
    (h : AreEntries (Q n) listed es) (distinct : listed.Nodup)
    (known : ∀ key ∈ listed, key ∈ Document.keys) : Q (n + 1) (.record es) :=
  forms.record n es (h.keys.nodup distinct)
    (fun e he ↦ known e.1 (h.keys.subset (List.mem_map_of_mem he))) h.values

end Document.AreEntries

/-! ### Documents of declarations -/

/-- The entries of an anonymous attribute are those of the attribute, made anonymous. -/
theorem AttributeDecl.entries_anonymous {a : AttributeDecl} (name : a.name.IsText) (code : Value) :
    (a.entries code).map (fun e ↦ (e.1, e.2.anonymous)) =
      a.anonymous.entries code.anonymous := by
  simp [entries, anonymous, Value.map_entryIf, name.anonymous_eq]

private theorem RelationshipDecl.document_anonymous {r : RelationshipDecl} (h : r.IsTextual) :
    r.document.anonymous = r.document := by
  rw [document, Value.anonymous_record]
  simp [Value.map_entryIf, h.name.anonymous_eq, h.destination.anonymous_eq,
    Value.entryIf_anonymous h.inverse]

/-- The document of an anonymous entity is that of the entity, made anonymous. -/
theorem EntityDecl.documentOf_anonymous (e : EntityDecl) (texts : e.IsTextual) (ds : List Value) :
    e.anonymous.documentOf (ds.map (·.anonymous)) = (e.documentOf ds).anonymous := by
  have unique : e.unique.map Value.anonymous = e.unique :=
    (List.map_congr_left fun n hn ↦ (texts.unique n hn).anonymous_eq).trans (List.map_id _)
  have relationships : e.relationships.map (fun r ↦
      Value.record [("relationship", r.document.anonymous)]) =
      e.relationships.map fun r ↦ .record [("relationship", r.document)] := by
    apply List.map_congr_left
    intro r hr
    rw [RelationshipDecl.document_anonymous (texts.relationships r hr)]
  simp only [documentOf, anonymous, Value.anonymous_record, Value.anonymous_list,
    List.map_append, List.map_singleton, List.map_map, Value.map_entryIf, Value.anonymous_bool,
    texts.name.anonymous_eq, Value.entryIf_anonymous texts.boundType, unique, Function.comp_def,
    relationships]

section Documents

variable {Q : Nat → Value → Prop} (forms : Document.AreForms Q) {n : Nat}

include forms

/-- The document of an attribute has a form, and the anonymous document is that of the anonymous
attribute. -/
private theorem AttributeDecl.exists_document_anonymous {a : AttributeDecl} (name : a.name.IsText)
    (h : a.HasFormIn (Q n)) : ∃ d, a.document = .ok d ∧ Q (n + 1) d ∧
      a.anonymous.document = .ok d.anonymous := by
  obtain ⟨code, w, reread⟩ := ScalarType.exists_rereads a.typed h.ordinary
  have form : Q (n + 1) (Value.record (a.entries code)) := by
    have front := (Document.AreEntries.single "name" (forms.of_isText n name)).concat
      "type" (forms.text n a.type.tag)
    apply Document.AreEntries.record forms
    · exact (((front.entryIf fun _ ↦ forms.bool n false).entryIf
        fun _ ↦ reread.code_hasForm forms h.form).entryIf fun _ ↦ forms.bool n true).entryIf
        fun _ ↦ forms.bool n true
    · decide
    · decide
  have written : a.anonymous.type.encode a.anonymous.default = .ok code.anonymous :=
    reread.anonymous.encode_eq
  refine ⟨.record (a.entries code), ?_, form, ?_⟩
  · rw [document, reread.encode_eq]
    rfl
  · rw [Value.anonymous_record, entries_anonymous name, document, written]
    rfl

/-- The document of a relationship has a form. -/
theorem RelationshipDecl.hasForm_document (n : Nat) {r : RelationshipDecl} (h : r.IsTextual) :
    Q (n + 1) r.document := by
  have front := (Document.AreEntries.single "name" (forms.of_isText n h.name)).concat
    "destination" (forms.of_isText n h.destination)
  apply Document.AreEntries.record forms
  · exact (((front.entryIf fun _ ↦ forms.bool n true).entryIf
      fun _ ↦ forms.bool n false).entryIf fun _ ↦ forms.text n r.deleteRule.tag).entryIf
      fun some ↦ forms.of_isText n (Value.isText_of_truthy h.inverse some)
  · decide
  · decide

omit forms in
/-- Documents of members have a form, and the anonymous documents are those of the anonymous
members, if it is so for each of them. -/
theorem Document.exists_mapM_anonymous {α : Type} {P : Value → Prop}
    (document : α → Except Fault Value) (anonymous : α → α) {as : List α}
    (h : ∀ a ∈ as, ∃ d, document a = .ok d ∧ P d ∧ document (anonymous a) = .ok d.anonymous) :
    ∃ ds, as.mapM document = .ok ds ∧ (∀ d ∈ ds, P d) ∧
      (as.map anonymous).mapM document = .ok (ds.map (·.anonymous)) := by
  induction as with
  | nil => exact ⟨[], rfl, List.forall_mem_nil _, rfl⟩
  | cons a as ih =>
    rw [List.forall_mem_cons] at h
    obtain ⟨d, hd, form, hda⟩ := h.1
    obtain ⟨ds, hds, forms, hdsa⟩ := ih h.2
    refine ⟨d :: ds, ?_, List.forall_mem_cons.mpr ⟨form, forms⟩, ?_⟩
    · rw [List.mapM_cons, hd, hds]
      rfl
    · rw [List.map_cons, List.mapM_cons, hda, hdsa]
      rfl

/-- The document of an entity has a form, and the anonymous document is that of the anonymous
entity. -/
private theorem EntityDecl.exists_document_anonymous {e : EntityDecl} (h : e.HasFormIn (Q n)) :
    ∃ d, e.document = .ok d ∧ Q (n + 4) d ∧ e.anonymous.document = .ok d.anonymous := by
  have texts := h.textual
  obtain ⟨ds, hds, members, hdsa⟩ := Document.exists_mapM_anonymous AttributeDecl.document
    AttributeDecl.anonymous fun a ha ↦
    AttributeDecl.exists_document_anonymous forms (texts.attributes a ha) (h.attributes a ha)
  have wrapped : ∀ key ∈ ["attribute", "relationship"], ∀ d, Q (n + 1) d →
      Q (n + 2) (.record [(key, d)]) := fun key hkey d form ↦
    (Document.AreEntries.single key form).record forms (List.nodup_singleton key)
      (List.forall_mem_singleton.mpr ((by decide :
        ∀ key ∈ ["attribute", "relationship"], key ∈ Document.keys) key hkey))
  have properties : ∀ d ∈ ds.map (fun d ↦ Value.record [("attribute", d)]) ++
      e.relationships.map fun r ↦ .record [("relationship", r.document)], Q (n + 2) d := by
    rw [List.forall_mem_append, List.forall_mem_map, List.forall_mem_map]
    exact ⟨fun d hd ↦ wrapped _ (by decide) d (members d hd), fun r hr ↦ wrapped _ (by decide) _
      (RelationshipDecl.hasForm_document forms n (texts.relationships r hr))⟩
  refine ⟨e.documentOf ds, ?_, ?_, ?_⟩
  · rw [document, hds]
    rfl
  · have front := Document.AreEntries.single "name" (forms.of_isText (n + 3) texts.name)
    apply Document.AreEntries.record forms
    · exact (((front.entryIf fun _ ↦ forms.bool (n + 3) true).entryIf fun some ↦
        forms.of_isText (n + 3) (Value.isText_of_truthy texts.boundType some)).entryIf fun _ ↦
        forms.list (n + 2) _ fun u hu ↦ forms.of_isText (n + 2) (texts.unique u hu)).concat
        "properties" (forms.list (n + 2) _ properties)
    · decide
    · decide
  · rw [← e.documentOf_anonymous texts, document]
    show (List.mapM AttributeDecl.document (e.attributes.map AttributeDecl.anonymous) >>= _) = _
    rw [hdsa]
    rfl

/-- The document of a model has a form, and the anonymous document is that of the anonymous
model. -/
theorem Model.exists_document_anonymous {m : Model} (version : Q (n + 5) m.version)
    (name : m.name.IsText) (h : ∀ e ∈ m.entities, e.HasFormIn (Q n)) :
    ∃ es : List (String × Value), m.document = .ok (.record es) ∧ es ≠ [] ∧ Q (n + 6) (.record es) ∧
      m.anonymous.document = .ok (Value.record es).anonymous := by
  obtain ⟨ds, hds, members, hdsa⟩ := Document.exists_mapM_anonymous EntityDecl.document
    EntityDecl.anonymous fun e he ↦ EntityDecl.exists_document_anonymous forms (h e he)
  refine ⟨[("name", m.name), ("version", m.version), ("entities", .list ds)], ?_,
    List.cons_ne_nil _ _, ?_, ?_⟩
  · rw [document, hds]
    rfl
  · have front := (Document.AreEntries.single "name" (forms.of_isText (n + 5) name)).concat
      "version" version
    apply Document.AreEntries.record forms (front.concat "entities" (forms.list (n + 4) _ members))
    · decide
    · decide
  · rw [document]
    show (List.mapM EntityDecl.document (m.entities.map EntityDecl.anonymous) >>= _) = _
    rw [hdsa, Value.anonymous_record]
    simp only [List.map_cons, List.map_nil, name.anonymous_eq, Value.anonymous_list]
    rfl

end Documents

/-! ### Parts of documents -/

section Parts

variable {P : Value → Prop} {d : Value}

/-- What a mapping holds is a part of it. -/
theorem Value.every_of_record {es : List (String × Value)} (h : (Value.record es).Every P)
    {e : String × Value} (he : e ∈ es) : e.2.Every P :=
  ((everyEntry_iff _).mp h.2 (.text e.1, e.2) (List.mem_map_of_mem he)).2

/-- The members of a list are parts of it. -/
theorem Value.every_of_list {vs : List Value} (h : (Value.list vs).Every P) {v : Value}
    (hv : v ∈ vs) : v.Every P :=
  (everyMember_iff vs).mp h.2 v hv

private theorem ScalarType.encode_eq_self {type : ScalarType} {v : Value} (some : v.isNull = false)
    (plain : type.isEncoded = false) : type.encode v = .ok v := by
  cases type <;> simp [encode, some, isEncoded] at plain ⊢

variable (absent : ∀ id, P (.atom id .null))

include absent

/-- A default that is not encoded is a part of the document of its attribute, or absent. -/
private theorem AttributeDecl.every_default {a : AttributeDecl} (hd : a.document = .ok d)
    (parts : d.Every P) (plain : a.type.isEncoded = false) : a.default.Every P := by
  obtain ⟨code, hcode, rfl⟩ : ∃ code, a.type.encode a.default = .ok code ∧
      Value.record (a.entries code) = d := by
    obtain ⟨code, hcode, written⟩ := (Success.bind_eq_ok _ _ _).mp hd
    exact ⟨code, hcode, Except.ok.inj written⟩
  cases null : a.default.isNull with
  | true =>
    unfold Value.isNull at null
    split at null
    · next id h =>
      rw [h]
      exact absent id
    · cases null
  | false =>
    obtain rfl : a.default = code :=
      Except.ok.inj ((ScalarType.encode_eq_self null plain).symm.trans hcode)
    refine Value.every_of_record parts (e := ("default", a.default)) ?_
    simp [entries, Value.entryIf, null]

private theorem EntityDecl.every_default {e : EntityDecl} (hd : e.document = .ok d)
    (parts : d.Every P) :
    ∀ a ∈ e.attributes, a.type.isEncoded = false → a.default.Every P := by
  intro a ha
  obtain ⟨ds, hds, written⟩ := (Success.bind_eq_ok _ _ _).mp hd
  obtain rfl : e.documentOf ds = d := Except.ok.inj written
  obtain ⟨c, hc, hac⟩ := Success.exists_of_forall₂ ((Success.mapM_eq_ok _ _ _).mp hds) ha
  have properties := Value.every_of_record parts (e := ("properties", _))
    (List.mem_append_right _ (List.mem_singleton_self _))
  have wrapped := Value.every_of_list properties
    (List.mem_append_left _ (List.mem_map_of_mem hc))
  exact AttributeDecl.every_default absent hac
    (Value.every_of_record wrapped (List.mem_singleton_self _))

/-- A default that is not encoded is a part of the document of its model, or absent. -/
theorem Model.every_default {m : Model} (hd : m.document = .ok d) (parts : d.Every P) :
    ∀ e ∈ m.entities, ∀ a ∈ e.attributes, a.type.isEncoded = false → a.default.Every P := by
  intro e he
  obtain ⟨ds, hds, written⟩ := (Success.bind_eq_ok _ _ _).mp hd
  obtain rfl := Except.ok.inj written
  obtain ⟨c, hc, hec⟩ := Success.exists_of_forall₂ ((Success.mapM_eq_ok _ _ _).mp hds) he
  have entities := Value.every_of_record parts (e := ("entities", .list ds)) (by simp)
  exact EntityDecl.every_default absent hec (Value.every_of_list entities hc)

end Parts

/-! ### Comparisons -/

/-- An attribute is declared as another is, but for a default that is made of other objects, and in
which sets may list their members in other orders. -/
structure AttributeDecl.Relists (a b : AttributeDecl) : Prop where
  name : b.name = a.name
  type : b.type = a.type
  isOptional : b.isOptional = a.isOptional
  default : a.default.IsRelisted b.default
  externalStorage : b.externalStorage = a.externalStorage
  preservedOnDelete : b.preservedOnDelete = a.preservedOnDelete

/-- An attribute is declared as the anonymous one is. -/
theorem AttributeDecl.relists_anonymous (a : AttributeDecl) : a.Relists a.anonymous :=
  ⟨rfl, rfl, rfl, Value.isRelisted_of_anonymous_eq a.default.anonymous_anonymous, rfl, rfl⟩

private theorem AttributeDecl.Relists.compare {a b c : AttributeDecl} (h : a.Relists b)
    (anonymous : c.default.anonymous = c.default) :
    c.same b = c.same a ∧ c.endless b = c.endless a := by
  have same := Value.same_of_isRelisted c.default h.default
  have endless := Value.endless_of_isRelisted c.default h.default
  rw [anonymous] at same endless
  constructor
  · rw [AttributeDecl.same, AttributeDecl.same, same, h.name, h.type, h.isOptional,
      h.externalStorage, h.preservedOnDelete]
  · rw [AttributeDecl.endless, AttributeDecl.endless, endless, h.name, h.type, h.isOptional]

/-- Lists are compared with related ones alike, if it is so for each member. -/
theorem compareLists_congr {α : Type} {R : α → α → Prop} (same endless : α → α → Bool)
    {as bs cs : List α} (h : List.Forall₂ R as bs)
    (step : ∀ c ∈ cs, ∀ a b, R a b → same c b = same c a ∧ endless c b = endless c a) :
    sameLists same cs bs = sameLists same cs as ∧
      endlessLists same endless cs bs = endlessLists same endless cs as := by
  induction cs generalizing as bs with
  | nil => cases h <;> exact ⟨rfl, rfl⟩
  | cons c cs ih =>
    rw [List.forall_mem_cons] at step
    cases h with
    | nil => exact ⟨rfl, rfl⟩
    | cons hab rest =>
      obtain ⟨first, first'⟩ := step.1 _ _ hab
      obtain ⟨others, others'⟩ := ih rest step.2
      simp only [sameLists, endlessLists, first, first', others, others', and_self]

private theorem EntityDecl.compare_relists {e f g : EntityDecl}
    (h : e.Alters AttributeDecl.Relists f)
    (anonymous : ∀ c ∈ g.attributes, c.default.anonymous = c.default) :
    g.same f = g.same e ∧ g.endless f = g.endless e := by
  obtain ⟨same, endless⟩ := compareLists_congr AttributeDecl.same AttributeDecl.endless h.attributes
    fun c hc _ _ hab ↦ hab.compare (anonymous c hc)
  constructor
  · rw [EntityDecl.same, EntityDecl.same, same, h.name, h.relationships, h.isAbstract, h.boundType,
      h.unique]
  · rw [EntityDecl.endless, EntityDecl.endless, endless, h.name, h.attributes.length_eq]

/-- What has anonymous defaults is compared with the entities of models alike whose defaults are
relisted. -/
theorem Model.compareEntities_relists {m m' n : Model}
    (h : List.Forall₂ (EntityDecl.Alters AttributeDecl.Relists) m.entities m'.entities)
    (anonymous : ∀ g ∈ n.entities, ∀ c ∈ g.attributes, c.default.anonymous = c.default) :
    n.compareEntities m' = n.compareEntities m := by
  obtain ⟨same, endless⟩ := compareLists_congr EntityDecl.same EntityDecl.endless h
    fun g hg _ _ hef ↦ EntityDecl.compare_relists hef (anonymous g hg)
  rw [compareEntities, compareEntities, sameEntities, sameEntities, endlessEntities,
    endlessEntities, same, endless, h.length_eq]

/-- The entities of a model are declared as the anonymous ones are. -/
theorem Model.relists_anonymous (m : Model) :
    List.Forall₂ (EntityDecl.Alters AttributeDecl.Relists) m.entities m.anonymous.entities :=
  List.forall₂_map_right_iff.mpr <| List.forall₂_same.mpr fun _ _ ↦
    ⟨rfl, rfl, rfl, rfl, rfl, List.forall₂_map_right_iff.mpr <| List.forall₂_same.mpr fun a _ ↦
      a.relists_anonymous⟩

/-! ### Declarations that can be recovered -/

/-- The texts of an entity are those of its content. -/
theorem EntityDecl.isTextual_anonymous (e : EntityDecl) (h : e.IsTextual) :
    e.anonymous.IsTextual where
  name := h.name
  attributes := List.forall_mem_map.mpr h.attributes
  relationships := h.relationships
  boundType := h.boundType
  unique := h.unique

/-- A default stays as callers have it. -/
theorem Value.isOrdinary_anonymous {v : Value} (h : v.IsOrdinary) : v.anonymous.IsOrdinary := by
  cases v with
  | atom id a =>
    cases a with
    | null => rfl
    | _ => exact h
  | _ => trivial

private theorem AttributeDecl.Relists.hasLongOffset_iff {a b : AttributeDecl} (h : a.Relists b) :
    b.HasLongOffset ↔ a.HasLongOffset := by
  have default : b.default.HasLongOffset ↔ a.default.HasLongOffset := by
    refine h.default.shape (fun _ _ c ↦ ?_) ?_ ?_ ?_
    · cases c <;> rfl
    all_goals
      intros
      rfl
  rw [HasLongOffset, HasLongOffset, h.type, default]

/-- The defaults of a model keep their offsets exactly if they do where they are relisted. -/
theorem Model.hasLongOffset_relists {m m' : Model}
    (h : List.Forall₂ (EntityDecl.Alters AttributeDecl.Relists) m.entities m'.entities) :
    (∀ e ∈ m'.entities, ∀ a ∈ e.attributes, a.HasLongOffset) ↔
      ∀ e ∈ m.entities, ∀ a ∈ e.attributes, a.HasLongOffset :=
  Success.forall_mem_iff h fun _ _ hef ↦
    Success.forall_mem_iff hef.attributes fun _ _ hab ↦ hab.hasLongOffset_iff

private theorem ScalarType.Rereads.isKnown_anonymous {P : Value → Prop} {type : ScalarType}
    {v code w : Value} (h : type.Rereads v code w) (known : ∀ v, P v → v.anonymous.IsKnown)
    (form : type.isEncoded = false → P v) (number : v.isNaN = false) : v.anonymous.IsKnown := by
  cases h with
  | kept _ _ _ plain => exact known v (form plain)
  | decimal id d range =>
    intro elusive
    cases number.symm.trans elusive
  | _ => rintro ⟨⟩

section Recoverable

variable {P : Value → Prop} (known : ∀ v, P v → v.anonymous.IsKnown)

include known

private theorem AttributeDecl.HasFormIn.isRecoverable {a : AttributeDecl} (h : a.HasFormIn P) :
    a.anonymous.IsRecoverable := by
  obtain ⟨code, w, reread⟩ := ScalarType.exists_rereads a.typed h.ordinary
  exact ⟨Value.isOrdinary_anonymous h.ordinary, reread.isKnown_anonymous known h.form h.number,
    (Value.isNaN_anonymous a.default).trans h.number⟩

private theorem EntityDecl.HasFormIn.isRecoverable {e : EntityDecl} (h : e.HasFormIn P) :
    e.anonymous.IsRecoverable where
  textual := e.isTextual_anonymous h.textual
  attributes := List.forall_mem_map.mpr fun a ha ↦ (h.attributes a ha).isRecoverable known
  inverse := h.inverse
  boundType := h.boundType

end Recoverable

private theorem Value.isText_orElse_null {v : Value} (h : v.isNull = true ∨ v.IsText) :
    (v.orElse .null).isNull = true ∨ (v.orElse .null).IsText := by
  rw [orElse]
  split
  · exact h
  · exact .inl rfl

/-- What an entity that is declared in texts is read as is declared in texts. -/
theorem EntityDecl.IsReread.isTextual {e f : EntityDecl} (h : e.IsReread f) (texts : e.IsTextual) :
    f.IsTextual where
  name := h.name ▸ texts.name
  attributes b hb := by
    obtain ⟨a, ha, hab⟩ := Success.exists_of_forall₂ h.attributes.flip hb
    exact hab.name ▸ texts.attributes a ha
  relationships := by
    rw [h.relationships, List.forall_mem_map]
    intro r hr
    have textual := texts.relationships r hr
    exact ⟨textual.name, textual.destination, Value.isText_orElse_null textual.inverse⟩
  boundType := h.boundType ▸ Value.isText_orElse_null texts.boundType
  unique := h.unique ▸ texts.unique

/-- What is read from an anonymous document has anonymous defaults. -/
theorem Model.IsReread.default_anonymous {m n : Model} (h : m.anonymous.IsReread n) :
    ∀ f ∈ n.entities, ∀ b ∈ f.attributes, b.default.anonymous = b.default := by
  intro f hf b hb
  obtain ⟨e, he, hef⟩ := Success.exists_of_forall₂ h.entities.flip hf
  obtain ⟨e, -, rfl⟩ := List.mem_map.mp he
  obtain ⟨a, ha, hab⟩ := Success.exists_of_forall₂ hef.attributes.flip hb
  obtain ⟨a, -, rfl⟩ := List.mem_map.mp ha
  obtain ⟨code, reread⟩ := hab.default
  exact reread.anonymous_eq a.default.anonymous_anonymous

namespace Model

variable {m : Model} {P : Value → Prop} (form : ∀ e ∈ m.entities, e.HasFormIn P)
  (known : ∀ v, P v → v.anonymous.IsKnown)

include form known

/-- The entities of a model read from its anonymous document can be compared with those of the
model, and are equal unless a default loses its offset. -/
theorem IsReread.exists_compareEntities_of_hasForm {n : Model} (h : m.anonymous.IsReread n) :
    ∃ b, n.compareEntities m = .ok b ∧
      (b = true ↔ ∀ e ∈ m.entities, ∀ a ∈ e.attributes, a.HasLongOffset) := by
  have recoverable : ∀ e ∈ m.anonymous.entities, e.IsRecoverable :=
    List.forall_mem_map.mpr fun e he ↦ (form e he).isRecoverable known
  obtain ⟨b, hb, hiff⟩ := h.exists_compareEntities recoverable
  rw [compareEntities_relists m.relists_anonymous h.default_anonymous] at hb
  exact ⟨b, hb, hiff.trans (hasLongOffset_relists m.relists_anonymous)⟩

omit known in
/-- The anonymous document of a model is read as what the model declares. -/
theorem exists_read_anonymous {i : Int} (version : m.version.int? = some i) :
    ∃ c n, m.anonymous.document = .ok c ∧ Document.read c = .ok n ∧ m.anonymous.IsReread n := by
  have ordinary : ∀ e ∈ m.anonymous.entities, ∀ a ∈ e.attributes, a.default.IsOrdinary := by
    simp only [anonymous, EntityDecl.anonymous, List.forall_mem_map]
    exact fun e he a ha ↦ Value.isOrdinary_anonymous ((form e he).attributes a ha).ordinary
  exact m.anonymous.exists_read_document ((Value.int?_anonymous m.version).trans version) ordinary

end Model

end EntityGraph
