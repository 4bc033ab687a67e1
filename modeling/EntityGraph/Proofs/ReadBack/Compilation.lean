import EntityGraph.Proofs.Coherence
import EntityGraph.Proofs.ReadBack.Equality
import EntityGraph.Proofs.ReadBack.Findings

/-!
# Models read back compile alike

A model and what its document is read as are compiled side by side, each on a host of its own; the
hosts copy the objects in the defaults alike and use the same words. Each stage of compilation fails
alike for both or goes on with what has the same view and the same findings, but for one: where a
relationship names its inverse by the empty text, that inverse is unknown, and it is not written.
-/

namespace EntityGraph

open Success

/-- A failure reports that a relationship among some names an inverse which is the empty text and
is unknown. -/
def Links.ReportsEmptyInverse (ps : List (EntityDecl × RelationshipDecl)) (f : Failure) : Prop :=
  ∃ p ∈ ps, p.2.inverse = .text "" ∧
    f = (SchemaError.unknownInverse p.1.name p.2.name (.text "") p.2.destination).failure

/-- An entity of texts whose defaults keep their offsets is read back as another. -/
structure EntityDecl.IsKept (e f : EntityDecl) : Prop where
  reread : e.IsReread f
  textual : e.IsTextual
  long : ∀ a ∈ e.attributes, a.HasLongOffset

variable {P : Failure → Prop} {host host' : Host}

/-! ### Attributes -/

section Attributes

variable {a b : AttributeDecl} (h : a.IsReread b) (long : a.HasLongOffset)

include h long

omit long in
private theorem AttributeDecl.view_eq (entity : Value) {c d : Value}
    (default : a.type.viewOf d = a.type.viewOf c) :
    (b.attribute entity d).view = (a.attribute entity c).view := by
  simp only [Attribute.view, AttributeDecl.attribute, h.name, h.type, h.isOptional,
    h.externalStorage, h.preservedOnDelete, default]

/-- An attribute read back is copied alike. -/
private theorem Schema.attributeOf_alike (entity : Value) (alike : a.default.Every
      (Value.CopiesAlike (host.copier entity a.name) (host'.copier entity a.name))) :
    Alike P (fun s t ↦ t.view = s.view) (attributeOf host entity a)
      (attributeOf host' entity b) := by
  obtain ⟨code, hd⟩ := h.default
  rw [attributeOf, attributeOf, AttributeDecl.copyDefault, AttributeDecl.copyDefault, h.type]
  cases hidden : a.type.isOpaque with
  | false => exact .ok (AttributeDecl.view_eq h entity (hd.viewOf_eq long))
  | true =>
    simp only [hd.eq_of_isOpaque hidden, h.name, ← Value.deepCopy_congr alike, if_true]
    cases a.default.deepCopy (host.copier entity a.name) with
    | ok c => exact .ok (AttributeDecl.view_eq h entity rfl)
    | error f =>
      dsimp only
      split
      · exact .error _
      · exact .error _

end Attributes

/-! ### Entities -/

namespace Schema

/-- The attributes of an entity read back succeed alike. -/
private theorem skeleton_alike {e f : EntityDecl} (h : e.IsKept f)
    (alike : ∀ a ∈ e.attributes, a.default.Every
      (Value.CopiesAlike (host.copier e.name a.name) (host'.copier e.name a.name))) :
    Alike P (fun x y ↦ x.1.IsKept y.1 ∧ List.Forall₂ (fun s t ↦ t.view = s.view) x.2 y.2)
      (skeleton host e) (skeleton host' f) := by
  have members : List.Forall₂ (fun a b ↦ a ∈ e.attributes ∧ a.IsReread b) e.attributes
      f.attributes := (List.forall₂_and_left _ _).mpr ⟨fun _ ha ↦ ha, h.reread.attributes⟩
  have attributes : Alike P (List.Forall₂ fun s t ↦ t.view = s.view)
      (e.attributes.mapM (attributeOf host e.name))
      (f.attributes.mapM (attributeOf host' e.name)) :=
    .mapM members fun a _ hab ↦ attributeOf_alike hab.2 (h.long a hab.1) e.name (alike a hab.1)
  have unique := checkUnique_congr h.reread.name
    (AttributeDecl.names_of_isReread h.reread.attributes) e.unique
  rw [skeleton, skeleton, h.reread.name, h.reread.unique, unique]
  refine attributes.bind ?_
  intro as bs hab
  exact .bind_same _ fun _ ↦ .ok ⟨h, hab⟩

end Schema

/-! ### Links -/

namespace Links

private theorem rel_find?_of_isKept {es fs : List EntityDecl}
    (h : List.Forall₂ EntityDecl.IsKept es fs) (name : Value) :
    Option.Rel EntityDecl.IsKept (EntityDecl.find? es name) (EntityDecl.find? fs name) :=
  rel_find? h fun _ _ hef ↦ by rw [hef.reread.name]

private theorem member?_eq {e f : EntityDecl} (h : e.IsKept f) (name : Value) :
    f.member? name = (e.member? name).map (·.reread) := by
  rw [EntityDecl.member?, EntityDecl.member?, h.reread.relationships, List.find?_map]
  rfl

private theorem member?_empty {e : EntityDecl} (texts : e.IsTextual) :
    e.member? (.text "") = Option.none := by
  rw [EntityDecl.member?, List.find?_eq_none]
  intro r hr same
  have empty := ((texts.relationships r hr).name.same_iff ⟨"", rfl⟩).mp same
  have named := r.named
  rw [empty] at named
  cases named

section Linking

variable {es fs : List EntityDecl} (h : List.Forall₂ EntityDecl.IsKept es fs)

include h

/-- A relationship and what it is read back as are linked alike, unless it names its inverse by the
empty text. -/
private theorem visit_alike {e f : EntityDecl} (hef : e.IsKept f) {r : RelationshipDecl}
    (declared : (e, r) ∈ declared es) (texts : r.IsTextual) (l : Links) :
    Alike (ReportsEmptyInverse (Links.declared es)) (fun c d ↦ d = c) (visit es l e r).result
      (visit fs l f r.reread).result := by
  have name : r.reread.name = r.name := rfl
  have destination : r.reread.destination = r.destination := rfl
  simp only [visit, hef.reread.name, name, destination, Traced.result_bind]
  apply Alike.bind_same
  intro _
  have found := rel_find?_of_isKept h r.destination
  generalize EntityDecl.find? es r.destination = x, EntityDecl.find? fs r.destination = y at found
  cases found with
  | none => exact .error _
  | @some a b hab =>
    have inverse : r.reread.inverse = r.inverse.orElse .null := rfl
    rw [Value.orElse] at inverse
    cases absent : r.inverse.isNull with
    | true =>
      rw [Value.truthy_of_isNull absent] at inverse
      simp only [inverse]
      exact .of_eq rfl
    | false =>
      cases truthy : r.inverse.truthy with
      | true =>
        rw [truthy] at inverse
        simp only [inverse, if_true, member?_eq hab, hab.reread.name]
        cases a.member? r.inverse <;> exact .of_eq (by simp only [absent]; rfl)
      | false =>
        -- The empty text is the only text that does not count as true.
        obtain ⟨s, hs⟩ := texts.inverse.resolve_left (by simp [absent])
        obtain rfl : s = "" := by
          rw [hs] at truthy
          simpa [Value.text, Value.truthy, Atom.truthy] using truthy
        simp only [hs, member?_empty hab.textual]
        exact .apart ⟨(e, r), declared, hs, rfl⟩ _

private theorem forall₂_declared :
    List.Forall₂ (fun p q ↦ p ∈ declared es ∧ p.2.IsTextual ∧ p.1.IsKept q.1 ∧ q.2 = p.2.reread)
      (declared es) (declared fs) := by
  refine (List.forall₂_and_left _ _).mpr ⟨fun _ hp ↦ hp, List.rel_flatMap h fun e f hef ↦ ?_⟩
  rw [hef.reread.relationships, List.map_map, List.forall₂_map_left_iff,
    List.forall₂_map_right_iff, List.forall₂_same]
  exact fun r hr ↦ ⟨hef.textual.relationships r hr, hef, rfl⟩

private theorem ofEntities_alike : Alike (ReportsEmptyInverse (declared es)) (fun c d ↦ d = c)
    (ofEntities es).result (ofEntities fs).result := by
  refine Traced.alike_foldlM (forall₂_declared h) ?_ none
  rintro l ⟨e, r⟩ ⟨f, _⟩ ⟨declared, texts, hef, rfl⟩
  exact visit_alike h hef declared texts l

end Linking

end Links

/-! ### Graphs -/

/-- Two entities have the same view, and the same findings are about them. -/
structure Entity.Matches (e f : Entity) : Prop where
  view : f.view = e.view
  bare : f.bare = e.bare

/-- Two graphs of one name and one version have the same view and the same findings. -/
structure Graph.Matches (g h : Graph) : Prop where
  name : h.name = g.name
  version : h.version = g.version
  entities : List.Forall₂ Entity.Matches g.entities h.entities

namespace Graph.Matches

variable {g h : Graph} (matched : g.Matches h)

include matched

private theorem view_eq : h.view = g.view := by
  have views := mapM_eq_of_forall₂ matched.entities fun _ _ hef ↦ hef.view
  rw [Graph.view, Graph.view, views, matched.name, matched.version]

private theorem validate_eq : h.validate = g.validate := by
  have bare : h.bare = g.bare := by
    rw [Graph.bare, Graph.bare, map_eq_of_forall₂ matched.entities fun _ _ hef ↦ hef.bare,
      matched.name, matched.version]
  rw [← h.validate_bare, bare, validate_bare]

end Graph.Matches

namespace Schema

private theorem freeze_alike (l : Links) (owner : Value) (r : RelationshipDecl) :
    Alike P (fun s t ↦ t.view = s.view ∧ t.bare = s.bare) (Draft.ofLinks l owner r).freeze
      (Draft.ofLinks l owner r.reread).freeze := by
  have destination : (Draft.ofLinks l owner r.reread).destination =
      (Draft.ofLinks l owner r).destination := rfl
  rw [Draft.freeze, Draft.freeze, destination]
  cases (Draft.ofLinks l owner r).destination with
  | none => exact .error _
  | some d => exact .ok ⟨rfl, rfl⟩

/-- An entity and the entity that it is read back as are resolved alike. -/
private theorem entityOf_alike (config : CompilerConfig) (l : Links) {e f : EntityDecl}
    (h : e.IsKept f)
    {as bs : List Attribute} (attributes : List.Forall₂ (fun s t ↦ t.view = s.view) as bs) :
    Alike P Entity.Matches (entityOf config l e as) (entityOf config l f bs) := by
  have members : List.Forall₂ (fun r s ↦ s = r.reread) e.relationships f.relationships := by
    rw [h.reread.relationships, List.forall₂_map_right_iff, List.forall₂_same]
    exact fun _ _ ↦ rfl
  have relationships : Alike P (List.Forall₂ fun s t ↦ t.view = s.view ∧ t.bare = s.bare)
      (e.relationships.mapM fun r ↦ (Draft.ofLinks l e.name r).freeze)
      (f.relationships.mapM fun r ↦ (Draft.ofLinks l e.name r).freeze) := by
    refine .mapM members ?_
    rintro r _ rfl
    exact freeze_alike l e.name r
  have boundType : f.boundType.orElse (.text config.defaultBoundType) =
      e.boundType.orElse (.text config.defaultBoundType) := by
    rw [h.reread.boundType, Value.orElse, Value.orElse, Value.orElse]
    cases truthy : e.boundType.truthy <;> simp [truthy]
  rw [entityOf, entityOf, h.reread.name]
  refine relationships.bind ?_
  intro rs ss hrs
  refine .ok ⟨?_, ?_⟩
  · have views := mapM_eq_of_forall₂ attributes fun _ _ hst ↦ hst
    have shown := map_eq_of_forall₂ hrs fun _ _ hst ↦ hst.1
    simp only [Entity.view, views, shown, boundType, h.reread.isAbstract, h.reread.unique]
  · have bare := map_eq_of_forall₂ hrs fun _ _ hst ↦ hst.2
    simp only [Entity.bare, bare]

/-- Graphs that match become schemas of one fingerprint, or none of them does. -/
private theorem ofGraph?_alike {g h : Graph} (matched : g.Matches h)
    (words : host'.overflow = host.overflow) :
    Alike P (fun s t ↦ s.graph.Matches t.graph ∧ t.fingerprint = s.fingerprint) (ofGraph? host g)
      (ofGraph? host' h) := by
  have fingerprint : h.fingerprint = g.fingerprint := by
    rw [Graph.fingerprint, Graph.fingerprint, matched.view_eq]
  cases hg : g.fingerprint with
  | ok text =>
    rw [(ofGraph?_eq_ok g ⟨g, text, hg⟩).mpr rfl,
      (ofGraph?_eq_ok h ⟨h, text, fingerprint.trans hg⟩).mpr rfl]
    exact .ok ⟨matched, rfl⟩
  | error f =>
    have message : host'.message f = host.message f := by cases f <;> first | rfl | exact words
    rw [ofGraph?, ofGraph?, (ofGraph_eq_error g f).mpr hg,
      (ofGraph_eq_error h f).mpr (fingerprint.trans hg), matched.name]
    simp only [message]
    split
    · exact .error _
    · exact .error _

private theorem compiledText_eq {s t : Schema} (matched : s.graph.Matches t.graph)
    (fingerprint : t.fingerprint = s.fingerprint) : compiledText t = compiledText s := by
  rw [compiledText, compiledText, matched.name, matched.version, matched.entities.length_eq,
    fingerprint]

/-- Entities and those that they are read back as compile alike. -/
private theorem compile_alike (config : CompilerConfig) {es fs : List EntityDecl}
    (h : List.Forall₂ EntityDecl.IsKept es fs) (alike : host.CopiesAlike host' es)
    (words : host'.overflow = host.overflow) (name version : Value) :
    Alike (Links.ReportsEmptyInverse (Links.declared es)) (fun s t ↦ t.fingerprint = s.fingerprint)
      (compile host config es name version).result
      (compile host' config fs name version).result := by
  have members : List.Forall₂ (fun e f ↦ e ∈ es ∧ e.IsKept f) es fs :=
    (List.forall₂_and_left _ _).mpr ⟨fun _ he ↦ he, h⟩
  have names := map_eq_of_forall₂ h fun _ _ hef ↦ hef.reread.name
  simp only [compile, names, h.length_eq, Traced.result_bind]
  apply Alike.bind_same
  intro _
  refine (Alike.mapM members fun e _ hef ↦ skeleton_alike hef.2 (alike e hef.1)).bind ?_
  intro ps qs hpq
  apply Alike.bind_same
  intro _
  refine (Links.ofEntities_alike h).bind ?_
  rintro _ l rfl
  refine (Alike.mapM hpq fun _ _ hp ↦ entityOf_alike config l hp.1 hp.2).bind ?_
  intro as bs hab
  have graphs : (⟨name, version, as⟩ : Graph).Matches ⟨name, version, bs⟩ := ⟨rfl, rfl, hab⟩
  refine (ofGraph?_alike graphs words).bind ?_
  rintro s t ⟨matched, fingerprint⟩
  -- The findings and the note are the same, and only the schemas that come out differ.
  rw [matched.validate_eq, compiledText_eq matched fingerprint]
  exact .bind_same _ fun _ ↦ .bind_same _ fun _ ↦ .bind_same _ fun _ ↦ .ok fingerprint

end Schema

/-! ### Models -/

private theorem Model.IsReread.compile_alike {m n : Model} (h : m.IsReread n)
    (texts : ∀ e ∈ m.entities, e.IsTextual)
    (long : ∀ e ∈ m.entities, ∀ a ∈ e.attributes, a.HasLongOffset)
    (alike : host.CopiesAlike host' m.entities) (words : host'.overflow = host.overflow)
    (config : CompilerConfig) :
    Alike (Links.ReportsEmptyInverse (Links.declared m.entities))
      (fun s t ↦ t.fingerprint = s.fingerprint) (m.compile host config).result
      (n.compile host' config).result := by
  have kept : List.Forall₂ EntityDecl.IsKept m.entities n.entities := by
    have members : List.Forall₂ (fun e f ↦ e ∈ m.entities ∧ e.IsReread f) m.entities n.entities :=
      (List.forall₂_and_left _ _).mpr ⟨fun _ he ↦ he, h.entities⟩
    exact members.imp fun e f hef ↦ ⟨hef.2, texts e hef.1, long e hef.1⟩
  simp only [compile, h.name, h.version, Traced.result_bind]
  exact .bind_same _ fun _ ↦ Schema.compile_alike config kept alike words m.name m.version

namespace Model

/-- The document of a model is read as a model that compiles to a schema of the same fingerprint or
fails in the same way, unless the model names an inverse by the empty text, and this inverse is
reported as unknown. What each of the two runs is given from outside has to be alike: the copies of
objects, and the words for a default that contains itself. -/
theorem exists_read_document_compile (m : Model) {i : Int} (version : m.version.int? = some i)
    (texts : ∀ e ∈ m.entities, e.IsTextual)
    (ordinary : ∀ e ∈ m.entities, ∀ a ∈ e.attributes, a.default.IsOrdinary)
    (long : ∀ e ∈ m.entities, ∀ a ∈ e.attributes, a.HasLongOffset) :
    ∃ d n, m.document = .ok d ∧ Document.read d = .ok n ∧ ∀ host host' config,
      host.CopiesAlike host' m.entities → host'.overflow = host.overflow →
      (n.compile host' config).result.map (·.fingerprint) =
        (m.compile host config).result.map (·.fingerprint) ∨
      ∃ p ∈ Links.declared m.entities, p.2.inverse = .text "" ∧ (m.compile host config).result =
        (SchemaError.unknownInverse p.1.name p.2.name (.text "") p.2.destination).raise := by
  obtain ⟨d, n, hd, hn, h⟩ := m.exists_read_document version ordinary
  refine ⟨d, n, hd, hn, fun host host' config alike words ↦ ?_⟩
  apply (h.compile_alike texts long alike words config).map_eq.imp_right
  rintro ⟨_, ⟨p, hp, empty, rfl⟩, failed⟩
  exact ⟨p, hp, empty, failed⟩

end Model

/-! ### An example -/

namespace Notes

/-- What follows a note has a name. -/
theorem truthy_next : (Value.text "next").truthy = true := by decide

/-- The note that a note is followed by. It may name its inverse. -/
def next (inverse : Value) : RelationshipDecl :=
  { name := .text "next"
    destination := .text "Note"
    isToMany := false
    isOptional := true
    deleteRule := .nullify
    inverse
    named := truthy_next
    directed := by decide }

/-- Notes. -/
def note (inverse : Value) : EntityDecl := Staff.entityOf "Note" (by decide) (next inverse) ⟨_, rfl⟩

/-- The first version of a model of notes. -/
def model (inverse : Value) : Model := ⟨.text "Notes", .int 1, [note inverse], by decide +kernel⟩

/-- All names in the example are texts. -/
theorem isTextual {inverse : Value} (text : inverse.isNull = true ∨ inverse.IsText) :
    ∀ e ∈ (model inverse).entities, e.IsTextual := by
  have hnext : (next inverse).IsTextual := ⟨⟨_, rfl⟩, ⟨_, rfl⟩, text⟩
  have hnote : (note inverse).IsTextual := by
    refine ⟨⟨⟨_, rfl⟩, ?_, ?_, ?_⟩, .inl rfl⟩
    · simp [note, Staff.entityOf]
    · simpa [note, Staff.entityOf] using hnext
    · simp [note, Staff.entityOf]
  simpa [model] using hnote

private theorem forall_attributes (inverse : Value) (P : AttributeDecl → Prop) :
    ∀ e ∈ (model inverse).entities, ∀ a ∈ e.attributes, P a := by
  simp [model, note, Staff.entityOf]

/-- The version of the example can be shown. -/
theorem showable : (Value.int 1).IsShowable :=
  (Value.isShowable_int_iff 1).mpr (Number.Integer.isTooLong_of_le_one le_rfl)

/-- A model of notes compiles as its entities do. -/
theorem result_compile (inverse : Value) (host : Host) (config : CompilerConfig) :
    ((model inverse).compile host config).result =
      (Schema.compile host config [note inverse] (.text "Notes") (.int 1)).result := by
  obtain ⟨-, t, ht⟩ := showable
  have version : (model inverse).version.display = .ok t := ht
  rw [Model.compile, Traced.result_bind, version]
  rfl

private theorem coherent : Coherent [note .null] := by
  refine ⟨?_, ?_, ?_, ?_, ?_⟩
  · simp
  · simp [note, Staff.entityOf, EntityDecl.NamesUnique]
  · simp [note, Staff.entityOf, next]
  · simp [note, Staff.entityOf, next]
  · simp [Links.OneToOne, Links.Joined, Links.Declares, Links.declared, Links.wanted?_eq_some,
      note, Staff.entityOf, next]

private theorem exists_compile_eq_ok : ∃ s,
    ((model .null).compile default default).result = .ok s := by
  have textual : ∀ e ∈ [note .null], e.IsTextual := isTextual (.inl rfl)
  have portable : ∀ e ∈ [note .null], ∀ a ∈ e.attributes, a.IsPortable default e.name := by
    simp [note, Staff.entityOf]
  rw [result_compile]
  exact (Schema.exists_compile_eq_ok textual rfl).mpr
    ⟨coherent, portable, Value.isShowable_text "Notes", showable⟩

private theorem compile_empty : ((model (.text "")).compile default default).result =
    (SchemaError.unknownInverse (.text "Note") (.text "next") (.text "") (.text "Note")).raise := by
  have linked : (Links.ofEntities [note (.text "")]).result =
      (SchemaError.unknownInverse (.text "Note") (.text "next") (.text "")
        (.text "Note")).raise := by
    simp [Links.ofEntities, Links.declared, Links.visit, EntityDecl.find?, EntityDecl.member?, note,
      Staff.entityOf, next]
    rfl
  rw [result_compile]
  simp only [Schema.compile, Traced.result_bind, linked, List.map_cons, List.map_nil]
  rfl

private theorem entities_of_isReread {n : Model} (h : (model (.text "")).IsReread n) :
    n.entities = [note .null] := by
  obtain ⟨⟨_, _, _, _, _, _, _, _⟩, _, hf, hrest, hn⟩ := List.forall₂_cons_left_iff.mp h.entities
  obtain rfl := List.forall₂_nil_left_iff.mp hrest
  obtain ⟨hname, hattributes, hrelationships, habstract, hbound, hunique⟩ := hf
  obtain rfl := List.forall₂_nil_left_iff.mp hattributes
  rw [hn]
  simp only at hname hrelationships habstract hbound hunique
  subst hname hrelationships habstract hbound hunique
  rfl

end Notes

namespace Model

/-- Events at an offset of an hour are read back as events that compile alike. -/
theorem exists_read_document_compile_agenda :
    (Agenda.model (Agenda.nine 3600000000 (by decide))).version.int? = some 3 ∧
      (∀ e ∈ (Agenda.model (Agenda.nine 3600000000 (by decide))).entities,
        e.IsTextual ∧ ∀ a ∈ e.attributes, a.default.IsOrdinary ∧ a.HasLongOffset) ∧
      ∃ d n, (Agenda.model (Agenda.nine 3600000000 (by decide))).document = .ok d ∧
        Document.read d = .ok n ∧ ∀ host config,
          (n.compile host config).result.map (·.fingerprint) =
          ((Agenda.model (Agenda.nine 3600000000 (by decide))).compile host config).result.map
            (·.fingerprint) := by
  have recoverable := Agenda.isRecoverable (Agenda.nine 3600000000 (by decide))
  have texts := fun e he ↦ (recoverable e he).textual
  have ordinary := fun e he a ha ↦ ((recoverable e he).attributes a ha).ordinary
  have long := (Agenda.hasLongOffset_iff (Agenda.nine 3600000000 (by decide))).mpr
    (by rintro o ⟨⟩; decide)
  obtain ⟨d, n, hd, hn, alike⟩ := exists_read_document_compile _ (i := 3) rfl texts ordinary long
  refine ⟨rfl, fun e he ↦ ⟨texts e he, fun a ha ↦ ⟨ordinary e he a ha, long e he a ha⟩⟩, d, n, hd,
    hn, fun host config ↦ (alike host host config (.refl _ _) rfl).resolve_right ?_⟩
  simp [Agenda.model, Agenda.event, Agenda.next, Links.declared, Value.text]

/-- Notes that name their inverse by the empty text have no schema, and are read back as notes that
have one. -/
theorem exists_read_document_compile_ne : ∃ m : Model, (∃ i, m.version.int? = some i) ∧
    (∀ e ∈ m.entities, e.IsTextual ∧ ∀ a ∈ e.attributes, a.default.IsOrdinary ∧ a.HasLongOffset) ∧
      ∃ d n s, m.document = .ok d ∧ Document.read d = .ok n ∧
        (m.compile default default).result = (SchemaError.unknownInverse (.text "Note")
          (.text "next") (.text "") (.text "Note")).raise ∧
        (n.compile default default).result = .ok s := by
  have attributes := Notes.forall_attributes (.text "")
  have texts := Notes.isTextual (.inr ⟨"", rfl⟩)
  obtain ⟨d, n, hd, hn, h⟩ := (Notes.model (.text "")).exists_read_document (i := 1) rfl
    (attributes _)
  obtain ⟨s, hs⟩ := Notes.exists_compile_eq_ok
  have compiled : (n.compile default default).result = .ok s := by
    rw [← hs, compile, compile, h.name, h.version, Notes.entities_of_isReread h]
    rfl
  refine ⟨_, ⟨1, rfl⟩, fun e he ↦ ⟨texts e he, ?_⟩, d, n, s, hd, hn, Notes.compile_empty,
    compiled⟩
  exact attributes (fun a ↦ a.default.IsOrdinary ∧ a.HasLongOffset) e he

end Model

end EntityGraph
