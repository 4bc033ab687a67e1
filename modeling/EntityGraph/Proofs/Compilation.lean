import EntityGraph.Proofs.Copies
import EntityGraph.Proofs.Linking
import EntityGraph.Proofs.Viewing

/-!
# What compiling does

The stages of compilation one after the other: when each succeeds and with what. Where all names are
texts, the graph of a schema is a closed form of the declarations and their links, and compilation
succeeds exactly if each of its stages does.
-/

namespace EntityGraph

/-- The relationship that a declaration stands for, linked to an inverse or to none. -/
def RelationshipDecl.linked (owner : Value) (inverse : Option Key) (r : RelationshipDecl) :
    Relationship :=
  { entity := owner
    name := r.name
    destination := r.destination
    isToMany := r.isToMany
    isOptional := r.isOptional
    deleteRule := r.deleteRule
    inverseName := r.inverse
    inverse }

/-- The relationship that a declaration stands for under some links. -/
def Links.relationship (l : Links) (p : EntityDecl × RelationshipDecl) : Relationship :=
  p.2.linked p.1.name (l.inverse? (keyOf p))

/-- The attribute of an entity that a declaration stands for on a host. -/
def AttributeDecl.compiled (host : Host) (entity : Value) (a : AttributeDecl) : Attribute :=
  a.attribute entity (a.copied host entity)

/-- The entity that a declaration stands for on a host, under some links. -/
def EntityDecl.linked (host : Host) (config : CompilerConfig) (l : Links)
    (e : EntityDecl) : Entity :=
  ⟨e.name, e.isAbstract, e.boundType.orElse (.text config.defaultBoundType), e.boundType,
    e.attributes.map (·.compiled host e.name),
    e.relationships.map fun r ↦ l.relationship (e, r), e.unique⟩

/-- Every uniqueness constraint of an entity names an attribute of it. -/
def EntityDecl.NamesUnique (e : EntityDecl) : Prop :=
  ∀ n ∈ e.unique, ∃ a ∈ e.attributes, a.name = n

namespace Schema

variable {host : Host}

/-! ### The stages -/

/-- Textual entities have distinct names exactly if the check of names passes. -/
theorem checkDistinct_entities_eq_ok {entities : List EntityDecl}
    (texts : ∀ e ∈ entities, e.IsNamed) (refuse : Value → SchemaError) :
    checkDistinct refuse [] (entities.map (·.name)) = .ok () ↔
      (entities.map (·.name)).Nodup := by
  have named : ∀ n ∈ entities.map (·.name), n.IsText := by
    rw [List.forall_mem_map]
    exact fun e he ↦ (texts e he).name
  rw [checkDistinct_eq_ok, Value.pairwise_same_iff named]
  constructor
  · exact fun h ↦ h.2.2
  · exact fun h ↦ ⟨fun n hn ↦ (named n hn).checkKey, by simp, h⟩

/-- An attribute succeeds exactly if its default is copied. -/
theorem attributeOf_eq_ok (entity : Value) (a : AttributeDecl) (b : Attribute) :
    attributeOf host entity a = .ok b ↔ a.IsCopied ∧ a.compiled host entity = b := by
  have copies := @AttributeDecl.copyDefault_eq_ok host entity a
  rw [attributeOf, AttributeDecl.compiled]
  cases hd : a.copyDefault host entity with
  | ok d =>
    obtain ⟨isCopied, rfl⟩ := (copies d).mp hd
    simp [isCopied]
  | error f =>
    have refused : ¬ a.IsCopied := fun h ↦ by cases hd.symm.trans ((copies _).mpr ⟨h, rfl⟩)
    simp only [refused, false_and, iff_false]
    split <;> simp [SchemaError.raise]

private theorem checkUnique_eq_ok {e : EntityDecl} (texts : e.IsNamed) (names : List Value)
    (named : ∀ n ∈ names, n.IsText) :
    checkUnique e names = .ok () ↔ ∀ n ∈ names, ∃ a ∈ e.attributes, a.name = n := by
  induction names with
  | nil => simp [checkUnique]
  | cons n names ih =>
    obtain ⟨hn, hnames⟩ := List.forall_mem_cons.mp named
    have attributes : ∀ m ∈ e.attributes.map (·.name), m.IsText := by
      rw [List.forall_mem_map]
      exact texts.attributes
    rw [List.forall_mem_cons, ← ih hnames, ← List.mem_map, ← Value.among_iff_mem hn attributes]
    cases h : n.among (e.attributes.map (·.name)) <;>
      simp [checkUnique, hn.checkKey, h, bind, Except.bind, SchemaError.raise]

/-- Constraints are looked up among names. -/
theorem checkUnique_congr {e f : EntityDecl} (name : f.name = e.name)
    (attributes : f.attributes.map (·.name) = e.attributes.map (·.name)) (names : List Value) :
    checkUnique f names = checkUnique e names := by
  induction names with
  | nil => rfl
  | cons n names ih => rw [checkUnique, checkUnique, name, attributes, ih]

/-- The attributes of a textual entity succeed exactly if their defaults are copied and the
constraints name some of them. -/
theorem skeleton_eq_ok {e : EntityDecl} (texts : e.IsNamed) (x : EntityDecl × List Attribute) :
    skeleton host e = .ok x ↔ ((∀ a ∈ e.attributes, a.IsCopied) ∧ e.NamesUnique) ∧
      (e, e.attributes.map (·.compiled host e.name)) = x := by
  have attributes := Success.mapM_eq_ok_map (attributeOf host e.name) AttributeDecl.IsCopied
    (·.compiled host e.name) e.attributes fun a _ ↦ attributeOf_eq_ok e.name a
  have constraints := checkUnique_eq_ok texts e.unique texts.unique
  simp only [skeleton, Success.bind_eq_ok, attributes, pure, Except.pure, Except.ok.injEq]
  constructor
  · rintro ⟨as, ⟨hcopied, rfl⟩, u, hunique, rfl⟩
    exact ⟨⟨hcopied, constraints.mp hunique⟩, rfl⟩
  · rintro ⟨⟨hcopied, hunique⟩, rfl⟩
    exact ⟨_, ⟨hcopied, rfl⟩, (), constraints.mpr hunique, rfl⟩

private theorem entityOf_eq_ok (host : Host) (config : CompilerConfig) (l : Links) (e : EntityDecl)
    (directed : ∀ r ∈ e.relationships, l.destination? ⟨e.name, r.name⟩ = some r.destination)
    (f : Entity) :
    entityOf config l e (e.attributes.map (·.compiled host e.name)) = .ok f ↔
      e.linked host config l = f := by
  have frozen : ∀ r ∈ e.relationships, ∀ s, (Draft.ofLinks l e.name r).freeze = .ok s ↔
      True ∧ l.relationship (e, r) = s := by
    intro r hr s
    simp [Draft.freeze, Draft.ofLinks, directed r hr, Links.relationship, RelationshipDecl.linked,
      Links.keyOf]
  simp only [entityOf, Success.bind_eq_ok,
    Success.mapM_eq_ok_map _ _ _ e.relationships frozen, pure, Except.pure, Except.ok.injEq]
  simp [EntityDecl.linked]

/-- The schema of a graph, or no report that it has no text, is one of that graph. -/
theorem ofGraph?_eq_ok (g : Graph) (s : Schema) : ofGraph? host g = .ok s ↔ s.graph = g := by
  rw [← ofGraph_eq_ok]
  unfold ofGraph?
  cases ofGraph g with
  | ok t => simp
  | error f =>
    simp only [reduceCtorEq, iff_false]
    split <;> simp [SchemaError.raise]

/-- The findings about a schema whose name can be shown are reported exactly if there may be
any. -/
theorem report_eq_ok (config : CompilerConfig) {name : Value} (shown : ∃ t, name.display = .ok t)
    (findings : List String) :
    (report config name findings).result = .ok () ↔
      (config.isStrict = true → findings = []) := by
  obtain ⟨t, ht⟩ := shown
  have noted := (Traced.result_forM_eq_ok
    (fun f ↦ Traced.note .warning Links.logger (findingText name f)) findings).mpr
    (fun f _ ↦ by rw [findingText, ht]; rfl)
  rw [report, Traced.result_bind, noted]
  cases hs : config.isStrict <;> cases hf : findings <;>
    simp [Except.bind, SchemaError.raise]

/-- The note that a schema is built can be made exactly if its name and its version can be shown. -/
theorem exists_compiledText_iff (s : Schema) :
    (∃ t, compiledText s = .ok t) ↔
      (∃ t, s.graph.name.display = .ok t) ∧ ∃ t, s.graph.version.display = .ok t := by
  simp only [compiledText, Success.bind_eq_ok, pure, Except.pure, Except.ok.injEq]
  constructor
  · rintro ⟨_, n, hn, v, hv, -⟩
    exact ⟨⟨n, hn⟩, v, hv⟩
  · rintro ⟨⟨n, hn⟩, v, hv⟩
    exact ⟨_, n, hn, v, hv, rfl⟩

/-- The graph of a schema of some entities on a host, under some links. -/
def linkedGraph (host : Host) (config : CompilerConfig) (l : Links) (entities : List EntityDecl)
    (name version : Value) : Graph :=
  ⟨name, version, entities.map (·.linked host config l)⟩

section Compile

variable {entities : List EntityDecl} (texts : ∀ e ∈ entities, e.IsNamed)

include texts

/-- Under the links of all declarations every entity is resolved. -/
theorem mapM_entityOf_eq_ok (distinct : (entities.map (·.name)).Nodup) {l : Links}
    (hl : (Links.ofEntities entities).result = .ok l) (host : Host)
    (config : CompilerConfig) (fs : List Entity) :
    (entities.map fun e ↦ (e, e.attributes.map (·.compiled host e.name))).mapM
        (fun x ↦ entityOf config l x.1 x.2) = .ok fs ↔
      entities.map (·.linked host config l) = fs := by
  have resolved : ∀ x ∈ entities.map fun e ↦ (e, e.attributes.map (·.compiled host e.name)),
      ∀ f, entityOf config l x.1 x.2 = .ok f ↔ True ∧ x.1.linked host config l = f := by
    rw [List.forall_mem_map]
    intro e he f
    rw [true_and]
    apply entityOf_eq_ok
    intro r hr
    exact Links.destination?_of_ofEntities texts distinct hl (p := (e, r))
      ((Links.mem_declared entities (e, r)).mpr ⟨he, hr⟩)
  rw [Success.mapM_eq_ok_map _ _ _ _ resolved, List.map_map]
  simp [Function.comp_def]

/-- Compilation succeeds exactly if all of its stages do, one after the other. -/
theorem compile_eq_ok (host : Host) (config : CompilerConfig) (name version : Value) (s : Schema) :
    (compile host config entities name version).result = .ok s ↔
      (entities.map (·.name)).Nodup ∧
      (∀ e ∈ entities, (∀ a ∈ e.attributes, a.IsCopied) ∧ e.NamesUnique) ∧
      ∃ l, (Links.ofEntities entities).result = .ok l ∧
        s.graph = linkedGraph host config l entities name version ∧
        (∃ notes, s.graph.validate = .ok notes ∧ (report config name notes).result = .ok ()) ∧
        ∃ t, compiledText s = .ok t := by
  have skeletons := Success.mapM_eq_ok_map (skeleton host) _ _ entities fun e he ↦
    skeleton_eq_ok (texts e he)
  simp only [compile, Traced.result_bind_eq_ok, Traced.result_liftM, Traced.result_liftM_fault,
    checkDistinct_entities_eq_ok texts, skeletons, Success.mapError_eq_ok, ofGraph?_eq_ok]
  constructor
  · rintro ⟨_, distinct, _, ⟨hparts, rfl⟩, _, -, l, hl, fs, hfs, t, ht, notes, hnotes, _, hreport,
      _, hnote, hs⟩
    obtain rfl : t = s := Except.ok.inj hs
    have hfs := (mapM_entityOf_eq_ok texts distinct hl host config fs).mp hfs
    exact ⟨distinct, hparts, l, hl, by rw [ht, linkedGraph, hfs], ⟨notes, hnotes, hreport⟩,
      (Traced.result_note_eq_ok _ _ _).mp hnote⟩
  · rintro ⟨distinct, hparts, l, hl, hgraph, ⟨notes, hnotes, hreport⟩, hnote⟩
    have hfs := (mapM_entityOf_eq_ok texts distinct hl host config _).mpr rfl
    exact ⟨(), distinct, _, ⟨hparts, rfl⟩, (), rfl, l, hl, _, hfs, s, hgraph, notes, hnotes, (),
      hreport, (), (Traced.result_note_eq_ok _ _ _).mpr hnote, rfl⟩

/-- Where findings refuse a schema, entities have the schema that they have elsewhere, unless there
are findings about it. -/
theorem compile_strict_eq_ok (host : Host) (config : CompilerConfig) (name version : Value)
    (s : Schema) :
    (compile host { config with isStrict := true } entities name version).result = .ok s ↔
      (compile host { config with isStrict := false } entities name version).result = .ok s ∧
        s.graph.validate = .ok [] := by
  have same : ∀ l, linkedGraph host { config with isStrict := true } l entities name version =
      linkedGraph host { config with isStrict := false } l entities name version := fun _ ↦ rfl
  rw [compile_eq_ok texts, compile_eq_ok texts]
  constructor
  · rintro ⟨distinct, hparts, l, hl, hgraph, ⟨notes, hnotes, hreport⟩, hnote⟩
    have hname := ((exists_compiledText_iff s).mp hnote).1
    rw [show s.graph.name = name by rw [hgraph]; rfl] at hname
    have hnil : notes = [] := (report_eq_ok _ hname notes).mp hreport rfl
    refine ⟨⟨distinct, hparts, l, hl, hgraph, ⟨notes, hnotes, ?_⟩, hnote⟩, hnil ▸ hnotes⟩
    exact (report_eq_ok _ hname notes).mpr (by simp)
  · rintro ⟨⟨distinct, hparts, l, hl, hgraph, -, hnote⟩, hnotes⟩
    have hname := ((exists_compiledText_iff s).mp hnote).1
    rw [show s.graph.name = name by rw [hgraph]; rfl] at hname
    exact ⟨distinct, hparts, l, hl, hgraph, ⟨[], hnotes, (report_eq_ok _ hname []).mpr (by simp)⟩,
      hnote⟩

end Compile

end Schema

end EntityGraph
