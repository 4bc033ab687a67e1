import EntityGraph.Proofs.Compilation
import EntityGraph.Proofs.Survey

/-!
# Coherent entities

What entities have to be so that they compile, in terms of the declarations alone: no order, no
links that are half made. The graph of coherent entities is linked, so that nothing that comes after
linking can fail but the writing of a default, of a name or of a version.
-/

namespace EntityGraph

/-- The default of an attribute of an entity can be copied, and what it is copied to on a host can
be written. -/
structure AttributeDecl.IsPortable (host : Host) (entity : Value) (a : AttributeDecl) : Prop where
  copied : a.IsCopied
  written : Json.IsWritten (a.type.viewOf (a.copied host entity))

/-- Hosts that copy the objects in defaults alike find the same defaults portable. -/
theorem Host.CopiesAlike.isPortable {host host' : Host} {entities : List EntityDecl}
    (alike : host.CopiesAlike host' entities)
    (portable : ∀ e ∈ entities, ∀ a ∈ e.attributes, a.IsPortable host e.name) :
    ∀ e ∈ entities, ∀ a ∈ e.attributes, a.IsPortable host' e.name := by
  intro e he a ha
  obtain ⟨copied, written⟩ := portable e he a ha
  exact ⟨copied, alike.copied he ha ▸ written⟩

/-- Entities of different names whose constraints, destinations and inverses are declared, and none
of whose relationships is declared to be the inverse of two. -/
structure Coherent (entities : List EntityDecl) : Prop where
  distinct : (entities.map (·.name)).Nodup
  unique : ∀ e ∈ entities, e.NamesUnique
  destination : ∀ e ∈ entities, ∀ r ∈ e.relationships, ∃ d ∈ entities, d.name = r.destination
  inverse : ∀ e ∈ entities, ∀ r ∈ e.relationships, r.inverse.isNull = false →
    ∀ d ∈ entities, d.name = r.destination → ∃ i ∈ d.relationships, i.name = r.inverse
  oneToOne : Links.OneToOne (Links.declared entities)

/-- Entities are coherent exactly if they pass what each stage of compilation asks for. -/
theorem coherent_iff (entities : List EntityDecl) :
    Coherent entities ↔ (entities.map (·.name)).Nodup ∧ (∀ e ∈ entities, e.NamesUnique) ∧
      (∀ p ∈ Links.declared entities, Links.Resolves entities p.2) ∧
        Links.OneToOne (Links.declared entities) := by
  constructor
  · intro h
    refine ⟨h.distinct, h.unique, ?_, h.oneToOne⟩
    intro p hp
    obtain ⟨he, hr⟩ := (Links.mem_declared entities p).mp hp
    obtain ⟨d, hd, hn⟩ := h.destination p.1 he p.2 hr
    exact ⟨d, hd, hn, fun hi ↦ h.inverse p.1 he p.2 hr hi d hd hn⟩
  · rintro ⟨hdistinct, hunique, hresolves, hone⟩
    have resolves : ∀ e ∈ entities, ∀ r ∈ e.relationships, Links.Resolves entities r :=
      fun e he r hr ↦ hresolves (e, r) ((Links.mem_declared entities (e, r)).mpr ⟨he, hr⟩)
    refine ⟨hdistinct, hunique, ?_, ?_, hone⟩
    · intro e he r hr
      obtain ⟨d, hd, hn, -⟩ := resolves e he r hr
      exact ⟨d, hd, hn⟩
    · intro e he r hr hi d hd hn
      obtain ⟨d', hd', hn', hinv⟩ := resolves e he r hr
      obtain rfl : d' = d := List.inj_on_of_nodup_map hdistinct hd' hd (hn'.trans hn.symm)
      exact hinv hi

/-! ### The graph of a schema -/

section Graph

variable {entities : List EntityDecl}

/-- The relationships of a schema are those that are declared, in the order of declaration. -/
theorem Schema.relationships_linkedGraph (host : Host) (config : CompilerConfig) (l : Links)
    (entities : List EntityDecl) (name version : Value) :
    (linkedGraph host config l entities name version).relationships =
      (Links.declared entities).map l.relationship := by
  simp [linkedGraph, Graph.relationships, Links.declared, EntityDecl.linked, List.flatMap_map,
    List.map_flatMap, Function.comp_def]

/-- A relationship of a schema is one that is declared. -/
theorem Schema.mem_relationships_linkedGraph (host : Host) (config : CompilerConfig) (l : Links)
    (entities : List EntityDecl) (name version : Value) (r : Relationship) :
    r ∈ (linkedGraph host config l entities name version).relationships ↔
      ∃ p ∈ Links.declared entities, l.relationship p = r := by
  rw [relationships_linkedGraph]
  exact List.mem_map

/-- The graph of a schema is linked. -/
theorem Schema.isLinked_linkedGraph (named : ∀ e ∈ entities, e.IsNamed)
    (distinct : (entities.map (·.name)).Nodup) {l : Links}
    (records : Links.Records (Links.declared entities) l)
    (resolves : ∀ p ∈ Links.declared entities, Links.Resolves entities p.2)
    (host : Host) (config : CompilerConfig) (name version : Value) :
    (linkedGraph host config l entities name version).IsLinked := by
  have members := mem_relationships_linkedGraph host config l entities name version
  constructor
  · exact List.forall_mem_map.mpr fun d hd ↦ (named d hd).name
  · simpa [linkedGraph, Function.comp_def, EntityDecl.linked] using distinct
  · intro e he r hr
    obtain ⟨d, hd, rfl⟩ := List.mem_map.mp he
    obtain ⟨s, hs, rfl⟩ := List.mem_map.mp hr
    rfl
  · intro e he r hr
    obtain ⟨d, hd, rfl⟩ := List.mem_map.mp he
    obtain ⟨s, hs, rfl⟩ := List.mem_map.mp hr
    exact ((named d hd).relationships s hs).name
  · intro e he
    obtain ⟨d, hd, rfl⟩ := List.mem_map.mp he
    simpa [EntityDecl.linked, Links.relationship, RelationshipDecl.linked, Function.comp_def] using
      (named d hd).nodup_relationships
  · intro r hr
    obtain ⟨p, hp, rfl⟩ := (members r).mp hr
    obtain ⟨d, hd, hn, -⟩ := resolves p hp
    exact ⟨d.linked host config l, List.mem_map_of_mem hd, hn⟩
  · intro r hr k hk
    obtain ⟨p, hp, rfl⟩ := (members r).mp hr
    have joined := (records.inverse _ k (Links.isTextual_of_mem named hp).keyOf).mp hk
    obtain ⟨q, hq, rfl⟩ := Links.exists_of_joined resolves joined
    refine ⟨l.relationship q, (members _).mpr ⟨q, hq, rfl⟩, rfl, ?_⟩
    exact (records.inverse _ _ (Links.isTextual_of_mem named hq).keyOf).mpr joined.symm

variable (texts : ∀ e ∈ entities, e.IsTextual)

include texts

/-- The entities of a schema are textual. -/
theorem Schema.isTextual_linked {l : Links} (records : Links.Records (Links.declared entities) l)
    (host : Host) (config : CompilerConfig) {e : EntityDecl} (he : e ∈ entities) :
    (e.linked host config l).IsTextual := by
  have h := texts e he
  constructor
  · exact h.name
  · show (e.boundType.orElse (.text config.defaultBoundType)).IsText
    rw [Value.orElse]
    split
    · next ht =>
      refine h.boundType.resolve_left fun hn ↦ ?_
      simp [Value.truthy_of_isNull hn] at ht
    · exact ⟨_, rfl⟩
  · exact List.forall_mem_map.mpr h.attributes
  · exact List.forall_mem_map.mpr fun r hr ↦ (h.relationships r hr).name
  · exact List.forall_mem_map.mpr fun r hr ↦ (h.relationships r hr).destination
  · refine List.forall_mem_map.mpr fun r hr k hk ↦ ?_
    have hp : (e, r) ∈ Links.declared entities := (Links.mem_declared entities (e, r)).mpr ⟨he, hr⟩
    exact (records.isText (fun _ hq ↦ Links.isTextual_of_mem (EntityDecl.isNamed texts) hq)
      (Links.isTextual_of_mem (EntityDecl.isNamed texts) hp).keyOf k hk).name
  · exact h.unique

/-- The view of an entity under links of the declarations can be written exactly if the forms of its
defaults can. -/
theorem Schema.isWritten_view_linked_iff {l : Links}
    (records : Links.Records (Links.declared entities) l) (host : Host) (config : CompilerConfig)
    {e : EntityDecl} (he : e ∈ entities) :
    Json.IsWritten (e.linked host config l).view ↔
      ∀ a ∈ e.attributes, Json.IsWritten (a.type.viewOf (a.copied host e.name)) := by
  rw [(e.linked host config l).isWritten_view_iff (isTextual_linked texts records host config he)]
  exact List.forall_mem_map

private theorem Schema.exists_fingerprint_linkedGraph_iff {l : Links}
    (records : Links.Records (Links.declared entities) l) (host : Host) (config : CompilerConfig)
    (name version : Value) :
    (∃ t, (linkedGraph host config l entities name version).fingerprint = .ok t) ↔
      Json.HasText name ∧ Json.HasText version ∧
        ∀ e ∈ entities, ∀ a ∈ e.attributes,
          Json.IsWritten (a.type.viewOf (a.copied host e.name)) := by
  have views : ∀ e ∈ entities, Json.IsWritten (e.linked host config l).view ↔
      ∀ a ∈ e.attributes, Json.IsWritten (a.type.viewOf (a.copied host e.name)) :=
    fun e he ↦ isWritten_view_linked_iff texts records host config he
  rw [Graph.exists_fingerprint_iff, Graph.isWritten_view_iff]
  exact and_congr_right' (and_congr_right' (List.forall_mem_map.trans (forall₂_congr views)))

end Graph

/-! ### Success -/

/-- A value that can be written and shown. -/
def Value.IsShowable (v : Value) : Prop := Json.HasText v ∧ ∃ t, v.display = .ok t

/-- A text can be written and shown. -/
theorem Value.isShowable_text (s : String) : (Value.text s).IsShowable :=
  ⟨Json.hasText_text s, s, rfl⟩

/-- An integer can be written and shown exactly if it has not too many digits. -/
theorem Value.isShowable_int_iff (i : Int) :
    (Value.int i).IsShowable ↔ Number.Integer.isTooLong i = false := by
  have display : (Value.int i).display = intText i := rfl
  rw [IsShowable, Json.hasText_int_iff, display, intText]
  constructor
  · exact fun h ↦ h.1
  · exact fun h ↦ ⟨h, by simp [h]⟩

namespace Schema

section Compile

variable {entities : List EntityDecl} (named : ∀ e ∈ entities, e.IsNamed)
  {host : Host} {config : CompilerConfig} {name version : Value}

include named

/-- Entities with a schema are coherent, and the graph of the schema is linked. -/
theorem exists_links_of_compile {s : Schema}
    (h : (compile host config entities name version).result = .ok s) :
    ∃ l, Links.Records (Links.declared entities) l ∧ Coherent entities ∧
      s.graph = linkedGraph host config l entities name version ∧ s.graph.IsLinked := by
  obtain ⟨distinct, hparts, l, hl, hgraph, -⟩ :=
    (compile_eq_ok named host config name version s).mp h
  obtain ⟨resolves, hone⟩ := (Links.exists_ofEntities_eq_ok named distinct).mp ⟨l, hl⟩
  have records := Links.records_of_ofEntities named distinct hl
  refine ⟨l, records, ?_, hgraph, ?_⟩
  · exact (coherent_iff entities).mpr ⟨distinct, fun e he ↦ (hparts e he).2, resolves, hone⟩
  · rw [hgraph]
    exact isLinked_linkedGraph named distinct records resolves host config name version

/-- The graph of a schema of named entities is linked. -/
theorem isLinked_of_compile {s : Schema}
    (h : (compile host config entities name version).result = .ok s) : s.graph.IsLinked := by
  obtain ⟨l, -, -, -, linked⟩ := exists_links_of_compile named h
  exact linked

omit named

variable (texts : ∀ e ∈ entities, e.IsTextual)

include texts

/-- Where findings refuse no schema, entities have a schema exactly if they are coherent, their
defaults can be copied and written, and the name and the version of the schema can be written. -/
theorem exists_compile_eq_ok (lenient : config.isStrict = false) :
    (∃ s, (compile host config entities name version).result = .ok s) ↔
      Coherent entities ∧ (∀ e ∈ entities, ∀ a ∈ e.attributes, a.IsPortable host e.name) ∧
        name.IsShowable ∧ version.IsShowable := by
  constructor
  · rintro ⟨s, hs⟩
    obtain ⟨l, records, coherent, hgraph, -⟩ :=
      exists_links_of_compile (EntityDecl.isNamed texts) hs
    obtain ⟨-, hparts, -, -, -, -, hnote⟩ :=
      (compile_eq_ok (EntityDecl.isNamed texts) host config name version s).mp hs
    obtain ⟨hname, hversion, hdefaults⟩ :=
      (exists_fingerprint_linkedGraph_iff texts records host config name version).mp
        ⟨s.fingerprint, hgraph ▸ s.fingerprint_eq⟩
    obtain ⟨hshown, hshown'⟩ := (exists_compiledText_iff s).mp hnote
    rw [hgraph] at hshown hshown'
    refine ⟨coherent, fun e he a ha ↦ ⟨(hparts e he).1 a ha, hdefaults e he a ha⟩,
      ⟨hname, hshown⟩, hversion, hshown'⟩
  · rintro ⟨coherent, portable, hname, hversion⟩
    obtain ⟨distinct, hunique, resolves, hone⟩ := (coherent_iff entities).mp coherent
    obtain ⟨l, hl⟩ := (Links.exists_ofEntities_eq_ok (EntityDecl.isNamed texts) distinct).mpr
      ⟨resolves, hone⟩
    have records := Links.records_of_ofEntities (EntityDecl.isNamed texts) distinct hl
    have linked := isLinked_linkedGraph (EntityDecl.isNamed texts) distinct records resolves
      host config name version
    obtain ⟨fingerprint, hf⟩ :=
      (exists_fingerprint_linkedGraph_iff texts records host config name version).mpr
        ⟨hname.1, hversion.1, fun e he a ha ↦ (portable e he a ha).written⟩
    obtain ⟨-, notes, -, hnotes, -⟩ := linked.exists_validate
    let s : Schema := ⟨linkedGraph host config l entities name version, fingerprint, hf⟩
    refine ⟨s, (compile_eq_ok (EntityDecl.isNamed texts) host config name version s).mpr
      ⟨distinct, ?_, l, hl, rfl, ?_, ?_⟩⟩
    · exact fun e he ↦ ⟨fun a ha ↦ (portable e he a ha).copied, hunique e he⟩
    · exact ⟨notes, hnotes, (report_eq_ok config hname.2 notes).mpr (by simp [lenient])⟩
    · exact (exists_compiledText_iff s).mpr ⟨hname.2, hversion.2⟩

end Compile

end Schema

/-! ### An example -/

namespace Staff

/-- Where a person works. It is declared without an inverse. -/
def employer : RelationshipDecl :=
  { name := .text "employer"
    destination := .text "Company"
    isToMany := false
    isOptional := true
    deleteRule := .nullify
    inverse := .null
    named := by decide
    directed := by decide }

/-- Who leads a team. The inverse that it declares leads elsewhere. -/
def lead : RelationshipDecl :=
  { name := .text "lead"
    destination := .text "Person"
    isToMany := false
    isOptional := true
    deleteRule := .nullify
    inverse := .text "employer"
    named := by decide
    directed := by decide }

/-- An entity of one relationship. -/
def entityOf (name : String) (named : name ≠ "") (r : RelationshipDecl) (hr : r.name.IsText) :
    EntityDecl :=
  { name := .text name
    attributes := []
    relationships := [r]
    isAbstract := false
    boundType := .null
    unique := []
    named := Value.truthy_of_ne named
    distinct := ⟨by simpa [propertyNames] using hr.checkKey, by simp [propertyNames]⟩ }

/-- People, who have an employer. -/
def person : EntityDecl := entityOf "Person" (by decide) employer ⟨_, rfl⟩

/-- Teams, which have a lead. -/
def team : EntityDecl := entityOf "Team" (by decide) lead ⟨_, rfl⟩

/-- Companies, of which nothing is said. -/
def company : EntityDecl :=
  { name := .text "Company"
    attributes := []
    relationships := []
    isAbstract := false
    boundType := .null
    unique := []
    named := by decide
    distinct := ⟨by simp [propertyNames], by simp [propertyNames]⟩ }

/-- People before teams. -/
def entities : List EntityDecl := [person, team, company]

/-- All names in the example are texts. -/
theorem isTextual : ∀ e ∈ entities, e.IsTextual := by
  have hemployer : employer.IsTextual := ⟨⟨_, rfl⟩, ⟨_, rfl⟩, .inl rfl⟩
  have hlead : lead.IsTextual := ⟨⟨_, rfl⟩, ⟨_, rfl⟩, .inr ⟨_, rfl⟩⟩
  simp only [entities, List.forall_mem_cons]
  refine ⟨⟨⟨⟨_, rfl⟩, by simp [person, entityOf], ?_, by simp [person, entityOf]⟩, .inl rfl⟩,
    ⟨⟨⟨_, rfl⟩, by simp [team, entityOf], ?_, by simp [team, entityOf]⟩, .inl rfl⟩,
    ⟨⟨⟨_, rfl⟩, by simp [company], by simp [company], by simp [company]⟩, .inl rfl⟩, by simp⟩
  · simpa [person, entityOf] using hemployer
  · simpa [team, entityOf] using hlead

/-- A lead declares the employer of a person as its inverse, and nothing else declares one. -/
theorem declares_iff (k i : Key) :
    Links.Declares (Links.declared entities) k i ↔
      k = ⟨.text "Team", .text "lead"⟩ ∧ i = ⟨.text "Person", .text "employer"⟩ := by
  have declared : Links.declared entities = [(person, employer), (team, lead)] := rfl
  simp only [Links.Declares, declared, List.exists_mem_cons_iff, Links.wanted?_eq_some]
  simp [employer, lead, Links.keyOf, team, person, entityOf, eq_comm (b := k)]

private theorem coherent : Coherent entities := by
  refine ⟨?_, ?_, ?_, ?_, ?_⟩
  · simp [entities, person, team, company, entityOf, Value.text]
  · simp [entities, person, team, company, entityOf, EntityDecl.NamesUnique]
  · simp [entities, person, team, company, entityOf, employer, lead, Value.text]
  · simp [entities, person, team, company, entityOf, employer, lead, Value.text]
  · intro k i j
    simp only [Links.Joined, declares_iff]
    grind

/-- The example has no defaults. -/
theorem isPortable (host : Host) :
    ∀ e ∈ entities, ∀ a ∈ e.attributes, a.IsPortable host e.name := by
  simp [entities, person, team, company, entityOf]

/-- The example has a schema. -/
theorem exists_compile_eq_ok (host : Host) (config : CompilerConfig)
    (lenient : config.isStrict = false) :
    ∃ s, (Schema.compile host config entities (.text "Staff") (.int 1)).result = .ok s := by
  refine (Schema.exists_compile_eq_ok isTextual lenient).mpr ⟨coherent, isPortable host, ?_, ?_⟩
  · exact Value.isShowable_text "Staff"
  · exact (Value.isShowable_int_iff 1).mpr (Number.Integer.isTooLong_of_le_one le_rfl)

end Staff

end EntityGraph
