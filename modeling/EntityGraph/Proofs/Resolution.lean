import EntityGraph.Proofs.Coherence

/-!
# What relationships resolve to

Every relationship of a schema is one that is declared. It leads where it is declared to lead, has
the inverse that it or that the inverse declares, and every look-up along it finds what it says.
-/

namespace EntityGraph

/-- A relationship of a graph is what a declaration among some resolves to. -/
structure Relationship.IsResolved (ps : List (EntityDecl × RelationshipDecl)) (g : Graph)
    (p : EntityDecl × RelationshipDecl) (r : Relationship) : Prop where
  key : r.key = Links.keyOf p
  /-- A declared inverse is the inverse. -/
  declared : p.2.inverse.isNull = false → r.inverse = some ⟨p.2.destination, p.2.inverse⟩
  /-- One side of every link declares the other as its inverse. -/
  joined : ∀ k, r.inverse = some k → Links.Declares ps r.key k ∨ Links.Declares ps k r.key
  /-- Following an inverse finds a relationship, whose inverse leads back. -/
  inverse : ∀ k, r.inverse = some k →
    ∃ i ∈ g.relationships, i.key = k ∧ g.inverseOf r = .ok (some i) ∧ g.inverseOf i = .ok (some r)
  found : g.relationshipAt r.key = .ok (some r)
  destination : ∃ e ∈ g.entities, e.name = p.2.destination ∧ g.destinationOf r = .ok e

namespace Schema

variable {entities : List EntityDecl} {host : Host} {config : CompilerConfig} {name version : Value}
    {s : Schema}

/-- The relationships of a schema are, one by one and in order, what the declared ones resolve
to. -/
theorem isResolved_of_compile (texts : ∀ e ∈ entities, e.IsTextual)
    (h : (compile host config entities name version).result = .ok s) :
    List.Forall₂ (Relationship.IsResolved (Links.declared entities) s.graph)
      (Links.declared entities) s.graph.relationships := by
  obtain ⟨l, records, coherent, hgraph, linked⟩ :=
    exists_links_of_compile (EntityDecl.isNamed texts) h
  have members : s.graph.relationships = (Links.declared entities).map l.relationship := by
    rw [hgraph, relationships_linkedGraph]
  rw [members, List.forall₂_map_right_iff, List.forall₂_same]
  intro p hp
  have hr : l.relationship p ∈ s.graph.relationships := by
    rw [members]
    exact List.mem_map_of_mem hp
  have joined : ∀ k, l.inverse? (Links.keyOf p) = some k ↔
      Links.Joined (Links.declared entities) (Links.keyOf p) k := fun k ↦
    records.inverse _ k (Links.isTextual_of_mem (EntityDecl.isNamed texts) hp).keyOf
  constructor
  · rfl
  · intro hn
    exact (joined _).mpr (.inl ⟨p, hp, rfl, (Links.wanted?_eq_some p _).mpr ⟨hn, rfl⟩⟩)
  · intro k hk
    exact (joined k).mp hk
  · intro k hk
    exact linked.exists_inverseOf hr hk
  · exact linked.relationshipAt_key hr
  · obtain ⟨e, he, hd, hn⟩ := linked.exists_destinationOf hr
    exact ⟨e, he, hn, hd⟩

/-- The relationships of the example are resolved: a lead has the employer of a person as its
inverse, and the employer has the lead. -/
theorem isResolved_of_compile_staff : ∃ s,
    (compile default default Staff.entities (.text "Staff") (.int 1)).result = .ok s ∧
      List.Forall₂ (Relationship.IsResolved (Links.declared Staff.entities) s.graph)
        (Links.declared Staff.entities) s.graph.relationships := by
  obtain ⟨s, hs⟩ := Staff.exists_compile_eq_ok default default rfl
  exact ⟨s, hs, isResolved_of_compile Staff.isTextual hs⟩

end Schema

end EntityGraph
