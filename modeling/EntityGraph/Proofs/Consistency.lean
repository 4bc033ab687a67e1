import EntityGraph.Proofs.Coherence

/-!
# Which stray inverses are reported

A linked pair is stray if one of the two does not lead to the owner of the other. A survey asks this
only of the second one of the pair. It misses a stray pair exactly if the second leads back while
the first leads elsewhere, and reports every other one once.
-/

namespace EntityGraph

/-- One of two relationships does not lead to the owner of the other. -/
def Relationship.IsStray (r i : Relationship) : Prop :=
  r.destination ≠ i.entity ∨ i.destination ≠ r.entity

/-- Of two relationships the second one in the graph leads to the owner of the first, and the first
leads elsewhere. -/
def Graph.Misses (g : Graph) (r i : Relationship) : Prop :=
  (g.Precedes r i ∧ r.destination ≠ i.entity ∧ i.destination = r.entity) ∨
    (g.Precedes i r ∧ i.destination ≠ r.entity ∧ r.destination = i.entity)

private theorem Finding.isStray_comm (k i : Key) : isStray k i = isStray i k := by
  funext f
  cases f with
  | strayInverse r inverse => exact Bool.or_comm _ _
  | unlinkedPair r other => rfl

namespace Graph.IsLinked

variable {g : Graph} (h : g.IsLinked) {r i : Relationship}

include h

/-- The destination of a relationship equals the owner of another one exactly if it is the owner. -/
theorem equals_entity_iff (hr : r ∈ g.relationships) (hi : i ∈ g.relationships) :
    i.destination.equals r.entity = true ↔ i.destination = r.entity :=
  (h.isText_destination hi).equals_iff (h.isText_key hr).entity

private theorem count_stray_eq (hr : r ∈ g.relationships) (hi : i ∈ g.relationships)
    (hl : r.inverse = some i.key) {fs : List Finding} (hfs : g.findings = .ok fs)
    (order : g.Precedes r i) :
    (i.destination = r.entity → fs.countP (Finding.isStray r.key i.key) = 0) ∧
      (i.destination ≠ r.entity → fs.countP (Finding.isStray r.key i.key) = 1) := by
  obtain ⟨fs', hfs', hcount⟩ := h.count_stray hl order
  obtain rfl := Except.ok.inj (hfs.symm.trans hfs')
  have back := h.equals_entity_iff hr hi
  constructor
  · intro he
    rw [hcount, if_pos (back.mpr he)]
  · intro he
    rw [hcount, if_neg (mt back.mp he)]

/-- A linked pair is reported once if it is stray and not at all otherwise, exactly if the survey
does not miss it. If the survey misses it, then it is stray and not reported. -/
private theorem reports_iff (hr : r ∈ g.relationships) (hi : i ∈ g.relationships)
    (hl : r.inverse = some i.key) {fs : List Finding} (hfs : g.findings = .ok fs) :
    ((r.IsStray i → fs.countP (Finding.isStray r.key i.key) = 1) ∧
        (¬ r.IsStray i → fs.countP (Finding.isStray r.key i.key) = 0) ↔ ¬ g.Misses r i) ∧
      (g.Misses r i → r.IsStray i ∧ fs.countP (Finding.isStray r.key i.key) = 0) := by
  have first := h.count_stray_eq hr hi hl hfs
  have second := h.count_stray_eq hi hr (h.inverse_symm hr hi hl) hfs
  rw [Finding.isStray_comm] at second
  refine ⟨⟨?_, ?_⟩, ?_⟩
  · rintro ⟨hone, -⟩ (⟨order, hne, he⟩ | ⟨order, hne, he⟩)
    · have hzero := (first order).1 he
      have hcount := hone (.inl hne)
      omega
    · have hzero := (second order).1 he
      have hcount := hone (.inr hne)
      omega
  · intro hmiss
    rcases precedes_total hr hi with order | order
    · constructor
      · rintro (hne | hne)
        · exact (first order).2 fun he ↦ hmiss (.inl ⟨order, hne, he⟩)
        · exact (first order).2 hne
      · intro hback
        exact (first order).1 (not_not.mp fun hne ↦ hback (.inr hne))
    · constructor
      · rintro (hne | hne)
        · exact (second order).2 hne
        · exact (second order).2 fun he ↦ hmiss (.inr ⟨order, hne, he⟩)
      · intro hback
        exact (second order).1 (not_not.mp fun hne ↦ hback (.inl hne))
  · rintro (⟨order, hne, he⟩ | ⟨order, hne, he⟩)
    · exact ⟨.inl hne, (first order).1 he⟩
    · exact ⟨.inr hne, (second order).1 he⟩

end Graph.IsLinked

namespace Schema

variable {entities : List EntityDecl} {host : Host} {config : CompilerConfig} {name version : Value}
    {s : Schema}
  {r i : Relationship}

/-- A schema has findings, each of which can be said, and none where they refuse it. -/
theorem exists_findings_of_compile (texts : ∀ e ∈ entities, e.IsTextual)
    (h : (compile host config entities name version).result = .ok s) :
    ∃ fs notes, s.graph.findings = .ok fs ∧ s.graph.validate = .ok notes ∧
      List.Forall₂ (fun f t ↦ f.message = .ok t) fs notes ∧
        (config.isStrict = true → fs = []) := by
  have linked := isLinked_of_compile (EntityDecl.isNamed texts) h
  obtain ⟨fs, notes, hfs, hnotes, hsaid⟩ := linked.exists_validate
  refine ⟨fs, notes, hfs, hnotes, hsaid, fun strict ↦ ?_⟩
  have hconfig : config = { config with isStrict := true } := by rw [← strict]
  rw [hconfig] at h
  have hnil := ((compile_strict_eq_ok (EntityDecl.isNamed texts) host config name version s).mp h).2
  obtain rfl := Except.ok.inj (hnotes.symm.trans hnil)
  exact List.forall₂_nil_right_iff.mp hsaid

/-- A linked pair of a schema is reported once if it is stray and not at all otherwise, exactly if
the survey does not miss it. A pair that it misses is stray and not reported, and these are the only
stray pairs of a schema where findings refuse it. -/
theorem reports_iff_of_compile (texts : ∀ e ∈ entities, e.IsTextual)
    (h : (compile host config entities name version).result = .ok s)
    (hr : r ∈ s.graph.relationships) (hi : i ∈ s.graph.relationships)
    (hl : r.inverse = some i.key) :
    ∃ fs notes, s.graph.findings = .ok fs ∧ s.graph.validate = .ok notes ∧
      List.Forall₂ (fun f t ↦ f.message = .ok t) fs notes ∧
      ((r.IsStray i → fs.countP (Finding.isStray r.key i.key) = 1) ∧
        (¬ r.IsStray i → fs.countP (Finding.isStray r.key i.key) = 0) ↔ ¬ s.graph.Misses r i) ∧
      (s.graph.Misses r i → r.IsStray i ∧ fs.countP (Finding.isStray r.key i.key) = 0) ∧
      (config.isStrict = true → r.IsStray i → s.graph.Misses r i) := by
  have linked := isLinked_of_compile (EntityDecl.isNamed texts) h
  obtain ⟨fs, notes, hfs, hnotes, hsaid, hstrict⟩ := exists_findings_of_compile texts h
  obtain ⟨reported, missed⟩ := linked.reports_iff hr hi hl hfs
  refine ⟨fs, notes, hfs, hnotes, hsaid, reported, missed, fun strict hstray ↦ ?_⟩
  by_contra hmiss
  have hone := (reported.mpr hmiss).1 hstray
  rw [hstrict strict] at hone
  cases hone

end Schema

namespace Staff

/-- The employer of a person in a schema of the example. -/
def resolvedEmployer : Relationship :=
  employer.linked (.text "Person") (some ⟨.text "Team", .text "lead"⟩)

/-- The lead of a team in a schema of the example. -/
def resolvedLead : Relationship :=
  lead.linked (.text "Team") (some ⟨.text "Person", .text "employer"⟩)

variable {host : Host} {config : CompilerConfig} {name version : Value} {s : Schema}

/-- The relationships in a schema of the example. -/
theorem relationships_of_compile
    (h : (Schema.compile host config entities name version).result = .ok s) :
    s.graph.relationships = [resolvedEmployer, resolvedLead] := by
  obtain ⟨l, records, -, hgraph, -⟩ := Schema.exists_links_of_compile
    (EntityDecl.isNamed isTextual) h
  have hemployer : l.inverse? ⟨.text "Person", .text "employer"⟩ =
      some ⟨.text "Team", .text "lead"⟩ :=
    (records.inverse _ _ ⟨⟨_, rfl⟩, ⟨_, rfl⟩⟩).mpr (.inr ((declares_iff _ _).mpr ⟨rfl, rfl⟩))
  have hlead : l.inverse? ⟨.text "Team", .text "lead"⟩ =
      some ⟨.text "Person", .text "employer"⟩ :=
    (records.inverse _ _ ⟨⟨_, rfl⟩, ⟨_, rfl⟩⟩).mpr (.inl ((declares_iff _ _).mpr ⟨rfl, rfl⟩))
  have declared : Links.declared entities = [(person, employer), (team, lead)] := rfl
  rw [hgraph, Schema.relationships_linkedGraph, declared]
  show [employer.linked _ (l.inverse? ⟨.text "Person", .text "employer"⟩),
    lead.linked _ (l.inverse? ⟨.text "Team", .text "lead"⟩)] = _
  rw [hemployer, hlead]
  rfl

private theorem isStray : resolvedEmployer.IsStray resolvedLead := by
  left
  simp [resolvedEmployer, resolvedLead, RelationshipDecl.linked, employer, Value.text]

private theorem misses (h : (Schema.compile host config entities name version).result = .ok s) :
    s.graph.Misses resolvedEmployer resolvedLead := by
  left
  refine ⟨⟨[], [resolvedLead], relationships_of_compile h, by simp⟩, ?_, rfl⟩
  simp [resolvedEmployer, resolvedLead, RelationshipDecl.linked, employer, Value.text]

/-- There are no findings about a schema of the example. -/
private theorem findings_of_compile
    (h : (Schema.compile host config entities name version).result = .ok s) :
    s.graph.findings = .ok [] := by
  have linked := Schema.isLinked_of_compile (EntityDecl.isNamed isTextual) h
  have members := relationships_of_compile h
  have hr : resolvedEmployer ∈ s.graph.relationships := by simp [members]
  have hi : resolvedLead ∈ s.graph.relationships := by simp [members]
  have back : resolvedLead.destination.equals resolvedEmployer.entity = true :=
    (linked.equals_entity_iff hr hi).mpr rfl
  have seen : resolvedLead.key.among [resolvedLead.key] = true := by
    simp [Key.among, (linked.same_key_iff hi hi).mpr rfl]
  have first : Survey.visit s.graph ⟨[], []⟩ resolvedEmployer = .ok ⟨[resolvedLead.key], []⟩ := by
    rw [Survey.visit_linked linked hi rfl, back]
    rfl
  have second : Survey.visit s.graph ⟨[resolvedLead.key], []⟩ resolvedLead =
      .ok ⟨[resolvedLead.key], []⟩ := by
    rw [Survey.visit_linked linked hr rfl, seen]
    rfl
  simp [Graph.findings, members, first, second, Except.map, bind, Except.bind, pure, Except.pure]

end Staff

namespace Schema

/-- The pair of the example is missed. -/
theorem reports_iff_of_compile_staff : ∃ s fs,
    (compile default default Staff.entities (.text "Staff") (.int 1)).result = .ok s ∧
      s.graph.findings = .ok fs ∧ Staff.resolvedEmployer.IsStray Staff.resolvedLead ∧
      fs.countP (Finding.isStray Staff.resolvedEmployer.key Staff.resolvedLead.key) = 0 := by
  obtain ⟨s, hs⟩ := Staff.exists_compile_eq_ok default default rfl
  have members := Staff.relationships_of_compile hs
  obtain ⟨fs, -, hfs, -, -, -, missed, -⟩ := reports_iff_of_compile Staff.isTextual hs
    (r := Staff.resolvedEmployer) (i := Staff.resolvedLead) (by simp [members])
    (by simp [members]) rfl
  exact ⟨s, fs, hs, hfs, missed (Staff.misses hs)⟩

/-- A schema may have a linked pair one side of which does not lead back and yet no findings, even
where findings refuse it. -/
theorem exists_stray_without_findings : ∃ s r i,
    (compile default { (default : CompilerConfig) with isStrict := true } Staff.entities
      (.text "Staff") (.int 1)).result = .ok s ∧
      r ∈ s.graph.relationships ∧ i ∈ s.graph.relationships ∧ r.inverse = some i.key ∧
      r.IsStray i ∧ s.graph.findings = .ok [] ∧ s.graph.validate = .ok [] := by
  obtain ⟨s, hs⟩ := Staff.exists_compile_eq_ok default default rfl
  have members := Staff.relationships_of_compile hs
  have findings := Staff.findings_of_compile hs
  have validate : s.graph.validate = .ok [] := by
    rw [Graph.validate, findings]
    rfl
  have strict := (compile_strict_eq_ok (EntityDecl.isNamed Staff.isTextual) default default
    (.text "Staff") (.int 1) s).mpr ⟨hs, validate⟩
  exact ⟨s, Staff.resolvedEmployer, Staff.resolvedLead, strict, by simp [members],
    by simp [members], rfl, Staff.isStray, findings, validate⟩

end Schema

end EntityGraph
