import EntityGraph.Proofs.Redeclaration

/-!
# Schemas side by side

Two lists of entities without a common name make one schema if each makes one. What one part asks
for is never in the other part, so linking, look-ups and the survey go through the whole as they go
through the parts, and the findings of the whole are those of the parts.
-/

namespace EntityGraph

open EntityGraph.Links

/-! ### Declarations -/

/-- No entity of a list has the name of one of another list. -/
def Apart (es fs : List EntityDecl) : Prop := ∀ e ∈ es, ∀ f ∈ fs, e.name ≠ f.name

/-- Being apart has no direction. -/
theorem Apart.symm {es fs : List EntityDecl} (h : Apart es fs) : Apart fs es :=
  fun f hf e he ↦ (h e he f hf).symm

namespace Links

/-- The relationships that two lists declare are those of the first, then those of the second. -/
theorem declared_append (es fs : List EntityDecl) :
    declared (es ++ fs) = declared es ++ declared fs :=
  List.flatMap_append

/-- Two lists join what either of them joins. -/
theorem joined_append (ps qs : List (EntityDecl × RelationshipDecl)) (k i : Key) :
    Joined (ps ++ qs) k i ↔ Joined ps k i ∨ Joined qs k i := by
  have declares : ∀ k i, Declares (ps ++ qs) k i ↔ Declares ps k i ∨ Declares qs k i := by
    intro k i
    simp only [Declares, List.mem_append, or_and_right, exists_or]
  rw [Joined, declares, declares]
  exact or_or_or_comm

end Links

/-- Only relationships of coherent entities are joined to others. -/
theorem Coherent.exists_owner {es : List EntityDecl} (h : Coherent es) {k i : Key}
    (hj : Joined (declared es) k i) : ∃ e ∈ es, e.name = k.entity := by
  have resolves := ((coherent_iff es).mp h).2.2.1
  obtain ⟨p, hp, hk⟩ := exists_of_joined resolves hj.symm
  exact ⟨p.1, ((mem_declared es p).mp hp).1, congrArg Key.entity hk⟩

namespace Apart

variable {es fs : List EntityDecl} (apart : Apart es fs)

include apart

private theorem joined_iff (coherent : Coherent fs) {e : EntityDecl} (he : e ∈ es) {k : Key}
    (hk : e.name = k.entity) (i : Key) :
    Joined (declared (es ++ fs)) k i ↔ Joined (declared es) k i := by
  rw [declared_append, joined_append]
  refine or_iff_left fun hj ↦ ?_
  obtain ⟨f, hf, hn⟩ := coherent.exists_owner hj
  exact apart e he f hf (hk.trans hn.symm)

private theorem inverse_of_mem (coherent : Coherent es) {e : EntityDecl} (he : e ∈ es)
    {r : RelationshipDecl} (hr : r ∈ e.relationships) (declares : r.inverse.isNull = false)
    {d : EntityDecl} (hd : d ∈ es ++ fs) (hn : d.name = r.destination) :
    ∃ i ∈ d.relationships, i.name = r.inverse := by
  rcases List.mem_append.mp hd with hd | hd
  · exact coherent.inverse e he r hr declares d hd hn
  · obtain ⟨d', hd', hn'⟩ := coherent.destination e he r hr
    exact absurd (hn'.trans hn.symm) (apart d' hd' d hd)

/-- Coherent entities stay coherent beside others that are. -/
private theorem coherent_append (hes : Coherent es) (hfs : Coherent fs) : Coherent (es ++ fs) := by
  constructor
  · rw [List.map_append]
    refine List.nodup_append.mpr ⟨hes.distinct, hfs.distinct, ?_⟩
    intro m hm n hn
    obtain ⟨e, he, rfl⟩ := List.mem_map.mp hm
    obtain ⟨f, hf, rfl⟩ := List.mem_map.mp hn
    exact apart e he f hf
  · exact List.forall_mem_append.mpr ⟨hes.unique, hfs.unique⟩
  · intro e he r hr
    rcases List.mem_append.mp he with he | he
    · obtain ⟨d, hd, hn⟩ := hes.destination e he r hr
      exact ⟨d, List.mem_append_left fs hd, hn⟩
    · obtain ⟨d, hd, hn⟩ := hfs.destination e he r hr
      exact ⟨d, List.mem_append_right es hd, hn⟩
  · intro e he r hr declares d hd hn
    rcases List.mem_append.mp he with he | he
    · exact apart.inverse_of_mem hes he hr declares hd hn
    · apply apart.symm.inverse_of_mem hfs he hr declares _ hn
      rwa [List.mem_append, or_comm, ← List.mem_append]
  · intro k i j hi hj
    rw [declared_append, joined_append] at hi hj
    rcases hi with hi | hi <;> rcases hj with hj | hj
    · exact hes.oneToOne k i j hi hj
    · obtain ⟨e, he, hn⟩ := hes.exists_owner hi
      obtain ⟨f, hf, hn'⟩ := hfs.exists_owner hj
      exact absurd (hn.trans hn'.symm) (apart e he f hf)
    · obtain ⟨f, hf, hn⟩ := hfs.exists_owner hi
      obtain ⟨e, he, hn'⟩ := hes.exists_owner hj
      exact absurd (hn'.trans hn.symm) (apart e he f hf)
    · exact hfs.oneToOne k i j hi hj

end Apart

/-- Under links that join the relationships of an entity alike, on hosts that copy its defaults
alike, the entity is the same. -/
private theorem EntityDecl.linked_eq {ps qs : List (EntityDecl × RelationshipDecl)} {l m : Links}
    (records : Records ps l) (records' : Records qs m) {e : EntityDecl} (texts : e.IsTextual)
    (same : ∀ k i, e.name = k.entity → (Joined qs k i ↔ Joined ps k i)) {host host' : Host}
    (copied : ∀ a ∈ e.attributes, a.copied host e.name = a.copied host' e.name)
    (config : CompilerConfig) : e.linked host' config m = e.linked host config l := by
  have inverse : ∀ r ∈ e.relationships, m.relationship (e, r) = l.relationship (e, r) := by
    intro r hr
    have key : (keyOf (e, r)).IsText := ⟨texts.name, (texts.relationships r hr).name⟩
    have hinv : m.inverse? (keyOf (e, r)) = l.inverse? (keyOf (e, r)) := by
      ext i
      rw [records'.inverse _ i key, records.inverse _ i key]
      exact same _ i rfl
    rw [Links.relationship, hinv]
    rfl
  have attributes : ∀ a ∈ e.attributes, a.compiled host' e.name = a.compiled host e.name := by
    intro a ha
    rw [AttributeDecl.compiled, AttributeDecl.compiled, copied a ha]
  rw [EntityDecl.linked, List.map_congr_left inverse, List.map_congr_left attributes]
  rfl

/-- Entities that are apart from others have the same graph beside them. -/
private theorem Apart.entities_linkedGraph {es fs : List EntityDecl} (apart : Apart es fs)
    (texts : ∀ e ∈ es, e.IsTextual) (texts' : ∀ f ∈ fs, f.IsTextual) (hes : Coherent es)
    (hfs : Coherent fs) {l l' m : Links} (records : Records (declared es) l)
    (records' : Records (declared fs) l') (whole : Records (declared (es ++ fs)) m)
    {host host' joint : Host} (alike : host.CopiesAlike joint es)
    (alike' : host'.CopiesAlike joint fs) (config : CompilerConfig)
    (name version name' version' : Value) :
    (Schema.linkedGraph joint config m (es ++ fs) name version).entities =
      (Schema.linkedGraph host config l es name version).entities ++
        (Schema.linkedGraph host' config l' fs name' version').entities := by
  have first : ∀ e ∈ es, e.linked joint config m = e.linked host config l := fun e he ↦
    EntityDecl.linked_eq records whole (texts e he)
      (fun k i hk ↦ apart.joined_iff hfs he hk i) (fun _ ↦ alike.copied he) config
  have second : ∀ f ∈ fs, f.linked joint config m = f.linked host' config l' := fun f hf ↦
    EntityDecl.linked_eq records' whole (texts' f hf) (fun k i hk ↦ by
      rw [← apart.symm.joined_iff hes hf hk, declared_append, declared_append, joined_append,
        joined_append, or_comm]) (fun _ ↦ alike'.copied hf) config
  simp only [Schema.linkedGraph, List.map_append, List.map_congr_left first,
    List.map_congr_left second]

/-! ### Look-ups -/

namespace Graph

/-- A graph resolves a relationship of another graph as the other one does. -/
structure Retains (g a : Graph) (r : Relationship) : Prop where
  whole : g.relationshipAt r.key = .ok (some r)
  part : a.relationshipAt r.key = .ok (some r)
  destination : g.destinationOf r = a.destinationOf r
  inverse : g.inverseOf r = a.inverseOf r

namespace IsLinked

variable {g a : Graph} (h : g.IsLinked) (ha : a.IsLinked)
  (subset : ∀ e ∈ a.entities, e ∈ g.entities)

include subset in
/-- A relationship of a part is one of the whole. -/
theorem mem_relationships_of_subset {r : Relationship} (hr : r ∈ a.relationships) :
    r ∈ g.relationships := by
  obtain ⟨e, he, hr⟩ := (mem_relationships a r).mp hr
  exact (mem_relationships g r).mpr ⟨e, subset e he, hr⟩

include h ha subset

/-- A linked graph resolves the relationships of every linked part of it as the part does. -/
theorem retains {r : Relationship} (hr : r ∈ a.relationships) : g.Retains a r := by
  have hg := mem_relationships_of_subset subset hr
  constructor
  · exact h.relationshipAt_key hg
  · exact ha.relationshipAt_key hr
  · obtain ⟨e, he, hd, hn⟩ := ha.exists_destinationOf hr
    obtain ⟨f, hf, hd', hn'⟩ := h.exists_destinationOf hg
    have hef : e = f :=
      List.inj_on_of_nodup_map h.distinct (subset e he) hf (hn.trans hn'.symm)
    rw [hd, hd', hef]
  · cases hl : r.inverse with
    | none => rw [inverseOf, inverseOf, hl]
    | some k =>
      obtain ⟨i, hi, rfl, -⟩ := ha.inverse r hr k hl
      rw [ha.inverseOf_eq hi hl, h.inverseOf_eq (mem_relationships_of_subset subset hi) hl]

end IsLinked

end Graph

/-! ### The survey -/

namespace Survey

open EntityGraph.Graph

/-- A survey with an older one before it. -/
def onto (old s : Survey) : Survey := ⟨s.seen ++ old.seen, old.findings ++ s.findings⟩

private theorem visit_of_retains {g a : Graph} {r : Relationship} (h : g.Retains a r) (s : Survey) :
    visit g s r = visit a s r := by
  rw [visit, visit, h.inverse, h.destination]

private theorem foldlM_of_retains {g a : Graph} (rs : List Relationship)
    (h : ∀ r ∈ rs, g.Retains a r) (s : Survey) : rs.foldlM (visit g) s = rs.foldlM (visit a) s := by
  induction rs generalizing s with
  | nil => rfl
  | cons r rs ih =>
    obtain ⟨hr, hrs⟩ := List.forall_mem_cons.mp h
    rw [List.foldlM_cons, List.foldlM_cons, visit_of_retains hr]
    cases visit a s r with
    | error f => rfl
    | ok s' => exact ih hrs s'

variable {g : Graph} (h : g.IsLinked)

include h

/-- What an older survey has seen of other relationships does not matter to a visit. -/
private theorem visit_onto {old : Survey}
    (strange : ∀ r ∈ g.relationships, r.key.among old.seen = false)
    {r : Relationship} (hr : r ∈ g.relationships) (s : Survey) :
    visit g (old.onto s) r = (visit g s r).map old.onto := by
  have among : ∀ x ∈ g.relationships, x.key.among (old.onto s).seen = x.key.among s.seen := by
    intro x hx
    have hold := strange x hx
    rw [Key.among] at hold
    rw [onto, Key.among, List.any_append, hold, Bool.or_false]
    rfl
  cases hl : r.inverse with
  | some k =>
    obtain ⟨i, hi, rfl, -⟩ := h.inverse r hr k hl
    rw [visit_linked h hi hl, visit_linked h hi hl, among r hr]
    split
    · rfl
    · simp [onto, Except.map]
  | none =>
    obtain ⟨e, he, hd, -⟩ := h.exists_destinationOf hr
    have partners : e.relationships.find? (isPartner (old.onto s).seen r) =
        e.relationships.find? (isPartner s.seen r) := by
      apply List.find?_congr
      intro x hx
      rw [isPartner, isPartner, among x ((mem_relationships g x).mpr ⟨e, he, hx⟩)]
    rw [visit_unlinked hd hl, visit_unlinked hd hl, partners]
    split
    · split <;> simp [onto, Except.map]
    · rfl

private theorem foldlM_onto {old : Survey}
    (strange : ∀ r ∈ g.relationships, r.key.among old.seen = false) (rs : List Relationship)
    (members : ∀ r ∈ rs, r ∈ g.relationships) (s : Survey) :
    rs.foldlM (visit g) (old.onto s) = (rs.foldlM (visit g) s).map old.onto := by
  induction rs generalizing s with
  | nil => rfl
  | cons r rs ih =>
    obtain ⟨hr, hrs⟩ := List.forall_mem_cons.mp members
    rw [List.foldlM_cons, List.foldlM_cons, visit_onto h strange hr]
    cases visit g s r with
    | error f => rfl
    | ok s' => exact ih hrs s'

private theorem exists_foldlM_visit :
    ∃ s, g.relationships.foldlM (visit g) ⟨[], []⟩ = .ok s ∧
      ∀ k ∈ s.seen, ∃ r ∈ g.relationships, r.key = k := by
  refine Success.foldlM_of_invariant (visit g)
    (fun s ↦ ∀ k ∈ s.seen, ∃ r ∈ g.relationships, r.key = k) g.relationships _ ?_ (by simp)
  intro r hr s hs
  obtain ⟨s', hv, rfl | ⟨i, hi, -, rfl⟩ | ⟨-, other, -, rfl⟩⟩ := visit_cases h hr s
  · exact ⟨s', hv, hs⟩
  · exact ⟨_, hv, List.forall_mem_cons.mpr ⟨⟨i, hi, rfl⟩, hs⟩⟩
  · exact ⟨_, hv, List.forall_mem_cons.mpr ⟨⟨r, hr, rfl⟩, hs⟩⟩

end Survey

namespace Graph.IsLinked

variable {g a b : Graph} (h : g.IsLinked) (ha : a.IsLinked) (hb : b.IsLinked)
  (parts : g.entities = a.entities ++ b.entities)

include h ha hb parts

/-- The findings about two linked graphs side by side are those about the first, then those about
the second. -/
private theorem findings_append : ∃ fs gs, a.findings = .ok fs ∧ b.findings = .ok gs ∧
    g.findings = .ok (fs ++ gs) := by
  have first : ∀ e ∈ a.entities, e ∈ g.entities := fun e he ↦ parts ▸ List.mem_append_left _ he
  have second : ∀ e ∈ b.entities, e ∈ g.entities := fun e he ↦ parts ▸ List.mem_append_right _ he
  obtain ⟨s, hs, hseen⟩ := Survey.exists_foldlM_visit ha
  obtain ⟨t, ht, -⟩ := Survey.exists_foldlM_visit hb
  have hsplit : g.relationships = a.relationships ++ b.relationships := by
    rw [relationships, parts, List.flatMap_append]
    rfl
  have disjoint := (List.nodup_append'.mp (hsplit ▸ h.nodup_relationships)).2.2
  have strange : ∀ r ∈ b.relationships, r.key.among s.seen = false := by
    intro r hr
    rw [Key.among, List.any_eq_false]
    intro k hk same
    obtain ⟨x, hx, rfl⟩ := hseen k hk
    have hrx := (h.same_key_iff (mem_relationships_of_subset second hr)
      (mem_relationships_of_subset first hx)).mp same
    exact disjoint hx (hrx ▸ hr)
  have hs' : a.relationships.foldlM (Survey.visit g) ⟨[], []⟩ = .ok s := by
    rw [← hs]
    exact Survey.foldlM_of_retains _ (fun r hr ↦ h.retains ha first hr) _
  have ht' : b.relationships.foldlM (Survey.visit g) s = .ok (s.onto t) := by
    have same : b.relationships.foldlM (Survey.visit g) s =
        b.relationships.foldlM (Survey.visit b) (s.onto ⟨[], []⟩) := by
      rw [Survey.onto, List.nil_append, List.append_nil]
      exact Survey.foldlM_of_retains _ (fun r hr ↦ h.retains hb second hr) s
    rw [same, Survey.foldlM_onto hb strange _ (fun _ hr ↦ hr), ht]
    rfl
  refine ⟨s.findings, t.findings, ?_, ?_, ?_⟩
  · rw [findings, hs]
    rfl
  · rw [findings, ht]
    rfl
  · rw [findings, hsplit, List.foldlM_append, hs']
    show (b.relationships.foldlM (Survey.visit g) s).map _ = _
    rw [ht']
    rfl

private theorem validate_append : ∃ ms ns, a.validate = .ok ms ∧ b.validate = .ok ns ∧
    g.validate = .ok (ms ++ ns) := by
  obtain ⟨fs, gs, hfs, hgs, hall⟩ := h.findings_append ha hb parts
  obtain ⟨_, ms, -, hms, -⟩ := ha.exists_validate
  obtain ⟨_, ns, -, hns, -⟩ := hb.exists_validate
  refine ⟨ms, ns, hms, hns, ?_⟩
  rw [validate, hfs] at hms
  rw [validate, hgs] at hns
  rw [validate, hall]
  show (fs ++ gs).mapM Finding.message = _
  rw [Success.mapM_eq_ok]
  exact List.rel_append ((Success.mapM_eq_ok _ _ _).mp hms) ((Success.mapM_eq_ok _ _ _).mp hns)

end Graph.IsLinked

/-! ### Schemas -/

namespace Schema

/-- The entities in the view of a schema. -/
def HasEntityViews (s : Schema) (vs : List Value) : Prop :=
  ∃ v, s.graph.view = .ok v ∧ v.get "entities" = .list vs

private theorem exists_hasEntityViews (s : Schema) :
    ∃ vs, s.graph.entities.mapM (·.view) = .ok vs ∧ s.HasEntityViews vs := by
  obtain ⟨v, hv, -⟩ := (Success.bind_eq_ok _ _ _).mp s.fingerprint_eq
  obtain ⟨vs, hvs, hrecord⟩ := (Success.bind_eq_ok _ _ _).mp hv
  refine ⟨vs, hvs, v, hv, ?_⟩
  obtain rfl := Except.ok.inj hrecord
  simp [Value.get, Value.get?, Value.record, Value.find?]

variable {es fs : List EntityDecl} {host host' joint : Host} {config : CompilerConfig}
  {name version name' version' : Value} {s t : Schema}

end Schema

/-! ### An example -/

namespace Shopping

private theorem exists_compile_eq_ok (host : Host) (config : CompilerConfig)
    (lenient : config.isStrict = false) :
    ∃ s, (Schema.compile host config fromItems (.text "Shopping") (.int 1)).result = .ok s := by
  refine (Schema.exists_compile_eq_ok isTextual lenient).mpr ⟨coherent, ?_, ?_, ?_⟩
  · simp [fromItems, list, item, Staff.entityOf]
  · exact Value.isShowable_text "Shopping"
  · exact (Value.isShowable_int_iff 1).mpr (Number.Integer.isTooLong_of_le_one le_rfl)

private theorem apart : Apart Staff.entities fromItems := by
  simp [Apart, Staff.entities, Staff.person, Staff.team, Staff.company, fromItems, list, item,
    Staff.entityOf, Value.text]

end Shopping

end EntityGraph
