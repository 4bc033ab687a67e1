import Mathlib.Data.List.Perm.Basic
import EntityGraph.Proofs.Coherence

/-!
# Rearranged declarations

Neither the order of entities nor that of their attributes and relationships matters to compilation:
what it asks for and where relationships resolve to is said without any order. Different orders go
through different links and meet different errors first, but they end alike.
-/

namespace EntityGraph

/-- Two declarations differ at most in the order of their attributes and of their relationships. -/
structure EntityDecl.IsRearranged (e f : EntityDecl) : Prop where
  name : e.name = f.name
  attributes : e.attributes.Perm f.attributes
  relationships : e.relationships.Perm f.relationships
  isAbstract : e.isAbstract = f.isAbstract
  boundType : e.boundType = f.boundType
  unique : e.unique = f.unique

/-- Two lists of declarations differ at most in their order and in the orders inside of their
members. -/
def IsRearranged (es fs : List EntityDecl) : Prop :=
  ∃ gs, es.Perm gs ∧ List.Forall₂ EntityDecl.IsRearranged gs fs

namespace EntityDecl.IsRearranged

private theorem refl (e : EntityDecl) : e.IsRearranged e := ⟨rfl, .rfl, .rfl, rfl, rfl, rfl⟩

variable {e f : EntityDecl} (h : e.IsRearranged f)

include h

/-- Being rearranged has no direction. -/
theorem symm : f.IsRearranged e :=
  ⟨h.name.symm, h.attributes.symm, h.relationships.symm, h.isAbstract.symm, h.boundType.symm,
    h.unique.symm⟩

private theorem isTextual (texts : e.IsTextual) : f.IsTextual := by
  refine ⟨⟨?_, ?_, ?_, ?_⟩, h.boundType ▸ texts.boundType⟩
  · exact h.name ▸ texts.name
  · intro a ha
    exact texts.attributes a (h.attributes.mem_iff.mpr ha)
  · intro r hr
    exact texts.relationships r (h.relationships.mem_iff.mpr hr)
  · exact h.unique ▸ texts.unique

end EntityDecl.IsRearranged

namespace IsRearranged

variable {es fs : List EntityDecl}

/-- Being rearranged has no direction. -/
theorem symm (h : IsRearranged es fs) : IsRearranged fs es := by
  obtain ⟨gs, hperm, hall⟩ := h
  obtain ⟨hs, hall, hperm⟩ := List.perm_comp_forall₂ hperm hall
  exact ⟨hs, hperm.symm, hall.flip.imp fun _ _ h ↦ h.symm⟩

private theorem names (h : IsRearranged es fs) : (es.map (·.name)).Perm (fs.map (·.name)) := by
  obtain ⟨gs, hperm, hall⟩ := h
  have hnames : gs.map (·.name) = fs.map (·.name) := by
    rw [← List.forall₂_eq_eq_eq, List.forall₂_map_left_iff, List.forall₂_map_right_iff]
    exact hall.imp fun _ _ hef ↦ hef.name
  exact hnames ▸ hperm.map (·.name)

/-- Every entity is rearranged to another one. -/
theorem exists_mem (h : IsRearranged es fs) {e : EntityDecl} (he : e ∈ es) :
    ∃ f ∈ fs, e.IsRearranged f := by
  obtain ⟨gs, hperm, hall⟩ := h
  exact Success.exists_of_forall₂ hall (hperm.mem_iff.mp he)

/-- Rearranged textual entities are textual. -/
theorem isTextual (h : IsRearranged es fs) (texts : ∀ e ∈ es, e.IsTextual) :
    ∀ f ∈ fs, f.IsTextual := by
  intro f hf
  obtain ⟨e, he, hfe⟩ := h.symm.exists_mem hf
  exact hfe.symm.isTextual (texts e he)

private theorem copiesAlike {host host' : Host} (h : IsRearranged es fs)
    (alike : host.CopiesAlike host' es) : host.CopiesAlike host' fs := by
  intro f hf a ha
  obtain ⟨e, he, hfe⟩ := h.symm.exists_mem hf
  rw [hfe.name]
  exact alike e he a (hfe.attributes.mem_iff.mp ha)

private theorem isPortable {host host' : Host} (h : IsRearranged es fs)
    (alike : host.CopiesAlike host' es)
    (portable : ∀ e ∈ es, ∀ a ∈ e.attributes, a.IsPortable host e.name) :
    ∀ f ∈ fs, ∀ a ∈ f.attributes, a.IsPortable host' f.name := by
  intro f hf a ha
  obtain ⟨e, he, hfe⟩ := h.symm.exists_mem hf
  rw [hfe.name]
  exact alike.isPortable portable e he a (hfe.attributes.mem_iff.mp ha)

/-- A declared relationship is declared by a rearranged entity of the same name. -/
theorem exists_mem_declared (h : IsRearranged es fs) {p : EntityDecl × RelationshipDecl}
    (hp : p ∈ Links.declared es) :
    ∃ q ∈ Links.declared fs, Links.keyOf q = Links.keyOf p ∧ q.2 = p.2 := by
  obtain ⟨he, hr⟩ := (Links.mem_declared es p).mp hp
  obtain ⟨f, hf, hef⟩ := h.exists_mem he
  refine ⟨(f, p.2), (Links.mem_declared fs _).mpr ⟨hf, hef.relationships.mem_iff.mp hr⟩, ?_, rfl⟩
  rw [Links.keyOf, Links.keyOf, hef.name]

/-- What is joined stays joined. -/
theorem joined (h : IsRearranged es fs) {k i : Key} (hki : Links.Joined (Links.declared es) k i) :
    Links.Joined (Links.declared fs) k i := by
  have declares : ∀ k i, Links.Declares (Links.declared es) k i →
      Links.Declares (Links.declared fs) k i := by
    rintro k i ⟨p, hp, rfl, hw⟩
    obtain ⟨q, hq, hk, hr⟩ := h.exists_mem_declared hp
    refine ⟨q, hq, hk, ?_⟩
    rwa [Links.wanted?, hr]
  exact hki.imp (declares k i) (declares i k)

/-- Rearranged coherent entities are coherent. -/
private theorem coherent (h : IsRearranged es fs) (coherent : Coherent es) : Coherent fs := by
  constructor
  · exact h.names.nodup_iff.mp coherent.distinct
  · intro f hf n hn
    obtain ⟨e, he, hfe⟩ := h.symm.exists_mem hf
    obtain ⟨a, ha, rfl⟩ := coherent.unique e he n (hfe.unique ▸ hn)
    exact ⟨a, hfe.attributes.mem_iff.mpr ha, rfl⟩
  · intro f hf r hr
    obtain ⟨e, he, hfe⟩ := h.symm.exists_mem hf
    obtain ⟨d, hd, hn⟩ := coherent.destination e he r (hfe.relationships.mem_iff.mp hr)
    obtain ⟨d', hd', hdd'⟩ := h.exists_mem hd
    exact ⟨d', hd', hdd'.name.symm.trans hn⟩
  · intro f hf r hr hn d hd hdn
    obtain ⟨e, he, hfe⟩ := h.symm.exists_mem hf
    obtain ⟨d', hd', hdd'⟩ := h.symm.exists_mem hd
    obtain ⟨i, hi, hin⟩ := coherent.inverse e he r (hfe.relationships.mem_iff.mp hr) hn d' hd'
      (hdd'.name.symm.trans hdn)
    exact ⟨i, hdd'.relationships.mem_iff.mpr hi, hin⟩
  · intro k i j hi hj
    exact coherent.oneToOne k i j (h.symm.joined hi) (h.symm.joined hj)

end IsRearranged

/-- Where the relationship at a key leads and what its inverse is, if there is one. -/
def Graph.resolutionAt (g : Graph) (k : Key) : Except Fault (Option (Value × Option Key)) :=
  (g.relationshipAt k).map (·.map fun r ↦ (r.destination, r.inverse))

/-- In a linked graph the resolution at a key is that of the relationship whose key is the same. -/
theorem Graph.IsLinked.resolutionAt_eq_some {g : Graph} (h : g.IsLinked) {k : Key}
    (hk : k.entity.checkKey = .ok ()) (x : Value × Option Key) :
    g.resolutionAt k = .ok (some x) ↔
      ∃ r ∈ g.relationships, r.key.same k = true ∧ (r.destination, r.inverse) = x := by
  simp only [resolutionAt, Success.map_eq_ok, Option.map_eq_some_iff]
  constructor
  · rintro ⟨_, hr, r, rfl, hx⟩
    obtain ⟨hr, hs⟩ := (h.relationshipAt_eq_some hk).mp hr
    exact ⟨r, hr, hs, hx⟩
  · rintro ⟨r, hr, hs, hx⟩
    exact ⟨some r, (h.relationshipAt_eq_some hk).mpr ⟨hr, hs⟩, r, rfl, hx⟩

private theorem Graph.exists_resolutionAt (g : Graph) {k : Key} (hk : k.entity.checkKey = .ok ()) :
    ∃ x, g.resolutionAt k = .ok x := by
  rw [resolutionAt, relationshipAt_of_checkKey g hk]
  exact ⟨_, rfl⟩

namespace Schema

variable {es fs : List EntityDecl} {host host' : Host} {config : CompilerConfig}
  {name version : Value} {s t : Schema}

/-- Every relationship of a schema has a counterpart in the schema of rearranged declarations, which
has the same key and is resolved alike. -/
private theorem exists_counterpart (texts : ∀ e ∈ es, e.IsTextual) (h : IsRearranged es fs)
    (hs : (compile host config es name version).result = .ok s)
    (ht : (compile host' config fs name version).result = .ok t) {r : Relationship}
    (hr : r ∈ s.graph.relationships) :
    ∃ r' ∈ t.graph.relationships, r'.key = r.key ∧
      (r'.destination, r'.inverse) = (r.destination, r.inverse) := by
  have texts' := h.isTextual texts
  obtain ⟨l, records, -, hgraph, -⟩ := exists_links_of_compile (EntityDecl.isNamed texts) hs
  obtain ⟨l', records', -, hgraph', -⟩ := exists_links_of_compile (EntityDecl.isNamed texts') ht
  rw [hgraph, mem_relationships_linkedGraph] at hr
  obtain ⟨p, hp, rfl⟩ := hr
  obtain ⟨q, hq, hk, hqp⟩ := h.exists_mem_declared hp
  have htext := (Links.isTextual_of_mem (EntityDecl.isNamed texts) hp).keyOf
  have inverse : l'.inverse? (Links.keyOf q) = l.inverse? (Links.keyOf p) := by
    rw [hk]
    ext i
    rw [records'.inverse _ i htext, records.inverse _ i htext]
    exact ⟨h.symm.joined, h.joined⟩
  refine ⟨l'.relationship q, ?_, hk, ?_⟩
  · rw [hgraph', mem_relationships_linkedGraph]
    exact ⟨q, hq, rfl⟩
  · simp [Links.relationship, RelationshipDecl.linked, inverse, hqp]

private theorem resolutionAt_of_isRearranged (texts : ∀ e ∈ es, e.IsTextual)
    (h : IsRearranged es fs) (hs : (compile host config es name version).result = .ok s)
    (ht : (compile host' config fs name version).result = .ok t) {k : Key}
    (hk : k.entity.checkKey = .ok ()) {x : Value × Option Key}
    (hx : s.graph.resolutionAt k = .ok (some x)) : t.graph.resolutionAt k = .ok (some x) := by
  have linked := isLinked_of_compile (EntityDecl.isNamed texts) hs
  have linked' := isLinked_of_compile (EntityDecl.isNamed (h.isTextual texts)) ht
  obtain ⟨r, hr, hsame, rfl⟩ := (linked.resolutionAt_eq_some hk x).mp hx
  obtain ⟨r', hr', hkey, hres⟩ := exists_counterpart texts h hs ht hr
  exact (linked'.resolutionAt_eq_some hk _).mpr ⟨r', hr', hkey ▸ hsame, hres⟩

end Schema

end EntityGraph
