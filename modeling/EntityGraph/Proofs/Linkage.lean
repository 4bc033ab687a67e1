import Mathlib.Data.List.Nodup
import EntityGraph.Proofs.Names
import EntityGraph.Schema.Consistency

/-!
# Look-ups in linked graphs

A graph is linked when names tell its entities and relationships apart, every destination is one
of its entities, and inverses are mutual. In a linked graph every look-up along a relationship
finds what the relationship says, and following an inverse twice leads back.
-/

namespace EntityGraph.Graph

/-- Names are texts that tell entities and relationships apart, destinations are entities of the
graph, and inverses are mutual. -/
structure IsLinked (g : Graph) : Prop where
  texts : ∀ e ∈ g.entities, e.name.IsText
  distinct : (g.entities.map (·.name)).Nodup
  owned : ∀ e ∈ g.entities, ∀ r ∈ e.relationships, r.entity = e.name
  named : ∀ e ∈ g.entities, ∀ r ∈ e.relationships, r.name.IsText
  distinctNames : ∀ e ∈ g.entities, (e.relationships.map (·.name)).Nodup
  destination : ∀ r ∈ g.relationships, ∃ e ∈ g.entities, e.name = r.destination
  inverse : ∀ r ∈ g.relationships, ∀ k, r.inverse = some k →
    ∃ i ∈ g.relationships, i.key = k ∧ i.inverse = some r.key

/-- The look-up at a key that can be looked up finds a relationship or none. -/
theorem relationshipAt_of_checkKey (g : Graph) {k : Key} (hk : k.entity.checkKey = .ok ()) :
    g.relationshipAt k = .ok ((g.find? k.entity).bind (·.relationship? k.name)) := by
  rw [relationshipAt, entity?, hk]
  rfl

/-- A relationship of a graph is one of an entity. -/
theorem mem_relationships (g : Graph) (r : Relationship) :
    r ∈ g.relationships ↔ ∃ e ∈ g.entities, r ∈ e.relationships :=
  List.mem_flatMap

namespace IsLinked

variable {g : Graph} (h : g.IsLinked) {r i : Relationship}

include h

/-- The key of a relationship is one of texts. -/
theorem isText_key (hr : r ∈ g.relationships) : r.key.IsText := by
  obtain ⟨e, he, hr⟩ := (mem_relationships g r).mp hr
  constructor
  · rw [Relationship.key, h.owned e he r hr]
    exact h.texts e he
  · exact h.named e he r hr

/-- The destination of a relationship is a text. -/
theorem isText_destination (hr : r ∈ g.relationships) : r.destination.IsText := by
  obtain ⟨e, he, hn⟩ := h.destination r hr
  exact hn ▸ h.texts e he

/-- A relationship is known by its key. -/
theorem eq_of_key_eq (hr : r ∈ g.relationships) (hi : i ∈ g.relationships)
    (hk : r.key = i.key) : r = i := by
  obtain ⟨e, he, hr⟩ := (mem_relationships g r).mp hr
  obtain ⟨f, hf, hi⟩ := (mem_relationships g i).mp hi
  have hef : e = f := by
    apply List.inj_on_of_nodup_map h.distinct he hf
    rw [← h.owned e he r hr, ← h.owned f hf i hi]
    exact congrArg Key.entity hk
  subst hef
  exact List.inj_on_of_nodup_map (h.distinctNames e he) hr hi (congrArg Key.name hk)

/-- Two relationships have the same key exactly if they are one. -/
theorem same_key_iff (hr : r ∈ g.relationships) (hi : i ∈ g.relationships) :
    r.key.same i.key = true ↔ r = i := by
  rw [(h.isText_key hr).same_iff (h.isText_key hi)]
  exact ⟨h.eq_of_key_eq hr hi, congrArg Relationship.key⟩

/-- Two different relationships have keys that are told apart. -/
theorem same_key_of_ne (hr : r ∈ g.relationships) (hi : i ∈ g.relationships) (hne : r ≠ i) :
    r.key.same i.key = false := by
  rw [← Bool.not_eq_true, h.same_key_iff hr hi]
  exact hne

/-- No relationship is listed twice. -/
theorem nodup_relationships : g.relationships.Nodup := by
  rw [relationships, List.nodup_flatMap]
  constructor
  · intro e he
    exact (h.distinctNames e he).of_map
  · refine (List.pairwise_map.mp h.distinct).imp_of_mem ?_
    intro e f he hf hne r hr hr'
    exact hne ((h.owned e he r hr).symm.trans (h.owned f hf r hr'))

/-- The entity that a key finds. -/
theorem find?_eq_some (v : Value) (e : Entity) :
    g.find? v = some e ↔ e ∈ g.entities ∧ e.name.same v = true :=
  find?_name_eq_some h.texts h.distinct v e

private theorem relationship?_eq_some {e : Entity} (he : e ∈ g.entities) (v : Value) :
    e.relationship? v = some r ↔ r ∈ e.relationships ∧ r.name.same v = true := by
  have equal : ∀ s ∈ e.relationships, s.name.equals v = s.name.same v := by
    intro s hs
    obtain ⟨t, ht⟩ := h.named e he s hs
    rw [ht, Value.text_equals]
  rw [Entity.relationship?, List.find?_congr equal]
  exact find?_name_eq_some (h.named e he) (h.distinctNames e he) v r

/-- The relationship at a key is the one whose key is the same. -/
theorem relationshipAt_eq_some {k : Key} (hk : k.entity.checkKey = .ok ()) :
    g.relationshipAt k = .ok (some r) ↔ r ∈ g.relationships ∧ r.key.same k = true := by
  rw [relationshipAt_of_checkKey g hk, Except.ok.injEq, Option.bind_eq_some_iff, mem_relationships]
  constructor
  · rintro ⟨e, hfind, hr⟩
    obtain ⟨he, hs⟩ := (h.find?_eq_some _ e).mp hfind
    obtain ⟨hr, hn⟩ := (h.relationship?_eq_some he _).mp hr
    refine ⟨⟨e, he, hr⟩, ?_⟩
    rw [Key.same, Bool.and_eq_true, Relationship.key, h.owned e he r hr]
    exact ⟨hs, hn⟩
  · rintro ⟨⟨e, he, hr⟩, hs⟩
    rw [Key.same, Bool.and_eq_true, Relationship.key, h.owned e he r hr] at hs
    exact ⟨e, (h.find?_eq_some _ e).mpr ⟨he, hs.1⟩,
      (h.relationship?_eq_some he _).mpr ⟨hr, hs.2⟩⟩

/-- The relationship at the key of a relationship is that relationship. -/
theorem relationshipAt_key (hr : r ∈ g.relationships) : g.relationshipAt r.key = .ok (some r) := by
  have hk := h.isText_key hr
  exact (h.relationshipAt_eq_some hk.entity.checkKey).mpr ⟨hr, (hk.same_iff hk).mpr rfl⟩

/-- A relationship leads to the entity of its destination. -/
theorem exists_destinationOf (hr : r ∈ g.relationships) :
    ∃ e ∈ g.entities, g.destinationOf r = .ok e ∧ e.name = r.destination := by
  obtain ⟨e, he, hn⟩ := h.destination r hr
  have ht := h.isText_destination hr
  have hs : e.name.same r.destination = true := by
    rw [hn, ht.same_iff ht]
  refine ⟨e, he, ?_, hn⟩
  rw [destinationOf, entity?, ht.checkKey, (h.find?_eq_some _ e).mpr ⟨he, hs⟩]
  rfl

/-- The inverse of a relationship is the one of the key that it is linked to. -/
theorem inverseOf_eq (hi : i ∈ g.relationships) (hl : r.inverse = some i.key) :
    g.inverseOf r = .ok (some i) := by
  rw [inverseOf, hl]
  exact h.relationshipAt_key hi

/-- Linked relationships are linked both ways. -/
theorem inverse_symm (hr : r ∈ g.relationships) (hi : i ∈ g.relationships)
    (hl : r.inverse = some i.key) : i.inverse = some r.key := by
  obtain ⟨j, hj, hk, hb⟩ := h.inverse r hr i.key hl
  rwa [← h.eq_of_key_eq hj hi hk]

/-- Following an inverse twice leads back. -/
theorem exists_inverseOf (hr : r ∈ g.relationships) {k : Key} (hl : r.inverse = some k) :
    ∃ i ∈ g.relationships, i.key = k ∧ g.inverseOf r = .ok (some i) ∧
      g.inverseOf i = .ok (some r) := by
  obtain ⟨i, hi, rfl, hb⟩ := h.inverse r hr k hl
  exact ⟨i, hi, rfl, h.inverseOf_eq hi hl, h.inverseOf_eq hr hb⟩

end IsLinked

end EntityGraph.Graph
