import EntityGraph.Proofs.Writing
import EntityGraph.Schema.View

/-!
# Graphs with a fingerprint

A graph has a fingerprint exactly if its view can be written. Where all its names are texts, that is
a condition on its own name and version and on each default by itself.
-/

namespace EntityGraph

open Json

/-- A computation gives a value that can be written. -/
def Json.IsWritten (x : Except Fault Value) : Prop := ∃ v, x = .ok v ∧ HasText v

/-- An entity of a graph is named by texts throughout. -/
structure Entity.IsTextual (e : Entity) : Prop where
  name : e.name.IsText
  boundType : e.boundType.IsText
  attributes : ∀ a ∈ e.attributes, a.name.IsText
  names : ∀ r ∈ e.relationships, r.name.IsText
  destinations : ∀ r ∈ e.relationships, r.destination.IsText
  inverses : ∀ r ∈ e.relationships, ∀ k, r.inverse = some k → k.name.IsText
  unique : ∀ n ∈ e.unique, n.IsText

/-- A value that is a text can be written. -/
theorem Value.IsText.hasText {v : Value} (hv : v.IsText) : HasText v := by
  obtain ⟨s, rfl⟩ := hv
  exact hasText_text s

/-- Zero and one have not too many digits. -/
theorem Number.Integer.isTooLong_of_le_one {n : Nat} (h : n ≤ 1) : isTooLong n = false := by
  rw [isTooLong, decide_eq_false_iff_not, Nat.not_le]
  have hp : ∀ m, m ≠ 0 → 1 < Nat.pow 10 m := fun m hm ↦ Nat.one_lt_pow hm (by decide)
  exact Nat.lt_of_le_of_lt h (hp _ (by decide))

/-- The form of the default of an attribute can be written if the view of the attribute can. -/
theorem Attribute.isWritten_viewOf {a : Attribute} (h : IsWritten a.view) :
    IsWritten (a.type.viewOf a.default) := by
  obtain ⟨v, hv, ht⟩ := h
  obtain ⟨w, hw, hv⟩ := (Success.bind_eq_ok _ _ _).mp hv
  obtain rfl := Except.ok.inj hv
  exact ⟨w, hw, (hasText_record_iff _).mp ht ("default_value", w) (by simp)⟩

private theorem Attribute.isWritten_view_iff (a : Attribute) (ha : a.name.IsText) :
    IsWritten a.view ↔ IsWritten (a.type.viewOf a.default) := by
  refine ⟨isWritten_viewOf, ?_⟩
  rintro ⟨v, hv, ht⟩
  refine ⟨_, by rw [view, hv]; rfl, ?_⟩
  simp [hasText_record_iff, hasText_text, hasText_bool, ha.hasText, ht]

/-- The count of the most records is zero or one. -/
theorem Relationship.maxCount_le_one (r : Relationship) : r.maxCount ≤ 1 := by
  unfold maxCount
  split <;> omega

/-- The count of the fewest records is zero or one. -/
theorem Relationship.minCount_le_one (r : Relationship) : r.minCount ≤ 1 := by
  unfold minCount
  split <;> omega

private theorem Relationship.hasText_view (r : Relationship) (hn : r.name.IsText)
    (hd : r.destination.IsText) (hi : ∀ k, r.inverse = some k → k.name.IsText) :
    HasText r.view := by
  have counted : ∀ n : Nat, n ≤ 1 → HasText (.int n) := fun n hn ↦
    (hasText_int_iff n).mpr (Number.Integer.isTooLong_of_le_one hn)
  rw [view, hasText_record_iff, List.forall_mem_append]
  refine ⟨by simp [hasText_text, hn.hasText, hd.hasText, counted _ r.maxCount_le_one,
    counted _ r.minCount_le_one], ?_⟩
  cases hr : r.inverse with
  | none => simp
  | some k => simpa using (hi k hr).hasText

/-- The forms of the defaults of an entity can be written if the view of the entity can. -/
theorem Entity.isWritten_viewOf {e : Entity} (h : IsWritten e.view) :
    ∀ a ∈ e.attributes, IsWritten (a.type.viewOf a.default) := by
  obtain ⟨v, hv, ht⟩ := h
  obtain ⟨vs, hvs, hv⟩ := (Success.bind_eq_ok _ _ _).mp hv
  obtain rfl := Except.ok.inj hv
  have properties := (hasText_record_iff _).mp ht
    ("properties", .list (vs ++ e.relationships.map (·.view))) (by simp)
  have written := (List.forall_mem_append.mp ((hasText_list_iff _).mp properties)).1
  intro a ha
  obtain ⟨w, hw, hv⟩ := Success.exists_of_forall₂ ((Success.mapM_eq_ok _ _ _).mp hvs) ha
  exact Attribute.isWritten_viewOf ⟨w, hv, written w hw⟩

/-- The view of a textual entity can be written exactly if the forms of its defaults can. -/
theorem Entity.isWritten_view_iff (e : Entity) (he : e.IsTextual) :
    IsWritten e.view ↔ ∀ a ∈ e.attributes, IsWritten (a.type.viewOf a.default) := by
  refine ⟨isWritten_viewOf, fun written ↦ ?_⟩
  obtain ⟨vs, hvs, ht⟩ := (Success.exists_mapM_and Attribute.view HasText e.attributes).mpr
    fun a ha ↦ (a.isWritten_view_iff (he.attributes a ha)).mpr (written a ha)
  have relationships : ∀ v ∈ e.relationships.map (·.view), HasText v := by
    rw [List.forall_mem_map]
    intro r hr
    exact r.hasText_view (he.names r hr) (he.destinations r hr) (he.inverses r hr)
  have properties : HasText (.list (vs ++ e.relationships.map (·.view))) :=
    (hasText_list_iff _).mpr (List.forall_mem_append.mpr ⟨ht, relationships⟩)
  have unique : HasText (.list e.unique) :=
    (hasText_list_iff _).mpr fun n hn ↦ (he.unique n hn).hasText
  refine ⟨_, by rw [view, hvs]; rfl, ?_⟩
  rw [hasText_record_iff, List.forall_mem_append]
  constructor
  · simp [hasText_bool, he.name.hasText, he.boundType.hasText, properties]
  · split
    · simp
    · simpa using unique

namespace Graph

/-- The view of a graph can be written exactly if its name, its version and the views of its
entities can. -/
theorem isWritten_view_iff (g : Graph) :
    IsWritten g.view ↔
      HasText g.name ∧ HasText g.version ∧ ∀ e ∈ g.entities, IsWritten e.view := by
  simp only [IsWritten, ← Success.exists_mapM_and, view, Success.bind_eq_ok, pure, Except.pure,
    Except.ok.injEq]
  constructor
  · rintro ⟨_, ⟨vs, hvs, rfl⟩, ht⟩
    simp only [hasText_record_iff, List.forall_mem_cons] at ht
    exact ⟨ht.1, ht.2.1, vs, hvs, (hasText_list_iff vs).mp ht.2.2.1⟩
  · rintro ⟨hn, hv, vs, hvs, ht⟩
    exact ⟨_, ⟨vs, hvs, rfl⟩, by simp [hasText_record_iff, hn, hv, (hasText_list_iff vs).mpr ht]⟩

/-- A graph has a fingerprint exactly if its view can be written. -/
theorem exists_fingerprint_iff (g : Graph) :
    (∃ t, g.fingerprint = .ok t) ↔ IsWritten g.view := by
  simp only [fingerprint, fingerprintOf, Success.bind_eq_ok, pure, Except.pure, Except.ok.injEq]
  constructor
  · rintro ⟨_, v, hv, t, ht, -⟩
    exact ⟨v, hv, t, ht⟩
  · rintro ⟨v, hv, t, ht⟩
    exact ⟨_, v, hv, t, ht, rfl⟩

end Graph

namespace Schema

/-- The schema of a graph is one of that graph. -/
theorem ofGraph_eq_ok (g : Graph) (s : Schema) :
    ofGraph g = .ok s ↔ s.graph = g := by
  unfold ofGraph
  split
  · next fingerprint hf =>
    rw [Except.ok.injEq]
    constructor
    · rintro rfl
      rfl
    · rintro rfl
      obtain ⟨graph, other, ho⟩ := s
      obtain rfl : fingerprint = other := Except.ok.inj (hf.symm.trans ho)
      rfl
  · next f hf =>
    constructor
    · intro h
      cases h
    · rintro rfl
      rw [s.fingerprint_eq] at hf
      cases hf

/-- A graph has no schema exactly if it has no fingerprint. -/
theorem ofGraph_eq_error (g : Graph) (f : Fault) :
    ofGraph g = .error f ↔ g.fingerprint = .error f := by
  unfold ofGraph
  split
  · next h => simp [h]
  · next h => simp [h]

/-- Schemas of one view have the same fingerprint. -/
theorem fingerprint_eq_of_view_eq {s t : Schema} (h : s.graph.view = t.graph.view) :
    s.fingerprint = t.fingerprint := by
  have hs := s.fingerprint_eq
  have ht := t.fingerprint_eq
  rw [Graph.fingerprint, h] at hs
  rw [Graph.fingerprint] at ht
  exact Except.ok.inj (hs.symm.trans ht)

end Schema

end EntityGraph
