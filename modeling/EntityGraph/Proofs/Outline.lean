import EntityGraph.Proofs.Linkage
import EntityGraph.Proofs.Sameness
import EntityGraph.Proofs.Success
import EntityGraph.Schema.View

/-!
# What equal views tell

Equal views of linked graphs list the same relationships, which lead to the same entities and have
inverses of the same names. The entity of an inverse is no part of a view.
-/

namespace EntityGraph

/-- An entry of a mapping is found in any mapping that is the same. -/
theorem Value.exists_mem_of_same_record {es fs : List (String × Value)}
    (h : (record es).same (record fs) = true) {k : String} {v : Value} (hv : (k, v) ∈ es) :
    ∃ w, (k, w) ∈ fs ∧ v.same w = true := by
  obtain ⟨⟨l, w⟩, hw, rfl, hs⟩ := ((same_record_iff es fs).mp h).2 (k, v) hv
  exact ⟨w, hw, hs⟩

/-- Two lists of two parts each agree part by part, if members of different parts never agree. -/
private theorem forall₂_append_separated {α β : Type} {R : α → β → Prop} {as bs : List α}
    {as' bs' : List β} (left : ∀ a ∈ as, ∀ b' ∈ bs', ¬ R a b')
    (right : ∀ b ∈ bs, ∀ a' ∈ as', ¬ R b a') (h : List.Forall₂ R (as ++ bs) (as' ++ bs')) :
    List.Forall₂ R as as' ∧ List.Forall₂ R bs bs' := by
  induction as generalizing as' with
  | nil =>
    cases as' with
    | nil => exact ⟨.nil, h⟩
    | cons a' as' =>
      obtain ⟨b, bs, hb, -, hbs⟩ := List.forall₂_cons_right_iff.mp h
      rw [List.nil_append] at hbs
      exact absurd hb (right b (hbs ▸ List.mem_cons_self) a' List.mem_cons_self)
  | cons a as ih =>
    cases as' with
    | nil =>
      obtain ⟨b', bs'', hb, -, rfl⟩ := List.forall₂_cons_left_iff.mp h
      exact absurd hb (left a List.mem_cons_self b' List.mem_cons_self)
    | cons a' as' =>
      obtain ⟨ha, h⟩ := List.forall₂_cons.mp h
      obtain ⟨hA, hB⟩ := ih (fun x hx ↦ left x (List.mem_cons_of_mem _ hx))
        (fun b hb x hx ↦ right b hb x (List.mem_cons_of_mem _ hx)) h
      exact ⟨.cons ha hA, hB⟩

/-- What a view tells of where a relationship leads: its key, its destination, and the name of its
inverse if it has one. -/
def Relationship.outline (r : Relationship) : Key × Value × Option Value :=
  (r.key, r.destination, r.inverse.map (·.name))

namespace Relationship

/-- A relationship whose names are texts: its own, that of its destination and that of its
inverse. -/
structure IsNamed (r : Relationship) : Prop where
  name : r.name.IsText
  destination : r.destination.IsText
  inverse : ∀ k, r.inverse = some k → k.name.IsText

/-- Relationships of equal views have inverses of the same name, or none. -/
private theorem inverse_eq_of_same_view {r r' : Relationship} (hr : r.IsNamed) (hr' : r'.IsNamed)
    (h : r.view.same r'.view = true) :
    r.inverse.map (·.name) = r'.inverse.map (·.name) := by
  have length := ((Value.same_record_iff _ _).mp h).1
  cases hi : r.inverse with
  | none =>
    cases hi' : r'.inverse with
    | none => rfl
    | some k' => simp [hi, hi'] at length
  | some k =>
    cases hi' : r'.inverse with
    | none => simp [hi, hi'] at length
    | some k' =>
      obtain ⟨w, hw, hs⟩ := Value.exists_mem_of_same_record h (k := "inverse_relationship")
        (v := k.name) (by simp [hi])
      simp only [hi', Option.map_some, Option.toList_some, List.mem_append, List.mem_cons] at hw
      obtain rfl : w = k'.name := by simpa using hw
      exact congrArg some (((hr.inverse k hi).same_iff (hr'.inverse k' hi')).mp hs)

private theorem eq_of_same_view {r r' : Relationship} (hr : r.IsNamed) (hr' : r'.IsNamed)
    (h : r.view.same r'.view = true) :
    r.name = r'.name ∧ r.destination = r'.destination := by
  have entry := fun k v ↦ Value.exists_mem_of_same_record (k := k) (v := v) h
  constructor
  · obtain ⟨w, hw, hs⟩ := entry "name" r.name (by simp)
    obtain rfl : w = r'.name := by simpa using hw
    exact (hr.name.same_iff hr'.name).mp hs
  · obtain ⟨w, hw, hs⟩ := entry "destination_entity" r.destination (by simp)
    obtain rfl : w = r'.destination := by simpa using hw
    exact (hr.destination.same_iff hr'.destination).mp hs

private theorem not_same_attribute_view {a : Attribute} {v : Value} (hv : a.view = .ok v)
    (r : Relationship) : ¬ v.same r.view = true ∧ ¬ r.view.same v = true := by
  simp only [Attribute.view, Success.bind_eq_ok, pure, Except.pure, Except.ok.injEq] at hv
  obtain ⟨default, -, rfl⟩ := hv
  constructor
  · intro h
    obtain ⟨w, hw, hs⟩ := Value.exists_mem_of_same_record h (k := "kind")
      (v := .text "attribute") (by simp)
    obtain rfl : w = .text "relationship" := by simpa using hw
    simp at hs
  · intro h
    obtain ⟨w, hw, hs⟩ := Value.exists_mem_of_same_record h (k := "kind")
      (v := .text "relationship") (by simp)
    obtain rfl : w = .text "attribute" := by simpa using hw
    simp at hs

end Relationship

namespace Entity

/-- An entity whose relationships are its own and named by texts. -/
structure IsNamed (e : Entity) : Prop where
  name : e.name.IsText
  owned : ∀ r ∈ e.relationships, r.entity = e.name
  relationships : ∀ r ∈ e.relationships, r.IsNamed

/-- Entities of equal views have the same name, and their relationships have equal views, one by
one. -/
private theorem eq_of_same_view {e e' : Entity} (he : e.name.IsText) (he' : e'.name.IsText)
    {v v' : Value} (hv : e.view = .ok v) (hv' : e'.view = .ok v') (h : v.same v' = true) :
    e.name = e'.name ∧ List.Forall₂ (fun r r' ↦ r.view.same r'.view = true) e.relationships
      e'.relationships := by
  simp only [view, Success.bind_eq_ok, pure, Except.pure, Except.ok.injEq] at hv hv'
  obtain ⟨as, ha, rfl⟩ := hv
  obtain ⟨as', ha', rfl⟩ := hv'
  have entry := fun k v ↦ Value.exists_mem_of_same_record (k := k) (v := v) h
  constructor
  · obtain ⟨w, hw, hs⟩ := entry "name" e.name (by simp)
    obtain rfl : w = e'.name := by split at hw <;> simpa using hw
    exact (he.same_iff he').mp hs
  · obtain ⟨w, hw, hs⟩ := entry "properties" (.list (as ++ e.relationships.map (·.view))) (by simp)
    obtain rfl : w = .list (as' ++ e'.relationships.map (·.view)) := by
      split at hw <;> simpa using hw
    have apart := forall₂_append_separated ?_ ?_ ((Value.same_list_iff _ _).mp hs)
    · simpa using apart.2
    · intro v hv w hw
      obtain ⟨a, -, hav⟩ := Success.exists_of_mem_mapM ha hv
      obtain ⟨r, -, rfl⟩ := List.mem_map.mp hw
      exact (Relationship.not_same_attribute_view hav r).1
    · intro w hw v hv
      obtain ⟨a, -, hav⟩ := Success.exists_of_mem_mapM ha' hv
      obtain ⟨r, -, rfl⟩ := List.mem_map.mp hw
      exact (Relationship.not_same_attribute_view hav r).2

/-- Entities of equal views have the same relationships in the same order, as far as views tell of
them. -/
private theorem outlines_eq {e e' : Entity} (he : e.IsNamed) (he' : e'.IsNamed) {v v' : Value}
    (hv : e.view = .ok v) (hv' : e'.view = .ok v') (h : v.same v' = true) :
    e.relationships.map (·.outline) = e'.relationships.map (·.outline) := by
  obtain ⟨hname, hviews⟩ := eq_of_same_view he.name he'.name hv hv' h
  rw [← List.forall₂_eq_eq_eq, List.forall₂_map_left_iff, List.forall₂_map_right_iff]
  have owned := he.owned
  have owned' := he'.owned
  have named := he.relationships
  have named' := he'.relationships
  generalize e.relationships = rs at hviews owned named
  generalize e'.relationships = rs' at hviews owned' named'
  induction hviews with
  | nil => exact .nil
  | @cons r r' rs rs' hr hrs ih =>
    rw [List.forall_mem_cons] at owned owned' named named'
    obtain ⟨hn, hd⟩ := Relationship.eq_of_same_view named.1 named'.1 hr
    have hi := Relationship.inverse_eq_of_same_view named.1 named'.1 hr
    refine .cons ?_ (ih owned.2 named.2 owned'.2 named'.2)
    rw [Relationship.outline, Relationship.outline, Relationship.key, Relationship.key, owned.1,
      owned'.1, hname, hn, hd, hi]

/-- Lists of entities of equal views have the same relationships in the same order, as far as views
tell of them. -/
private theorem flatMap_outlines_eq {es es' : List Entity} (hes : ∀ e ∈ es, e.IsNamed)
    (hes' : ∀ e ∈ es', e.IsNamed) {vs vs' : List Value} (hvs : es.mapM (·.view) = .ok vs)
    (hvs' : es'.mapM (·.view) = .ok vs') (h : (Value.list vs).same (.list vs') = true) :
    es.flatMap (·.relationships.map (·.outline)) =
      es'.flatMap (·.relationships.map (·.outline)) := by
  rw [Success.mapM_eq_ok] at hvs hvs'
  have same := (Value.same_list_iff _ _).mp h
  clear h
  induction hvs generalizing es' vs' with
  | nil =>
    obtain rfl := List.forall₂_nil_left_iff.mp same
    rw [List.forall₂_nil_right_iff.mp hvs']
  | @cons e v es vs hv hvs ih =>
    obtain ⟨v', vs', hsame, hrest, rfl⟩ := List.forall₂_cons_left_iff.mp same
    obtain ⟨e', es', hv', hes'', rfl⟩ := List.forall₂_cons_right_iff.mp hvs'
    rw [List.forall_mem_cons] at hes hes'
    rw [List.flatMap_cons, List.flatMap_cons, outlines_eq hes.1 hes'.1 hv hv' hsame,
      ih hes.2 hes'.2 hes'' hrest]

end Entity

namespace Graph.IsLinked

variable {g h : Graph} (hg : g.IsLinked) (hh : h.IsLinked)

include hg

private theorem isNamed {e : Entity} (he : e ∈ g.entities) : e.IsNamed := by
  refine ⟨hg.texts e he, hg.owned e he, fun r hr ↦ ?_⟩
  have mem : r ∈ g.relationships := (mem_relationships g r).mpr ⟨e, he, hr⟩
  refine ⟨hg.named e he r hr, hg.isText_destination mem, fun k hk ↦ ?_⟩
  obtain ⟨i, hi, rfl, -⟩ := hg.inverse r mem k hk
  exact (hg.isText_key hi).name

include hh

/-- Linked graphs of equal views have the same relationships in the same order, as far as views tell
of them. -/
theorem outlines_eq {v w : Value} (hv : g.view = .ok v) (hw : h.view = .ok w)
    (same : v.same w = true) :
    g.relationships.map (·.outline) = h.relationships.map (·.outline) := by
  simp only [view, Success.bind_eq_ok, pure, Except.pure, Except.ok.injEq] at hv hw
  obtain ⟨vs, hvs, rfl⟩ := hv
  obtain ⟨ws, hws, rfl⟩ := hw
  obtain ⟨w, hmem, hsame⟩ := Value.exists_mem_of_same_record same (k := "entities")
    (v := .list vs) (by simp)
  obtain rfl : w = .list ws := by simpa using hmem
  rw [relationships, relationships, List.map_flatMap, List.map_flatMap]
  exact Entity.flatMap_outlines_eq (fun e he ↦ hg.isNamed he) (fun e he ↦ hh.isNamed he) hvs hws
    hsame

end Graph.IsLinked

end EntityGraph
