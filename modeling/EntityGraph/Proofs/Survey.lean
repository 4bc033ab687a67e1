import EntityGraph.Proofs.Linkage
import EntityGraph.Proofs.Success

/-!
# What a survey finds

A survey of a linked graph never fails. Of a linked pair it looks at the relationship that comes
first, and asks only whether the second leads back to the owner of the first.
-/

namespace EntityGraph

open EntityGraph.Graph

/-- Whether a finding says of two relationships that one strays from the other. -/
def Finding.isStray (k i : Key) : Finding → Bool
  | strayInverse r inverse =>
    (r.key.same k && inverse.key.same i) || (r.key.same i && inverse.key.same k)
  | unlinkedPair .. => false

/-- One relationship of a graph comes no later than another one. -/
def Graph.Precedes (g : Graph) (r i : Relationship) : Prop :=
  ∃ before after, g.relationships = before ++ r :: after ∧ i ∈ r :: after

/-- Of two relationships of a graph one comes no later than the other. -/
theorem Graph.precedes_total {g : Graph} {r i : Relationship} (hr : r ∈ g.relationships)
    (hi : i ∈ g.relationships) : g.Precedes r i ∨ g.Precedes i r := by
  obtain ⟨before, after, h⟩ := List.append_of_mem hr
  rw [h] at hi
  rcases List.mem_append.mp hi with hi | hi
  · obtain ⟨first, middle, rfl⟩ := List.append_of_mem hi
    exact .inr ⟨first, middle ++ r :: after, by simp [h], by simp⟩
  · exact .inl ⟨before, after, h, hi⟩

namespace Survey

section Step

variable {g : Graph} (h : g.IsLinked) {r i : Relationship}

include h

/-- A linked relationship that is not seen yet makes its inverse seen, and is found stray if the
inverse does not lead back. -/
theorem visit_linked (hi : i ∈ g.relationships) (hl : r.inverse = some i.key) (s : Survey) :
    visit g s r = .ok (if r.key.among s.seen then s else
      ⟨i.key :: s.seen, s.findings ++
        if i.destination.equals r.entity then [] else [.strayInverse r i]⟩) := by
  simp only [visit, h.inverseOf_eq hi hl]
  cases r.key.among s.seen <;> cases hd : i.destination.equals r.entity <;>
    simp [bind, Except.bind, pure, Except.pure, hd]

omit h in
/-- A relationship without an inverse is found to be half of an unlinked pair if it has a partner
on its destination. -/
theorem visit_unlinked {e : Entity} (he : g.destinationOf r = .ok e) (hn : r.inverse = none)
    (s : Survey) :
    visit g s r = .ok (if r.isToMany then
      match e.relationships.find? (isPartner s.seen r) with
      | some other => ⟨r.key :: s.seen, s.findings ++ [.unlinkedPair r other]⟩
      | none => s
      else s) := by
  have hv : g.inverseOf r = .ok none := by rw [inverseOf, hn]
  simp only [visit, hv, he]
  cases r.isToMany with
  | false => simp [bind, Except.bind, pure, Except.pure]
  | true =>
    cases hp : e.relationships.find? (isPartner s.seen r) <;>
      simp [bind, Except.bind, pure, Except.pure, hp]

/-- What visiting a relationship can do: nothing, look at a linked pair, or report an unlinked
one. -/
theorem visit_cases (hr : r ∈ g.relationships) (s : Survey) :
    ∃ s', visit g s r = .ok s' ∧ (s' = s ∨
      (∃ i ∈ g.relationships, r.inverse = some i.key ∧ s' = ⟨i.key :: s.seen, s.findings ++
        if i.destination.equals r.entity then [] else [.strayInverse r i]⟩) ∨
      (r.inverse = none ∧ ∃ other ∈ g.relationships,
        s' = ⟨r.key :: s.seen, s.findings ++ [.unlinkedPair r other]⟩)) := by
  cases hl : r.inverse with
  | some k =>
    obtain ⟨i, hi, rfl, -⟩ := h.inverse r hr k hl
    refine ⟨_, visit_linked h hi hl s, ?_⟩
    split
    · exact .inl rfl
    · exact .inr (.inl ⟨i, hi, rfl, rfl⟩)
  | none =>
    obtain ⟨e, he, hd, -⟩ := h.exists_destinationOf hr
    refine ⟨_, visit_unlinked hd hl s, ?_⟩
    split
    · split
      · next other ho =>
        have hm : other ∈ g.relationships :=
          (mem_relationships g other).mpr ⟨e, he, List.mem_of_find?_eq_some ho⟩
        exact .inr (.inr ⟨rfl, other, hm, rfl⟩)
      · exact .inl rfl
    · exact .inl rfl

/-! ### Linked pairs -/

/-- How many findings say of two relationships that one strays from the other. -/
def strays (s : Survey) (k i : Key) : Nat := s.findings.countP (Finding.isStray k i)

/-- Visiting a third relationship neither makes one of a linked pair seen nor reports the pair. -/
theorem visit_frame (hr : r ∈ g.relationships) (hi : i ∈ g.relationships)
    (hl : r.inverse = some i.key) {x : Relationship} (hx : x ∈ g.relationships) (hxr : x ≠ r)
    (hxi : x ≠ i) (s : Survey) :
    ∃ s', visit g s x = .ok s' ∧ r.key.among s'.seen = r.key.among s.seen ∧
      i.key.among s'.seen = i.key.among s.seen ∧
      s'.strays r.key i.key = s.strays r.key i.key := by
  have hb := h.inverse_symm hr hi hl
  obtain ⟨s', hv, rfl | ⟨j, hj, hxj, rfl⟩ | ⟨-, other, -, rfl⟩⟩ := visit_cases h hx s
  · exact ⟨s', hv, rfl, rfl, rfl⟩
  · -- The inverse of the third relationship is a fourth one, since inverses are mutual.
    have hjx := h.inverse_symm hx hj hxj
    have hjr : r ≠ j := by
      rintro rfl
      exact hxi (h.eq_of_key_eq hx hi (Option.some.inj (hjx.symm.trans hl)))
    have hji : i ≠ j := by
      rintro rfl
      exact hxr (h.eq_of_key_eq hx hr (Option.some.inj (hjx.symm.trans hb)))
    refine ⟨_, hv, ?_, ?_, ?_⟩
    · simp [Key.among, h.same_key_of_ne hr hj hjr]
    · simp [Key.among, h.same_key_of_ne hi hj hji]
    · have other : Finding.isStray r.key i.key (.strayInverse x j) = false := by
        simp [Finding.isStray, h.same_key_of_ne hx hr hxr, h.same_key_of_ne hx hi hxi]
      cases j.destination.equals x.entity <;> simp [strays, other]
  · refine ⟨_, hv, ?_, ?_, ?_⟩
    · simp [Key.among, h.same_key_of_ne hr hx hxr.symm]
    · simp [Key.among, h.same_key_of_ne hi hx hxi.symm]
    · simp [strays, Finding.isStray]

private theorem foldlM_before (hr : r ∈ g.relationships) (hi : i ∈ g.relationships)
    (hl : r.inverse = some i.key) (before : List Relationship)
    (hsub : ∀ x ∈ before, x ∈ g.relationships) (hbr : r ∉ before) (hbi : i ∉ before) :
    ∃ s, before.foldlM (visit g) ⟨[], []⟩ = .ok s ∧ r.key.among s.seen = false ∧
      s.strays r.key i.key = 0 := by
  refine Success.foldlM_of_invariant (visit g)
    (fun s ↦ r.key.among s.seen = false ∧ s.strays r.key i.key = 0) before _ ?_ ⟨rfl, rfl⟩
  rintro x hx s ⟨hs, hc⟩
  obtain ⟨s', hv, hs', -, hc'⟩ := visit_frame h hr hi hl (hsub x hx)
    (fun he ↦ hbr (he ▸ hx)) (fun he ↦ hbi (he ▸ hx)) s
  exact ⟨s', hv, hs'.trans hs, hc'.trans hc⟩

/-- The survey after the first of a linked pair does not report the pair again. -/
private theorem foldlM_after (hr : r ∈ g.relationships) (hi : i ∈ g.relationships)
    (hl : r.inverse = some i.key) (after : List Relationship)
    (hsub : ∀ x ∈ after, x ∈ g.relationships) (hra : r ∉ after) (s : Survey)
    (hs : i.key.among s.seen = true) :
    ∃ s', after.foldlM (visit g) s = .ok s' ∧
      s'.strays r.key i.key = s.strays r.key i.key := by
  obtain ⟨s', hf, -, hc⟩ := Success.foldlM_of_invariant (visit g)
    (fun t ↦ i.key.among t.seen = true ∧ t.strays r.key i.key = s.strays r.key i.key) after s
    (by
      rintro x hx t ⟨ht, hc⟩
      by_cases hxi : x = i
      · subst hxi
        refine ⟨t, ?_, ht, hc⟩
        rw [visit_linked h hr (h.inverse_symm hr hi hl), ht]
        rfl
      · obtain ⟨t', hv, -, ht', hc'⟩ := visit_frame h hr hi hl (hsub x hx)
          (fun he ↦ hra (he ▸ hx)) hxi t
        exact ⟨t', hv, ht'.trans ht, hc'.trans hc⟩)
    ⟨hs, rfl⟩
  exact ⟨s', hf, hc⟩

private theorem visit_first (hr : r ∈ g.relationships) (hi : i ∈ g.relationships)
    (hl : r.inverse = some i.key) (s : Survey) (hs : r.key.among s.seen = false) :
    ∃ s', visit g s r = .ok s' ∧ i.key.among s'.seen = true ∧
      s'.strays r.key i.key =
        s.strays r.key i.key + if i.destination.equals r.entity then 0 else 1 := by
  have hrr : r.key.same r.key = true := (h.same_key_iff hr hr).mpr rfl
  have hii : i.key.same i.key = true := (h.same_key_iff hi hi).mpr rfl
  have reported : Finding.isStray r.key i.key (.strayInverse r i) = true := by
    simp [Finding.isStray, hrr, hii]
  refine ⟨_, visit_linked h hi hl s, ?_, ?_⟩
  · rw [hs]
    simp [Key.among, hii]
  · rw [hs]
    cases i.destination.equals r.entity <;> simp [strays, reported]

end Step

end Survey

namespace Graph.IsLinked

variable {g : Graph} (h : g.IsLinked) {r i : Relationship}

include h

/-- A linked pair is reported exactly once if the second of the two does not lead back to the owner
of the first, and not at all otherwise. -/
theorem count_stray (hl : r.inverse = some i.key) (order : g.Precedes r i) :
    ∃ fs, g.findings = .ok fs ∧ fs.countP (Finding.isStray r.key i.key) =
      if i.destination.equals r.entity then 0 else 1 := by
  obtain ⟨before, after, hg, hia⟩ := order
  have hmem : ∀ x, x ∈ g.relationships ↔ x ∈ before ∨ x ∈ r :: after := by
    intro x
    rw [hg, List.mem_append]
  have hr : r ∈ g.relationships := (hmem r).mpr (.inr (by simp))
  have hi : i ∈ g.relationships := (hmem i).mpr (.inr hia)
  obtain ⟨-, hlast, hdisjoint⟩ := List.nodup_append'.mp (hg ▸ h.nodup_relationships)
  have hra : r ∉ after := (List.nodup_cons.mp hlast).1
  have hbr : r ∉ before := fun hb ↦ hdisjoint hb (by simp)
  have hbi : i ∉ before := fun hb ↦ hdisjoint hb hia
  obtain ⟨s₁, h₁, hseen, hc₁⟩ := Survey.foldlM_before h hr hi hl before
    (fun x hx ↦ (hmem x).mpr (.inl hx)) hbr hbi
  obtain ⟨s₂, h₂, hseen, hc₂⟩ := Survey.visit_first h hr hi hl s₁ hseen
  obtain ⟨s₃, h₃, hc₃⟩ := Survey.foldlM_after h hr hi hl after
    (fun x hx ↦ (hmem x).mpr (.inr (List.mem_cons_of_mem _ hx))) hra s₂ hseen
  refine ⟨s₃.findings, ?_, ?_⟩
  · rw [findings, hg, List.foldlM_append, h₁]
    show ((r :: after).foldlM (Survey.visit g) s₁).map _ = _
    rw [List.foldlM_cons, h₂]
    show (after.foldlM (Survey.visit g) s₂).map _ = _
    rw [h₃]
    rfl
  · calc s₃.findings.countP _ = s₂.strays r.key i.key := hc₃
      _ = _ := by rw [hc₂, hc₁, Nat.zero_add]

private theorem exists_message (hr : r ∈ g.relationships) (hi : i ∈ g.relationships) :
    (∃ t, (Finding.strayInverse r i).message = .ok t) ∧
      ∃ t, (Finding.unlinkedPair r i).message = .ok t := by
  obtain ⟨k, hk⟩ := (h.isText_key hr).exists_text
  obtain ⟨l, hl⟩ := (h.isText_key hi).exists_text
  obtain ⟨d, hd⟩ := (h.isText_destination hi).exists_display
  obtain ⟨o, ho⟩ := (h.isText_key hr).entity.exists_display
  have ho' : r.entity.display = .ok o := ho
  constructor
  · exact ⟨_, by rw [Finding.message, hk, hl, hd, ho']; rfl⟩
  · exact ⟨_, by rw [Finding.message, hk, hl]; rfl⟩

/-- A linked graph has findings, and each can be said. -/
theorem exists_validate :
    ∃ fs texts, g.findings = .ok fs ∧ g.validate = .ok texts ∧
      List.Forall₂ (fun f t ↦ f.message = .ok t) fs texts := by
  obtain ⟨s, hs, hsaid⟩ := Success.foldlM_of_invariant (Survey.visit g)
    (fun s ↦ ∀ f ∈ s.findings, ∃ t, f.message = .ok t) g.relationships ⟨[], []⟩
    (by
      intro x hx s hs
      obtain ⟨s', hv, rfl | ⟨j, hj, -, rfl⟩ | ⟨-, other, ho, rfl⟩⟩ := Survey.visit_cases h hx s
      · exact ⟨s', hv, hs⟩
      · refine ⟨_, hv, ?_⟩
        rw [List.forall_mem_append]
        refine ⟨hs, ?_⟩
        split
        · simp
        · simpa using (h.exists_message hx hj).1
      · refine ⟨_, hv, ?_⟩
        rw [List.forall_mem_append]
        exact ⟨hs, by simpa using (h.exists_message hx ho).2⟩)
    (by simp)
  have hf : g.findings = .ok s.findings := by
    rw [findings, hs]
    rfl
  obtain ⟨texts, ht⟩ := (Success.exists_mapM_eq_ok Finding.message s.findings).mpr hsaid
  refine ⟨s.findings, texts, hf, ?_, (Success.mapM_eq_ok _ _ _).mp ht⟩
  rw [validate, hf]
  exact ht

end Graph.IsLinked

end EntityGraph
