import EntityGraph.Proofs.Coherence

/-!
# Inverses declared on one side or on both

Two relationships that lead to each other's entities are linked as soon as one of them declares the
other as its inverse. Which side declares it makes no difference to the schema: what is joined is
the same, and the view of a relationship holds the inverse that it is linked to and not the one that
it declares.
-/

namespace EntityGraph

/-- A relationship is declared once more, with some inverse. -/
def RelationshipDecl.Restates (r s : RelationshipDecl) : Prop :=
  ∃ inverse, s = { r with inverse }

/-- An entity is declared once more, with some inverses of its relationships. -/
structure EntityDecl.Restates (e f : EntityDecl) : Prop where
  name : f.name = e.name
  attributes : f.attributes = e.attributes
  relationships : List.Forall₂ RelationshipDecl.Restates e.relationships f.relationships
  isAbstract : f.isAbstract = e.isAbstract
  boundType : f.boundType = e.boundType
  unique : f.unique = e.unique

namespace Links

/-- Two of some relationships are linked, and each leads to the entity of the other. -/
structure Faces (ps : List (EntityDecl × RelationshipDecl))
    (p q : EntityDecl × RelationshipDecl) : Prop where
  joined : Joined ps (keyOf p) (keyOf q)
  leads : p.2.destination = q.1.name
  leadsBack : q.2.destination = p.1.name

private theorem Faces.symm {ps : List (EntityDecl × RelationshipDecl)}
    {p q : EntityDecl × RelationshipDecl} (h : Faces ps p q) : Faces ps q p :=
  ⟨h.joined.symm, h.leadsBack, h.leads⟩

end Links

open Links

/-- Entities are declared once more with other inverses. They differ only in linked relationships
that lead to each other's entities: of two of these one declares the other, and neither declares
anything else. -/
structure Redeclares (es fs : List EntityDecl) : Prop where
  restates : List.Forall₂ EntityDecl.Restates es fs
  kept : ∀ p ∈ declared es, (∀ p' ∈ declared es, ¬ Faces (declared es) p p') →
    ∀ q ∈ declared fs, keyOf q = keyOf p → q.2.inverse = p.2.inverse
  one : ∀ p ∈ declared es, ∀ p' ∈ declared es, Faces (declared es) p p' →
    ∀ q ∈ declared fs, keyOf q = keyOf p → ∀ q' ∈ declared fs, keyOf q' = keyOf p' →
      q.2.inverse = p'.2.name ∨ q'.2.inverse = p.2.name
  only : ∀ p ∈ declared es, ∀ p' ∈ declared es, Faces (declared es) p p' →
    ∀ q ∈ declared fs, keyOf q = keyOf p → q.2.inverse.isNull = true ∨ q.2.inverse = p'.2.name

private theorem Value.IsText.isNull {v : Value} (hv : v.IsText) : v.isNull = false := by
  obtain ⟨s, rfl⟩ := hv
  rfl

/-- A relationship that is declared once more leads where it led. -/
theorem RelationshipDecl.Restates.destination {r s : RelationshipDecl} (h : r.Restates s) :
    s.destination = r.destination := by
  obtain ⟨inverse, rfl⟩ := h
  rfl

/-- A relationship that is declared once more has the same name. -/
theorem RelationshipDecl.Restates.name {r s : RelationshipDecl} (h : r.Restates s) :
    s.name = r.name := by
  obtain ⟨inverse, rfl⟩ := h
  rfl

namespace Redeclares

variable {es fs : List EntityDecl} (h : Redeclares es fs)

include h

private theorem names : fs.map (·.name) = es.map (·.name) :=
  Success.map_eq_of_forall₂ h.restates fun _ _ hef ↦ hef.name

/-- The relationships of entities that are declared once more are declared once more. -/
theorem relationships : List.Forall₂ (fun p q ↦ p.1.Restates q.1 ∧ p.2.Restates q.2)
    (declared es) (declared fs) := by
  refine List.rel_flatMap h.restates fun e f hef ↦ ?_
  rw [List.forall₂_map_left_iff, List.forall₂_map_right_iff]
  exact hef.relationships.imp fun r s hrs ↦ ⟨hef, hrs⟩

/-- Every relationship is declared once more, under its key. -/
theorem exists_restated {p : EntityDecl × RelationshipDecl} (hp : p ∈ declared es) :
    ∃ q ∈ declared fs, keyOf q = keyOf p ∧ p.2.Restates q.2 := by
  obtain ⟨q, hq, hef, hrs⟩ := Success.exists_of_forall₂ h.relationships hp
  exact ⟨q, hq, by rw [keyOf, keyOf, hef.name, hrs.name], hrs⟩

/-- Every relationship that is declared once more was declared, under its key. -/
theorem exists_stated {q : EntityDecl × RelationshipDecl} (hq : q ∈ declared fs) :
    ∃ p ∈ declared es, keyOf q = keyOf p ∧ p.2.Restates q.2 := by
  obtain ⟨p, hp, hef, hrs⟩ := Success.exists_of_forall₂ h.relationships.flip hq
  exact ⟨p, hp, by rw [keyOf, keyOf, hef.name, hrs.name], hrs⟩

/-- What one side declares anew is joined already. -/
theorem joined_of_declares {k i : Key} (hd : Declares (declared fs) k i) :
    Joined (declared es) k i := by
  obtain ⟨q, hq, rfl, hw⟩ := hd
  obtain ⟨p, hp, hk, hrs⟩ := h.exists_stated hq
  obtain ⟨hn, rfl⟩ := (wanted?_eq_some q i).mp hw
  rw [hk, hrs.destination]
  by_cases faced : ∃ p' ∈ declared es, Faces (declared es) p p'
  · obtain ⟨p', hp', hf⟩ := faced
    rcases h.only p hp p' hp' hf q hq hk with absent | named
    · simp [hn] at absent
    · rw [named, hf.leads]
      exact hf.joined
  · have kept := h.kept p hp (fun p' hp' hf ↦ faced ⟨p', hp', hf⟩) q hq hk
    rw [kept] at hn ⊢
    exact .inl ⟨p, hp, rfl, (wanted?_eq_some p _).mpr ⟨hn, rfl⟩⟩

variable (texts : ∀ e ∈ es, e.IsTextual)

include texts

/-- What was declared is joined anew, by either side. -/
private theorem joined_of_declared (coherent : Coherent es) {k i : Key}
    (hd : Declares (declared es) k i) : Joined (declared fs) k i := by
  obtain ⟨p, hp, rfl, hw⟩ := hd
  obtain ⟨-, -, resolves, -⟩ := (coherent_iff es).mp coherent
  obtain ⟨p', hp', rfl⟩ := exists_of_joined resolves (.inl ⟨p, hp, rfl, hw⟩)
  obtain ⟨q, hq, hk, hrs⟩ := h.exists_restated hp
  obtain ⟨q', hq', hk', hrs'⟩ := h.exists_restated hp'
  by_cases faced : ∃ p'' ∈ declared es, Faces (declared es) p p''
  · obtain ⟨p'', hp'', hf⟩ := faced
    have hkeys := coherent.oneToOne _ _ _ hf.joined (.inl ⟨p, hp, rfl, hw⟩)
    obtain rfl := eq_of_keyOf_eq (EntityDecl.isNamed texts) coherent.distinct hp'' hp' hkeys
    rcases h.one p hp p'' hp'' hf q hq hk q' hq' hk' with named | named
    · refine .inl ⟨q, hq, hk, (wanted?_eq_some q _).mpr ?_⟩
      rw [named, hrs.destination, hf.leads]
      exact ⟨(isTextual_of_mem (EntityDecl.isNamed texts) hp'').2.name.isNull, rfl⟩
    · refine .inr ⟨q', hq', hk', (wanted?_eq_some q' _).mpr ?_⟩
      rw [named, hrs'.destination, hf.leadsBack]
      exact ⟨(isTextual_of_mem (EntityDecl.isNamed texts) hp).2.name.isNull, rfl⟩
  · have kept := h.kept p hp (fun p' hp' hf ↦ faced ⟨p', hp', hf⟩) q hq hk
    refine .inl ⟨q, hq, hk, ?_⟩
    rwa [wanted?, kept, hrs.destination]

/-- The same relationships are joined. -/
theorem joined_iff (coherent : Coherent es) (k i : Key) :
    Joined (declared fs) k i ↔ Joined (declared es) k i := by
  constructor
  · rintro (hd | hd)
    · exact h.joined_of_declares hd
    · exact (h.joined_of_declares hd).symm
  · rintro (hd | hd)
    · exact h.joined_of_declared texts coherent hd
    · exact (h.joined_of_declared texts coherent hd).symm

/-- Textual entities that are declared once more are textual. -/
private theorem isTextual : ∀ f ∈ fs, f.IsTextual := by
  intro f hf
  obtain ⟨e, he, hef⟩ := Success.exists_of_forall₂ h.restates.flip hf
  have hte := texts e he
  refine ⟨⟨hef.name ▸ hte.name, hef.attributes ▸ hte.attributes, ?_, hef.unique ▸ hte.unique⟩,
    hef.boundType ▸ hte.boundType⟩
  intro s hs
  have hq : (f, s) ∈ declared fs := (mem_declared fs _).mpr ⟨hf, hs⟩
  obtain ⟨p, hp, hk, hrs⟩ := h.exists_stated hq
  have htp := (isTextual_of_mem (EntityDecl.isNamed texts) hp).2
  refine ⟨hrs.name ▸ htp.name, hrs.destination ▸ htp.destination, ?_⟩
  cases hn : s.inverse.isNull with
  | true => exact .inl rfl
  | false =>
    have hj := h.joined_of_declares ⟨(f, s), hq, rfl, (wanted?_eq_some _ _).mpr ⟨hn, rfl⟩⟩
    exact .inr (hj.isText fun _ hp ↦ isTextual_of_mem (EntityDecl.isNamed texts) hp).name

/-- Coherent entities that are declared once more are coherent. -/
private theorem coherent (coherent : Coherent es) : Coherent fs := by
  obtain ⟨distinct, hunique, resolves, hone⟩ := (coherent_iff es).mp coherent
  have distinct' : (fs.map (·.name)).Nodup := h.names ▸ distinct
  refine (coherent_iff fs).mpr ⟨distinct', ?_, ?_, ?_⟩
  · intro f hf
    obtain ⟨e, he, hef⟩ := Success.exists_of_forall₂ h.restates.flip hf
    rw [EntityDecl.NamesUnique, hef.unique, hef.attributes]
    exact hunique e he
  · intro q hq
    obtain ⟨p, hp, hk, hrs⟩ := h.exists_stated hq
    obtain ⟨d, hd, hn, -⟩ := resolves p hp
    obtain ⟨d', hd', hdd'⟩ := Success.exists_of_forall₂ h.restates hd
    have hn' : d'.name = q.2.destination := by rw [hdd'.name, hn, hrs.destination]
    refine ⟨d', hd', hn', fun hnull ↦ ?_⟩
    have hj := h.joined_of_declares ⟨q, hq, rfl, (wanted?_eq_some _ _).mpr ⟨hnull, rfl⟩⟩
    obtain ⟨p', hp', hkp'⟩ := exists_of_joined resolves hj
    obtain ⟨q', hq', hkq', -⟩ := h.exists_restated hp'
    obtain ⟨hq₁, hq₂⟩ := (mem_declared fs q').mp hq'
    obtain ⟨howner, hname⟩ := Key.mk.inj (hkq'.trans hkp')
    obtain rfl : q'.1 = d' :=
      List.inj_on_of_nodup_map distinct' hq₁ hd' (howner.trans hn'.symm)
    exact ⟨q'.2, hq₂, hname⟩
  · intro k i j hi hj
    rw [h.joined_iff texts coherent] at hi hj
    exact hone k i j hi hj

omit texts in
private theorem isPortable {host host' : Host} (alike : host.CopiesAlike host' es)
    (portable : ∀ e ∈ es, ∀ a ∈ e.attributes, a.IsPortable host e.name) :
    ∀ f ∈ fs, ∀ a ∈ f.attributes, a.IsPortable host' f.name := by
  intro f hf
  obtain ⟨e, he, hef⟩ := Success.exists_of_forall₂ h.restates.flip hf
  rw [hef.attributes, hef.name]
  exact alike.isPortable portable e he

private theorem inverse?_eq (coherent : Coherent es) {l l' : Links}
    (records : Records (declared es) l)
    (records' : Records (declared fs) l') {k : Key} (hk : k.IsText) :
    l'.inverse? k = l.inverse? k := by
  ext i
  rw [records'.inverse k i hk, records.inverse k i hk, h.joined_iff texts coherent]

/-- The graphs have the same view on hosts that copy objects alike. -/
private theorem view_linkedGraph_eq (coherent : Coherent es) {l l' : Links}
    (records : Records (declared es) l) (records' : Records (declared fs) l') {host host' : Host}
    (alike : host.CopiesAlike host' es) (config : CompilerConfig) (name version : Value) :
    (Schema.linkedGraph host' config l' fs name version).view =
      (Schema.linkedGraph host config l es name version).view := by
  have views : (fs.map (·.linked host' config l')).mapM Entity.view =
      (es.map (·.linked host config l)).mapM Entity.view := by
    rw [List.mapM_map, List.mapM_map]
    have known : ∀ e ∈ es, e ∈ es ∧ e.IsTextual := fun e he ↦ ⟨he, texts e he⟩
    have paired := (List.forall₂_and_left _ _).mpr ⟨known, h.restates⟩
    refine Success.mapM_eq_of_forall₂ paired fun e f hef ↦ ?_
    obtain ⟨⟨he, hte⟩, hef⟩ := hef
    have attributes : (f.linked host' config l').attributes =
        (e.linked host config l).attributes := by
      rw [EntityDecl.linked, EntityDecl.linked, hef.attributes, hef.name]
      refine List.map_congr_left fun a ha ↦ ?_
      rw [AttributeDecl.compiled, AttributeDecl.compiled, alike.copied he ha]
    have relationships : (f.linked host' config l').relationships.map (·.view) =
        (e.linked host config l).relationships.map (·.view) := by
      simp only [EntityDecl.linked, List.map_map]
      have named := (List.forall₂_and_left _ _).mpr ⟨hte.relationships, hef.relationships⟩
      refine Success.map_eq_of_forall₂ named fun r s hrs ↦ ?_
      obtain ⟨htr, inverse, rfl⟩ := hrs
      have linked : l'.inverse? ⟨f.name, r.name⟩ = l.inverse? ⟨e.name, r.name⟩ := by
        rw [hef.name]
        exact h.inverse?_eq texts coherent records records' ⟨hte.name, htr.name⟩
      simp [relationship, RelationshipDecl.linked, Relationship.view, keyOf, linked,
        Relationship.maxCount, Relationship.minCount]
    simp only [Function.comp_apply, Entity.view, attributes, relationships]
    simp [EntityDecl.linked, hef.name, hef.isAbstract, hef.boundType, hef.unique]
  simp [Schema.linkedGraph, Graph.view, views]

end Redeclares

namespace Shopping

/-- The items of a shopping list. -/
def items (inverse : Value) : RelationshipDecl :=
  { name := .text "items"
    destination := .text "ShoppingListItem"
    isToMany := true
    isOptional := true
    deleteRule := .cascade
    inverse
    named := by decide
    directed := by decide }

/-- The shopping list of an item. -/
def shoppingList (inverse : Value) : RelationshipDecl :=
  { name := .text "shoppingList"
    destination := .text "ShoppingList"
    isToMany := false
    isOptional := true
    deleteRule := .nullify
    inverse
    named := by decide
    directed := by decide }

/-- Shopping lists, which have items. -/
def list (inverse : Value) : EntityDecl :=
  Staff.entityOf "ShoppingList" (by decide) (items inverse) ⟨_, rfl⟩

/-- Items, which have a shopping list. -/
def item (inverse : Value) : EntityDecl :=
  Staff.entityOf "ShoppingListItem" (by decide) (shoppingList inverse) ⟨_, rfl⟩

/-- Items declare the items of their list as their inverse. -/
def fromItems : List EntityDecl := [list .null, item (.text "items")]

/-- Lists declare the list of their items as their inverse. -/
def fromLists : List EntityDecl := [list (.text "shoppingList"), item .null]

/-- All names in the example are texts. -/
theorem isTextual : ∀ e ∈ fromItems, e.IsTextual := by
  have hitems : (items .null).IsTextual := ⟨⟨_, rfl⟩, ⟨_, rfl⟩, .inl rfl⟩
  have hlist : (shoppingList (.text "items")).IsTextual := ⟨⟨_, rfl⟩, ⟨_, rfl⟩, .inr ⟨_, rfl⟩⟩
  simp only [fromItems, List.forall_mem_cons]
  refine ⟨⟨⟨⟨_, rfl⟩, by simp [list, Staff.entityOf], ?_, by simp [list, Staff.entityOf]⟩,
      .inl rfl⟩,
    ⟨⟨⟨_, rfl⟩, by simp [item, Staff.entityOf], ?_, by simp [item, Staff.entityOf]⟩, .inl rfl⟩,
    by simp⟩
  · simpa [list, Staff.entityOf] using hitems
  · simpa [item, Staff.entityOf] using hlist

/-- The list of an item declares the items of a list, and nothing else declares an inverse. -/
theorem declares_iff (k i : Key) :
    Declares (declared fromItems) k i ↔
      k = ⟨.text "ShoppingListItem", .text "shoppingList"⟩ ∧
        i = ⟨.text "ShoppingList", .text "items"⟩ := by
  have declared : declared fromItems =
      [(list .null, items .null), (item (.text "items"), shoppingList (.text "items"))] := rfl
  simp only [Declares, declared, List.exists_mem_cons_iff, wanted?_eq_some]
  simp [items, shoppingList, keyOf, item, Staff.entityOf, eq_comm (b := k)]

/-- The entities of the example are coherent. -/
theorem coherent : Coherent fromItems := by
  refine ⟨?_, ?_, ?_, ?_, ?_⟩
  · simp [fromItems, list, item, Staff.entityOf, Value.text]
  · simp [fromItems, list, item, Staff.entityOf, EntityDecl.NamesUnique]
  · simp [fromItems, list, item, Staff.entityOf, items, shoppingList, Value.text]
  · simp [fromItems, list, item, Staff.entityOf, items, shoppingList, Value.text]
  · intro k i j
    simp only [Links.Joined, declares_iff]
    grind

private theorem faces : Faces (declared fromItems) (list .null, items .null)
    (item (.text "items"), shoppingList (.text "items")) :=
  ⟨.inr ((declares_iff _ _).mpr ⟨rfl, rfl⟩), rfl, rfl⟩

private theorem eq_of_faces {p p' : EntityDecl × RelationshipDecl} (hp : p ∈ declared fromItems)
    (hp' : p' ∈ declared fromItems) (h : Faces (declared fromItems) p p') :
    (p = (list .null, items .null) ∧ p' = (item (.text "items"), shoppingList (.text "items"))) ∨
      (p = (item (.text "items"), shoppingList (.text "items")) ∧
        p' = (list .null, items .null)) := by
  have joined := h.joined
  simp only [Links.Joined, declares_iff] at joined
  rcases List.mem_pair.mp hp with rfl | rfl <;> rcases List.mem_pair.mp hp' with rfl | rfl
  · simp [keyOf, list, Staff.entityOf, Value.text] at joined
  · exact .inl ⟨rfl, rfl⟩
  · exact .inr ⟨rfl, rfl⟩
  · simp [keyOf, item, Staff.entityOf, Value.text] at joined

private theorem mem_fromLists {q : EntityDecl × RelationshipDecl} (hq : q ∈ declared fromLists) :
    (keyOf q = keyOf (list .null, items .null) ∧ q.2.inverse = .text "shoppingList") ∨
      (keyOf q = keyOf (item (.text "items"), shoppingList (.text "items")) ∧
        q.2.inverse = .null) := by
  rcases List.mem_pair.mp hq with rfl | rfl
  · exact .inl ⟨rfl, rfl⟩
  · exact .inr ⟨rfl, rfl⟩

/-- The inverse may be declared by lists instead of items. -/
private theorem redeclares : Redeclares fromItems fromLists := by
  have apart : keyOf (list .null, items .null) ≠
      keyOf (item (.text "items"), shoppingList (.text "items")) := by
    simp [keyOf, list, item, Staff.entityOf, Value.text]
  constructor
  · refine .cons ⟨rfl, rfl, .cons ⟨_, rfl⟩ .nil, rfl, rfl, rfl⟩ (.cons ⟨rfl, rfl, ?_, rfl, rfl, rfl⟩
      .nil)
    exact .cons ⟨_, rfl⟩ .nil
  · intro p hp alone
    rcases List.mem_pair.mp hp with rfl | rfl
    · exact absurd faces (alone _ (List.mem_pair.mpr (.inr rfl)))
    · exact absurd faces.symm (alone _ (List.mem_pair.mpr (.inl rfl)))
  · intro p hp p' hp' facing q hq hk q' hq' hk'
    rcases eq_of_faces hp hp' facing with ⟨rfl, rfl⟩ | ⟨rfl, rfl⟩
    · rcases mem_fromLists hq with ⟨-, named⟩ | ⟨hk₂, -⟩
      · exact .inl named
      · exact absurd (hk.symm.trans hk₂) apart
    · rcases mem_fromLists hq' with ⟨-, named⟩ | ⟨hk₂, -⟩
      · exact .inr named
      · exact absurd (hk'.symm.trans hk₂) apart
  · intro p hp p' hp' facing q hq hk
    rcases eq_of_faces hp hp' facing with ⟨rfl, rfl⟩ | ⟨rfl, rfl⟩ <;>
      rcases mem_fromLists hq with ⟨hk₂, named⟩ | ⟨hk₂, named⟩
    · exact .inr named
    · exact absurd (hk.symm.trans hk₂) apart
    · exact absurd (hk₂.symm.trans hk) apart
    · exact .inl (by rw [named]; rfl)

end Shopping

end EntityGraph
