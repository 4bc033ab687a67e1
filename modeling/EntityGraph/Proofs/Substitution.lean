import EntityGraph.Proofs.Compilation
import EntityGraph.Proofs.Declaring
import EntityGraph.Proofs.ReadBack.Findings

/-!
# Defaults that are written alike

The fingerprint of a schema depends on the texts of its defaults alone. Entities whose defaults are
replaced by others that can be copied as well, and whose copies are written alike, compile to a
schema of the same fingerprint, on whatever hosts the copies are made.
-/

namespace EntityGraph

open Success

/-! ### Values that are written alike -/

namespace Json

/-- Where a value can be written, without spaces and with sorted keys, another has the same text at
every level. -/
def WrittenAlike (v w : Value) : Prop :=
  ∀ level t, write .compact level v = .ok t → write .compact level w = .ok t

/-- A computation gives a value that is written as the value of another is, where this one gives
any. -/
abbrev FollowedBy (x y : Except Fault Value) : Prop := Alike (fun _ ↦ True) WrittenAlike x y

/-- A value is written like itself. -/
theorem WrittenAlike.refl (v : Value) : WrittenAlike v v := fun _ _ ↦ id

/-- A computation follows itself. -/
theorem FollowedBy.refl (x : Except Fault Value) : FollowedBy x x := by
  cases x with
  | ok v => exact .ok (.refl v)
  | error f => exact .error f

/-- Lists are written alike if their members are. -/
theorem WrittenAlike.list {vs ws : List Value} (h : List.Forall₂ WrittenAlike vs ws) :
    WrittenAlike (.list vs) (.list ws) := by
  intro level t ht
  simp only [Value.list, write, writeItems_eq_mapM, map_eq_ok, mapM_eq_ok] at ht ⊢
  obtain ⟨ts, hts, rfl⟩ := ht
  refine ⟨ts, ?_, rfl⟩
  induction h generalizing ts with
  | nil => exact hts
  | cons hvw _ ih =>
    obtain ⟨t, rest, ht, hrest, rfl⟩ := List.forall₂_cons_left_iff.mp hts
    exact .cons (hvw _ _ ht) (ih rest hrest)

/-- Mappings with the same keys are written alike if their values are. -/
theorem WrittenAlike.record {es fs : List (String × Value)}
    (h : List.Forall₂ (fun e f ↦ f.1 = e.1 ∧ WrittenAlike e.2 f.2) es fs) :
    WrittenAlike (.record es) (.record fs) := by
  intro level t ht
  have entries : writeEntries .compact (level + 1) (fs.map fun e ↦ (.text e.1, e.2)) =
      writeEntries .compact (level + 1) (es.map fun e ↦ (.text e.1, e.2)) := by
    obtain ⟨ordered, hordered, ht⟩ := (bind_eq_ok _ _ _).mp ht
    obtain ⟨members, hmembers, -⟩ := (bind_eq_ok _ _ _).mp ht
    have each := (exists_objectMembers_eq_ok _ ordered).mp ⟨members, hmembers⟩
    rw [writeEntries_eq_map, List.map_map] at hordered
    have written : ∀ e ∈ es, ∃ t, write .compact (level + 1) e.2 = .ok t := fun e he ↦
      (each _ ((mem_orderEntries_iff hordered _).mpr (List.mem_map_of_mem he))).2
    rw [writeEntries_eq_map, writeEntries_eq_map, List.map_map, List.map_map]
    refine map_eq_of_forall₂ ((List.forall₂_and_left _ _).mpr ⟨written, h⟩) ?_
    rintro e f ⟨⟨u, hu⟩, key, alike⟩
    simp only [Function.comp_apply, key, hu, alike _ u hu]
  simp only [Value.record, write, entries] at ht ⊢
  exact ht

end Json

open Json

/-! ### Graphs -/

/-- Two entities have the same findings, and the view of the second is written as that of the first
is. -/
structure Entity.Resembles (e f : Entity) : Prop where
  view : FollowedBy e.view f.view
  bare : f.bare = e.bare

/-- The view of an attribute is written as it would be with another default that is written
alike. -/
theorem Attribute.followedBy_view (a : Attribute) {d : Value}
    (follows : FollowedBy (a.type.viewOf a.default) (a.type.viewOf d)) :
    FollowedBy a.view { a with default := d }.view := by
  refine follows.bind fun v w hvw ↦ .ok (.record ?_)
  have kept : ∀ e : String × Value, e.1 = e.1 ∧ WrittenAlike e.2 e.2 := fun e ↦ ⟨rfl, .refl e.2⟩
  exact .cons (kept _) (.cons (kept _) (.cons (kept _) (.cons (kept _) (.cons ⟨rfl, hvw⟩
    (.cons (kept _) (.cons (kept _) .nil))))))

/-- Entities with attributes whose views are written alike, and with all else the same, resemble
each other. -/
theorem Entity.resembles_of_attributes {e f : Entity} (name : f.name = e.name)
    (isAbstract : f.isAbstract = e.isAbstract) (boundType : f.boundType = e.boundType)
    (relationships : f.relationships = e.relationships) (unique : f.unique = e.unique)
    (h : List.Forall₂ (fun a b ↦ FollowedBy a.view b.view) e.attributes f.attributes) :
    e.Resembles f := by
  constructor
  · have views := Alike.mapM h fun a b hab ↦ hab
    rw [view, view, name, isAbstract, boundType, relationships, unique]
    refine views.bind fun vs ws hvs ↦ .ok (.record ?_)
    have properties : WrittenAlike (.list (vs ++ e.relationships.map (·.view)))
        (.list (ws ++ e.relationships.map (·.view))) :=
      .list (List.rel_append hvs (List.forall₂_same.mpr fun v _ ↦ .refl v))
    have kept : ∀ es : List (String × Value),
        List.Forall₂ (fun e f ↦ f.1 = e.1 ∧ WrittenAlike e.2 f.2) es es :=
      fun es ↦ List.forall₂_same.mpr fun e _ ↦ ⟨rfl, .refl e.2⟩
    refine List.rel_append ?_ (kept _)
    exact .cons ⟨rfl, .refl _⟩ (.cons ⟨rfl, .refl _⟩ (.cons ⟨rfl, .refl _⟩
      (.cons ⟨rfl, properties⟩ .nil)))
  · rw [bare, bare, name, relationships]

section Graph

variable {g h : Graph} (name : h.name = g.name) (version : h.version = g.version)
  (entities : List.Forall₂ Entity.Resembles g.entities h.entities)

include name version entities

private theorem Graph.validate_eq_of_resembles : h.validate = g.validate := by
  have bare : h.bare = g.bare := by
    rw [Graph.bare, Graph.bare, map_eq_of_forall₂ entities fun _ _ hef ↦ hef.bare, name, version]
  rw [← h.validate_bare, bare, validate_bare]

/-- A graph of entities that resemble those of a graph with a fingerprint has the same
fingerprint. -/
theorem Graph.fingerprint_eq_of_resembles {t : String} (ht : g.fingerprint = .ok t) :
    h.fingerprint = .ok t := by
  have views : FollowedBy g.view h.view := by
    rw [view, view, name, version]
    refine (Alike.mapM entities fun _ _ hef ↦ hef.view).bind fun vs ws hvs ↦ .ok (.record ?_)
    exact .cons ⟨rfl, .refl _⟩ (.cons ⟨rfl, .refl _⟩ (.cons ⟨rfl, .list hvs⟩ .nil))
  rw [fingerprint] at ht ⊢
  generalize g.view = x, h.view = y at views ht ⊢
  cases views with
  | @ok v w hvw =>
    have written : fingerprintOf v = .ok t := ht
    obtain ⟨u, hu, -⟩ := (bind_eq_ok _ _ _).mp written
    have texts : text .compact w = text .compact v := (hvw 0 u hu).trans hu.symm
    simp only [bind, Except.bind, fingerprintOf, texts] at ht ⊢
    exact ht
  | error f => exact ht
  | apart _ y => cases ht

end Graph

/-! ### Declarations -/

/-- An attribute is declared as another is, but for a default that can be copied if the other one
can, and whose copy on a host is written as the copy of the other one is on another. -/
structure AttributeDecl.Resembles (host host' : Host) (entity : Value) (a b : AttributeDecl) :
    Prop where
  name : b.name = a.name
  type : b.type = a.type
  isOptional : b.isOptional = a.isOptional
  externalStorage : b.externalStorage = a.externalStorage
  preservedOnDelete : b.preservedOnDelete = a.preservedOnDelete
  default : ∀ c, a.copyDefault host entity = .ok c →
    ∃ d, b.copyDefault host' entity = .ok d ∧ FollowedBy (a.type.viewOf c) (a.type.viewOf d)

/-- An entity is declared as another is, but for attributes that resemble those of the other. -/
abbrev EntityDecl.Resembles (host host' : Host) (e f : EntityDecl) : Prop :=
  Alters (AttributeDecl.Resembles host host' e.name) e f

namespace AttributeDecl

private theorem Resembles.view {host host' : Host} {owner : Value} {a b : AttributeDecl}
    (h : Resembles host host' owner a b) {c d : Value}
    (follows : FollowedBy (a.type.viewOf c) (a.type.viewOf d)) :
    FollowedBy (a.attribute owner c).view (b.attribute owner d).view := by
  have same : b.attribute owner d = { a.attribute owner c with default := d } := by
    simp only [AttributeDecl.attribute, h.name, h.type, h.isOptional, h.externalStorage,
      h.preservedOnDelete]
  rw [same]
  exact (a.attribute owner c).followedBy_view follows

end AttributeDecl

namespace Schema

variable {host host' : Host}

/-- The attributes of an entity that resembles another succeed if those of the other do. -/
private theorem skeleton_resembles {e f : EntityDecl} (h : EntityDecl.Resembles host host' e f) :
    Alike (fun _ ↦ True) (fun x y ↦ EntityDecl.Resembles host host' x.1 y.1 ∧
      List.Forall₂ (fun s t ↦ FollowedBy s.view t.view) x.2 y.2)
      (skeleton host e) (skeleton host' f) := by
  have copied : ∀ a b, AttributeDecl.Resembles host host' e.name a b → Alike (fun _ ↦ True)
      (fun s t ↦ FollowedBy s.view t.view)
      (attributeOf host e.name a) (attributeOf host' e.name b) := by
    intro a b hab
    cases ha : attributeOf host e.name a with
    | error failure => exact .apart trivial _
    | ok s =>
      obtain ⟨isCopied, rfl⟩ := (attributeOf_eq_ok e.name a s).mp ha
      obtain ⟨d, hd, follows⟩ :=
        hab.default _ ((AttributeDecl.copyDefault_eq_ok _).mpr ⟨isCopied, rfl⟩)
      obtain ⟨isCopied', rfl⟩ := (AttributeDecl.copyDefault_eq_ok d).mp hd
      rw [(attributeOf_eq_ok e.name b _).mpr ⟨isCopied', rfl⟩]
      exact .ok (hab.view follows)
  have unique := checkUnique_congr h.name
    (map_eq_of_forall₂ h.attributes fun _ _ hab ↦ hab.name) e.unique
  rw [skeleton, skeleton, h.name, h.unique, unique]
  exact (Alike.mapM h.attributes copied).bind fun as bs hab ↦ .bind_same _ fun _ ↦ .ok ⟨h, hab⟩

end Schema

namespace Links

variable {host host' : Host} {es fs : List EntityDecl}
  (h : List.Forall₂ (EntityDecl.Resembles host host') es fs)

include h

private theorem visit_eq_of_resembles (l : Links) {e f : EntityDecl}
    (hef : EntityDecl.Resembles host host' e f) (r : RelationshipDecl) :
    visit fs l f r = visit es l e r := by
  have found : Option.Rel (EntityDecl.Resembles host host') (EntityDecl.find? es r.destination)
      (EntityDecl.find? fs r.destination) := rel_find? h fun _ _ hab ↦ by rw [hab.name]
  rw [visit, visit, hef.name]
  generalize EntityDecl.find? es r.destination = x, EntityDecl.find? fs r.destination = y at found
  cases found with
  | none => rfl
  | some hab => simp only [EntityDecl.member?, hab.name, hab.relationships]

private theorem ofEntities_resembles :
    Alike (fun _ ↦ True) (fun l m ↦ m = l) (ofEntities es).result (ofEntities fs).result := by
  have declared : List.Forall₂ (fun p q ↦ EntityDecl.Resembles host host' p.1 q.1 ∧ q.2 = p.2)
      (declared es) (declared fs) := by
    refine List.rel_flatMap h fun e f hef ↦ ?_
    rw [hef.relationships, List.forall₂_map_left_iff, List.forall₂_map_right_iff,
      List.forall₂_same]
    exact fun r _ ↦ ⟨hef, rfl⟩
  refine Traced.alike_foldlM declared ?_ none
  rintro l ⟨e, r⟩ ⟨f, _⟩ ⟨hef, rfl⟩
  exact .of_eq (congrArg _ (visit_eq_of_resembles h l hef _))

end Links

namespace Schema

variable {host host' : Host}

private theorem entityOf_resembles (config : CompilerConfig) (l : Links) {e f : EntityDecl}
    (h : EntityDecl.Resembles host host' e f) {as bs : List Attribute}
    (attributes : List.Forall₂ (fun s t ↦ FollowedBy s.view t.view) as bs) :
    Alike (fun _ ↦ True) Entity.Resembles (entityOf config l e as) (entityOf config l f bs) := by
  rw [entityOf, entityOf, h.name, h.relationships, h.isAbstract, h.boundType, h.unique]
  exact .bind_same _ fun rs ↦ .ok
    (Entity.resembles_of_attributes rfl rfl rfl rfl rfl attributes)

/-- Entities that resemble others compile to a schema of the same fingerprint. -/
theorem exists_compile_of_resembles {config : CompilerConfig} {es fs : List EntityDecl}
    (h : List.Forall₂ (EntityDecl.Resembles host host') es fs) {name version : Value} {s : Schema}
    (hs : (compile host config es name version).result = .ok s) :
    ∃ t, (compile host' config fs name version).result = .ok t ∧ t.fingerprint = s.fingerprint := by
  have alike : Alike (fun _ ↦ True) (fun s t ↦ t.fingerprint = s.fingerprint)
      (compile host config es name version).result
        (compile host' config fs name version).result := by
    have names := map_eq_of_forall₂ h fun _ _ hef ↦ hef.name
    simp only [compile, names, h.length_eq, Traced.result_bind]
    apply Alike.bind_same
    intro _
    refine (Alike.mapM h fun _ _ hef ↦ skeleton_resembles hef).bind fun ps qs hpq ↦ ?_
    apply Alike.bind_same
    intro _
    refine (Links.ofEntities_resembles h).bind ?_
    rintro _ l rfl
    refine (Alike.mapM hpq fun _ _ hp ↦ entityOf_resembles config l hp.1 hp.2).bind ?_
    intro as bs hab
    have validate := Graph.validate_eq_of_resembles (g := ⟨name, version, as⟩)
      (h := ⟨name, version, bs⟩) rfl rfl hab
    have graphs : Alike (fun _ ↦ True) (fun s t ↦ s.graph = ⟨name, version, as⟩ ∧
        t.graph = ⟨name, version, bs⟩ ∧ t.fingerprint = s.fingerprint)
        (ofGraph? host ⟨name, version, as⟩) (ofGraph? host' ⟨name, version, bs⟩) := by
      cases hg : ofGraph? host ⟨name, version, as⟩ with
      | error failure => exact .apart trivial _
      | ok s =>
        have graph := (ofGraph?_eq_ok _ s).mp hg
        have fingerprint := Graph.fingerprint_eq_of_resembles (g := ⟨name, version, as⟩)
          (h := ⟨name, version, bs⟩) rfl rfl hab (graph ▸ s.fingerprint_eq)
        rw [(ofGraph?_eq_ok _ ⟨_, _, fingerprint⟩).mpr rfl]
        exact .ok ⟨graph, rfl, rfl⟩
    refine graphs.bind ?_
    rintro s t ⟨hgraph, hgraph', fingerprint⟩
    -- The findings and the note are the same, and only the schemas that come out differ.
    have note : compiledText t = compiledText s := by
      rw [compiledText, compiledText, hgraph, hgraph', fingerprint, hab.length_eq]
    rw [hgraph, hgraph', validate, note]
    exact .bind_same _ fun _ ↦ .bind_same _ fun _ ↦ .bind_same _ fun _ ↦ .ok fingerprint
  rw [hs] at alike
  generalize (compile host' config fs name version).result = x at alike
  cases alike with
  | ok fingerprint => exact ⟨_, rfl, fingerprint⟩

end Schema

end EntityGraph
