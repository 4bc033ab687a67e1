import EntityGraph.Proofs.Coherence
import EntityGraph.Proofs.ReadBack.Equality

/-!
# What a schema retains

Compiling loses, repeats and reorders nothing. Every declaration has its counterpart in the schema,
at its place and under its name, and the counterpart says all that the declaration says. Mappings
from names, in which a later member would take the place of an earlier one, keep all members as
well.
-/

namespace EntityGraph

/-! ### Copies that equal what they are copies of -/

namespace Value

/-- A part of a value that stays the same in a copy: an object of a foreign class that is its own
copy, or a part that can be told from its content or is known to be one object. Nothing that
contains itself stays the same. -/
def IsSettled : Value → Prop
  | .atom id (.foreign f) => id ≠ .fresh ∧ f.copying = .itself
  | .atom id a => a.isElusive = true → id ≠ .fresh
  | .loop .. => False
  | _ => True

section Copies

variable {copier : Copier}

mutual

/-- A value is the same as its copy, if the parts of it are settled. -/
theorem same_deepCopy {v w : Value} (h : v.Every IsSettled) (hw : v.deepCopy copier = .ok w) :
    v.same w = true := by
  cases v with
  | atom id a =>
    cases a with
    | foreign f =>
      obtain ⟨known, itself⟩ : id ≠ .fresh ∧ f.copying = .itself := h
      simp only [deepCopy, Foreign.copy, itself] at hw
      obtain rfl := Except.ok.inj hw
      exact same_self fun _ ↦ known
    | _ =>
      obtain rfl := Except.ok.inj hw
      exact same_self h
  | seq id kind vs =>
    obtain ⟨ws, hws, rfl⟩ := (deepCopy_seq_eq_ok ..).mp hw
    have members := same_copyItems h.2 hws
    have length := ((arranged_perm kind ws).length_eq.trans members.length_eq.symm).symm
    have unordered : allAmong vs (arranged kind ws) = true := by
      refine (allAmong_iff _ _).mpr fun v hv ↦ ?_
      obtain ⟨w, hw, same⟩ := Success.exists_of_forall₂ members hv
      exact ⟨w, (arranged_perm kind ws).mem_iff.mpr hw, same⟩
    cases kind with
    | list | tuple => simp [same, SeqKind.comparison?, arranged, (sameItems_iff _ _).mpr members]
    | set | frozenset => simp [same, SeqKind.comparison?, length, unordered]
  | dict id es =>
    obtain ⟨fs, hfs, hw⟩ := (Success.bind_eq_ok _ _ _).mp hw
    obtain rfl := Except.ok.inj hw
    have entries := same_copyEntries h.2 hfs
    have found : entriesAmong es fs = true :=
      (entriesAmong_iff _ _).mpr fun e he ↦ Success.exists_of_forall₂ entries he
    simp [same, entries.length_eq, found]
  | loop id kind => cases h
termination_by structural v

private theorem same_copyItems {vs ws : List Value} (h : EveryMember IsSettled vs)
    (hws : copyItems copier vs = .ok ws) : List.Forall₂ (fun v w ↦ v.same w = true) vs ws := by
  cases vs with
  | nil =>
    obtain rfl := Except.ok.inj hws
    exact .nil
  | cons v vs =>
    obtain ⟨w, hw, hws⟩ := (Success.bind_eq_ok _ _ _).mp hws
    obtain ⟨ws, hws', hws⟩ := (Success.bind_eq_ok _ _ _).mp hws
    obtain rfl := Except.ok.inj hws
    exact .cons (same_deepCopy h.1 hw) (same_copyItems h.2 hws')
termination_by structural vs

private theorem same_copyEntries {es fs : List (Value × Value)} (h : EveryEntry IsSettled es)
    (hfs : copyEntries copier es = .ok fs) :
    List.Forall₂ (fun e f ↦ e.1.same f.1 = true ∧ e.2.same f.2 = true) es fs := by
  cases es with
  | nil =>
    obtain rfl := Except.ok.inj hfs
    exact .nil
  | cons e es =>
    obtain ⟨w, hw, hfs⟩ := (Success.bind_eq_ok _ _ _).mp hfs
    obtain ⟨l, hl, hfs⟩ := (Success.bind_eq_ok _ _ _).mp hfs
    obtain ⟨fs, hfs', hfs⟩ := (Success.bind_eq_ok _ _ _).mp hfs
    obtain rfl := Except.ok.inj hfs
    exact .cons ⟨same_deepCopy h.1.1 hl, same_deepCopy h.1.2 hw⟩ (same_copyEntries h.2 hfs')
termination_by structural es

end

end Copies

end Value

/-! ### What a schema says -/

/-- An attribute of an entity says what a declaration says. It has the very default, or a copy where
the type is opaque, which is the same unless an object of a foreign class is copied to another. -/
structure AttributeDecl.IsCarriedBy (host : Host) (owner : Value) (a : AttributeDecl)
    (b : Attribute) : Prop where
  entity : b.entity = owner
  name : b.name = a.name
  type : b.type = a.type
  isOptional : b.isOptional = a.isOptional
  typed : a.type.isOpaque = false → b.default = a.default
  copied : a.type.isOpaque = true →
    a.default.deepCopy (host.copier owner a.name) = .ok b.default
  settled : a.type.isOpaque = true → a.default.Every Value.IsSettled →
    a.default.same b.default = true
  externalStorage : b.externalStorage = a.externalStorage
  preservedOnDelete : b.preservedOnDelete = a.preservedOnDelete

/-- A relationship of an entity says what a declaration says. -/
structure RelationshipDecl.IsCarriedBy (owner : Value) (r : RelationshipDecl) (q : Relationship) :
    Prop where
  entity : q.entity = owner
  name : q.name = r.name
  destination : q.destination = r.destination
  isToMany : q.isToMany = r.isToMany
  isOptional : q.isOptional = r.isOptional
  deleteRule : q.deleteRule = r.deleteRule
  inverseName : q.inverseName = r.inverse

/-- The mapping of members under their names, where a later member takes the place of an earlier one
of the same name. -/
def Value.registry {α : Type} (name : α → Value) (as : List α) : List (Value × α) :=
  (as.map fun a ↦ (name a, a)).foldl (fun es e ↦ insert e.1 e.2 es) []

/-- Members of distinct textual names are in the mapping, in order. -/
theorem Value.registry_eq_map {α : Type} {name : α → Value} {as : List α}
    (texts : ∀ a ∈ as, (name a).IsText) (distinct : (as.map name).Nodup) :
    registry name as = as.map fun a ↦ (name a, a) := by
  apply foldl_insert_eq
  · exact List.forall_mem_map.mpr texts
  · rwa [List.map_map]

/-- An entity of a schema says what a declaration says: its properties are the declared ones in
order, and a name finds the counterpart of what it finds in the declaration. -/
structure EntityDecl.IsCarriedBy (host : Host) (config : CompilerConfig) (e : EntityDecl)
    (f : Entity) : Prop where
  name : f.name = e.name
  isAbstract : f.isAbstract = e.isAbstract
  unique : f.unique = e.unique
  declaredBoundType : f.declaredBoundType = e.boundType
  boundType : e.boundType.truthy = true → f.boundType = e.boundType
  defaultBoundType : e.boundType.truthy = false → f.boundType = .text config.defaultBoundType
  attributes : List.Forall₂ (AttributeDecl.IsCarriedBy host e.name) e.attributes f.attributes
  relationships : List.Forall₂ (RelationshipDecl.IsCarriedBy e.name) e.relationships f.relationships
  /-- The properties in the view of an entity are its attributes, then its relationships. -/
  properties : ∃ v vs, f.view = .ok v ∧ f.attributes.mapM (·.view) = .ok vs ∧
    v.get "properties" = .list (vs ++ f.relationships.map (·.view))
  registry : Value.registry (·.name) f.relationships = f.relationships.map fun q ↦ (q.name, q)
  attribute? : ∀ n, Option.Rel (AttributeDecl.IsCarriedBy host e.name) (e.attribute? n)
    (f.attribute? n)
  relationship? : ∀ n,
    Option.Rel (RelationshipDecl.IsCarriedBy e.name) (e.relationship? n) (f.relationship? n)
  exclusive : ∀ n, f.attribute? n = none ∨ f.relationship? n = none

private theorem AttributeDecl.isCarriedBy_compiled {host : Host} {owner : Value} {a : AttributeDecl}
    (isCopied : a.IsCopied) : a.IsCarriedBy host owner (a.compiled host owner) := by
  have copy : a.copyDefault host owner = .ok (a.copied host owner) :=
    (copyDefault_eq_ok _).mpr ⟨isCopied, rfl⟩
  have copied : a.type.isOpaque = true →
      a.default.deepCopy (host.copier owner a.name) = .ok (a.copied host owner) := by
    intro isOpaque
    rwa [copyDefault, if_pos isOpaque] at copy
  exact ⟨rfl, rfl, rfl, rfl, copied_of_typed, copied,
    fun isOpaque settled ↦ Value.same_deepCopy settled (copied isOpaque), rfl, rfl⟩

private theorem RelationshipDecl.isCarriedBy_linked (owner : Value) (inverse : Option Key)
    (r : RelationshipDecl) : r.IsCarriedBy owner (r.linked owner inverse) :=
  ⟨rfl, rfl, rfl, rfl, rfl, rfl, rfl⟩

namespace EntityDecl

section Entity

variable {e : EntityDecl} (named : e.IsNamed) {host : Host} {config : CompilerConfig} {l : Links}

include named in
/-- No name finds both an attribute and a relationship of a named entity. -/
private theorem IsNamed.exclusive (n : Value) :
    e.attribute? n = none ∨ e.relationship? n = none := by
  cases ha : e.attribute? n with
  | none => exact .inl rfl
  | some a =>
    cases hr : e.relationship? n with
    | none => exact .inr rfl
    | some r =>
      have hna : a.name.equals n = true :=
        List.find?_some (p := fun x : AttributeDecl ↦ x.name.equals n) ha
      have hnr : r.name.equals n = true :=
        List.find?_some (p := fun x : RelationshipDecl ↦ x.name.equals n) hr
      have hma := List.mem_of_find?_eq_some ha
      have hmr := List.mem_of_find?_eq_some hr
      have same : a.name = r.name := by
        obtain ⟨s, hs⟩ := named.attributes a hma
        obtain ⟨t, ht⟩ := (named.relationships r hmr).name
        rw [hs, Value.text_equals] at hna
        rw [ht, Value.text_equals] at hnr
        rw [hs, ht]
        exact Value.IsText.eq_of_same ⟨s, rfl⟩ ⟨t, rfl⟩ hna hnr
      have disjoint := (List.nodup_append.mp named.nodup_properties).2.2
      exact absurd same (disjoint _ (List.mem_map_of_mem hma) _ (List.mem_map_of_mem hmr))

private theorem attributes_linked (isCopied : ∀ a ∈ e.attributes, a.IsCopied) :
    List.Forall₂ (AttributeDecl.IsCarriedBy host e.name) e.attributes
      (e.linked host config l).attributes := by
  rw [linked, List.forall₂_map_right_iff, List.forall₂_same]
  exact fun a ha ↦ AttributeDecl.isCarriedBy_compiled (isCopied a ha)

private theorem relationships_linked : List.Forall₂
    (RelationshipDecl.IsCarriedBy e.name) e.relationships
    (e.linked host config l).relationships := by
  rw [linked, List.forall₂_map_right_iff, List.forall₂_same]
  exact fun r _ ↦ r.isCarriedBy_linked e.name _

include named in
/-- The entity that a named declaration stands for under some links says what it says. -/
private theorem IsNamed.isCarriedBy_linked (isCopied : ∀ a ∈ e.attributes, a.IsCopied) {v : Value}
    (hv : (e.linked host config l).view = .ok v) :
    e.IsCarriedBy host config (e.linked host config l) := by
  have attributes : List.Forall₂ (AttributeDecl.IsCarriedBy host e.name) e.attributes
      (e.linked host config l).attributes := attributes_linked isCopied
  have relationships : List.Forall₂ (RelationshipDecl.IsCarriedBy e.name) e.relationships
      (e.linked host config l).relationships := relationships_linked
  have names : (e.linked host config l).relationships.map (·.name) = e.relationships.map (·.name) :=
    Success.map_eq_of_forall₂ relationships fun _ _ h ↦ h.name
  have attribute? : ∀ n, Option.Rel (AttributeDecl.IsCarriedBy host e.name) (e.attribute? n)
      ((e.linked host config l).attribute? n) :=
    fun n ↦ Success.rel_find? attributes fun _ _ h ↦ by rw [h.name]
  have relationship? : ∀ n, Option.Rel (RelationshipDecl.IsCarriedBy e.name) (e.relationship? n)
      ((e.linked host config l).relationship? n) :=
    fun n ↦ Success.rel_find? relationships fun _ _ h ↦ by rw [h.name]
  have bound : (e.linked host config l).boundType =
      e.boundType.orElse (.text config.defaultBoundType) := rfl
  exact {
    name := rfl
    isAbstract := rfl
    unique := rfl
    declaredBoundType := rfl
    boundType := fun declared ↦ by rw [bound, Value.orElse, if_pos declared]
    defaultBoundType := fun absent ↦ by rw [bound, Value.orElse, absent]; rfl
    attributes := attributes
    relationships := relationships
    properties := by
      obtain ⟨vs, hvs, hrecord⟩ := (Success.bind_eq_ok _ _ _).mp hv
      refine ⟨v, vs, hv, hvs, ?_⟩
      obtain rfl := Except.ok.inj hrecord
      simp [Value.get, Value.get?, Value.record, Value.find?]
    registry := by
      apply Value.registry_eq_map
      · intro q hq
        obtain ⟨r, hr, rfl⟩ := List.mem_map.mp hq
        exact (named.relationships r hr).name
      · rw [names]
        exact named.nodup_relationships
    attribute? := attribute?
    relationship? := relationship?
    exclusive := fun n ↦ by
      rcases named.exclusive n with h | h
      · have found := attribute? n
        rw [h] at found
        exact .inl (Success.eq_none_of_rel found)
      · have found := relationship? n
        rw [h] at found
        exact .inr (Success.eq_none_of_rel found) }

end Entity

end EntityDecl

namespace Schema

variable {entities : List EntityDecl} {host : Host} {config : CompilerConfig}
  {name version : Value} {s : Schema}

private theorem exists_view (s : Schema) {f : Entity} (hf : f ∈ s.graph.entities) :
    ∃ v, f.view = .ok v := by
  have written := s.graph.exists_fingerprint_iff.mp ⟨s.fingerprint, s.fingerprint_eq⟩
  obtain ⟨v, hv, -⟩ := (s.graph.isWritten_view_iff.mp written).2.2 f hf
  exact ⟨v, hv⟩

end Schema

/-! ### An example -/

namespace Agenda

open EntityGraph.Calendar

/-- The events of the example are textual. -/
theorem isTextual (m : Moment) : ∀ e ∈ (model m).entities, e.IsTextual :=
  fun e he ↦ (isRecoverable m e he).textual

private theorem coherent (m : Moment) : Coherent (model m).entities := by
  have declares : ∀ k i, Links.Declares (Links.declared (model m).entities) k i ↔
      k = ⟨.text "Event", .text "next"⟩ ∧ i = ⟨.text "Event", .text "next"⟩ := by
    intro k i
    have declared : Links.declared (model m).entities = [(event m, next)] := rfl
    simp only [Links.Declares, declared, List.exists_mem_cons_iff, Links.wanted?_eq_some]
    simp [next, Links.keyOf, event, eq_comm (b := k)]
  refine ⟨?_, ?_, ?_, ?_, ?_⟩
  · simp [model]
  · simp [model, event, EntityDecl.NamesUnique, begins]
  · simp [model, event, next]
  · simp [model, event, next]
  · intro k i j
    simp only [Links.Joined, declares]
    grind

private theorem isPortable (m : Moment) (host : Host) :
    ∀ e ∈ (model m).entities, ∀ a ∈ e.attributes, a.IsPortable host e.name := by
  have hbegins : (begins m).IsPortable host (.text "Event") := ⟨nofun, _, rfl, Json.hasText_text _⟩
  have hprice : price.IsPortable host (.text "Event") := ⟨nofun, _, rfl, Json.hasText_text _⟩
  simpa [model, event] using ⟨hbegins, hprice⟩

private theorem exists_compile_eq_ok (m : Moment) (host : Host) : ∃ s,
    (Schema.compile host default (model m).entities (.text "Agenda") (.int 1)).result = .ok s := by
  refine (Schema.exists_compile_eq_ok (isTextual m) rfl).mpr
    ⟨coherent m, isPortable m host, ?_, ?_⟩
  · exact Value.isShowable_text "Agenda"
  · exact (Value.isShowable_int_iff 1).mpr (Number.Integer.isTooLong_of_le_one le_rfl)

end Agenda

namespace Codecs

/-- An object of a class that nothing is known of but its text. A copy of it is another object. -/
def plain : Foreign := ⟨"object", "<object object>", none, .anew⟩

/-- What a codec holds by default. -/
def codec : AttributeDecl :=
  { name := .text "codec"
    type := .transformable
    isOptional := true
    default := .atom (.given 1) (.foreign plain)
    externalStorage := false
    preservedOnDelete := false
    named := by decide
    typed := ScalarType.checkDefault_transformable _ _ }

/-- Codecs, bound to a number, as a document may have it. -/
def entity : EntityDecl :=
  { name := .text "Codec"
    attributes := [codec]
    relationships := []
    isAbstract := false
    boundType := .int 0
    unique := []
    named := by decide
    distinct := by refine ⟨?_, ?_⟩ <;> simp [propertyNames, codec] }

/-- All names in the example are texts. -/
theorem isNamed : ∀ e ∈ [entity], e.IsNamed :=
  List.forall_mem_singleton.mpr ⟨⟨_, rfl⟩, by simp [entity, codec, Value.IsText], by simp [entity],
    by simp [entity]⟩

/-- Codecs have a schema. -/
private theorem exists_compile_eq_ok : ∃ s,
    (Schema.compile default default [entity] (.text "Codecs") (.int 1)).result = .ok s := by
  let g := Schema.linkedGraph default default .none [entity] (.text "Codecs") (.int 1)
  have one := (Value.isShowable_int_iff 1).mpr (Number.Integer.isTooLong_of_le_one le_rfl)
  have textual : (entity.linked default default .none).IsTextual :=
    ⟨⟨_, rfl⟩, ⟨_, rfl⟩, by simp [entity, EntityDecl.linked, codec, AttributeDecl.compiled,
      AttributeDecl.attribute, Value.IsText], List.forall_mem_nil _, List.forall_mem_nil _,
      List.forall_mem_nil _, List.forall_mem_nil _⟩
  have defaults : ∀ a ∈ (entity.linked default default .none).attributes,
      Json.IsWritten (a.type.viewOf a.default) :=
    List.forall_mem_singleton.mpr ⟨_, rfl, Json.hasText_text "<object object>"⟩
  obtain ⟨fingerprint, hf⟩ : ∃ t, g.fingerprint = .ok t :=
    g.exists_fingerprint_iff.mpr (g.isWritten_view_iff.mpr ⟨Json.hasText_text _, one.1,
      List.forall_mem_singleton.mpr ((Entity.isWritten_view_iff _ textual).mpr defaults)⟩)
  let s : Schema := ⟨g, fingerprint, hf⟩
  refine ⟨s, (Schema.compile_eq_ok isNamed default default _ _ s).mpr
    ⟨by simp, ?_, .none, rfl, rfl, ⟨[], rfl, rfl⟩, ?_⟩⟩
  · have isCopied : codec.IsCopied := by rintro - m ⟨⟩
    simpa [entity, EntityDecl.NamesUnique] using isCopied
  · exact (Schema.exists_compiledText_iff s).mpr ⟨⟨_, rfl⟩, one.2⟩

private theorem equals_copied : codec.default.equals
    (codec.copied default (.text "Codec")) = false := by
  have copy : codec.copied default (.text "Codec") =
      .atom (.copy (.given 1)) (.foreign plain) := rfl
  have numeral : (Atom.foreign plain).numeral? = none := rfl
  rw [copy]
  simp [codec, Value.equals, Value.same, Atom.equals, Identity.same, numeral]

end Codecs

end EntityGraph
