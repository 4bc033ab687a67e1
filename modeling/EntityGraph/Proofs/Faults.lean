import EntityGraph.Proofs.Canonical
import EntityGraph.Proofs.Compilation
import EntityGraph.Schema.Model

/-!
# Faults of compilation

Where compilation fails and reports no error of the schema, a value was misused. Every such fault
comes from the model: a name or the version cannot be shown, a name cannot be a key, copying a
default or giving it a form fails in a way that is not answered for, or so does writing what is
declared. The links and the graph that are built on the way hold nothing that the model does not
mention.
-/

namespace EntityGraph

open Success (FailsOnly)

/-- An error of a schema, not of something else. -/
def SchemaError.IsOfSchema : SchemaError → Prop
  | general .. | format .. => False
  | _ => True

/-- A failure that reports an error of a schema. -/
def Failure.IsOfSchema (f : Failure) : Prop := ∃ r, f = .reported r ∧ r.error.IsOfSchema

/-- A value that entities mention: a name, of themselves or in them. -/
inductive Mentions (entities : List EntityDecl) : Value → Prop
  | entity {e : EntityDecl} (he : e ∈ entities) : Mentions entities e.name
  | property {e : EntityDecl} (he : e ∈ entities) {a : AttributeDecl} (ha : a ∈ e.attributes) :
    Mentions entities a.name
  | relationship {e : EntityDecl} (he : e ∈ entities) {r : RelationshipDecl}
    (hr : r ∈ e.relationships) : Mentions entities r.name
  | destination {e : EntityDecl} (he : e ∈ entities) {r : RelationshipDecl}
    (hr : r ∈ e.relationships) : Mentions entities r.destination
  | inverse {e : EntityDecl} (he : e ∈ entities) {r : RelationshipDecl}
    (hr : r ∈ e.relationships) : Mentions entities r.inverse
  | unique {e : EntityDecl} (he : e ∈ entities) {n : Value} (hn : n ∈ e.unique) :
    Mentions entities n

/-- A value that stands in the view of a schema as it is declared. -/
inductive Writes (entities : List EntityDecl) (name version : Value) : Value → Prop
  | name : Writes entities name version name
  | version : Writes entities name version version
  | mention {v : Value} (hv : Mentions entities v) : Writes entities name version v
  | boundType {e : EntityDecl} (he : e ∈ entities) : Writes entities name version e.boundType

/-- The default of an attribute is copied with a fault that is not answered for. -/
structure AttributeDecl.EscapesCopy (host : Host) (entity : Value) (a : AttributeDecl) (g : Fault) :
    Prop where
  failed : a.copyDefault host entity = .error g
  type : g.kind ≠ .type
  copying : g.kind ≠ .copying

/-- The copied default of an attribute has no form, for a fault that is not answered for. -/
@[mk_iff]
structure AttributeDecl.EscapesForm (host : Host) (entity : Value) (a : AttributeDecl) (g : Fault) :
    Prop where
  failed : a.type.viewOf (a.copied host entity) = .error g
  unanswered : Schema.isUnserializable g = false

/-- A value is written with a fault that is not answered for. -/
@[mk_iff]
structure Value.EscapesText (v : Value) (g : Fault) : Prop where
  failed : Json.text .compact v = .error g
  unanswered : Schema.isUnserializable g = false

/-- A fault of a value that entities mention: it cannot be shown, or it cannot be a key. -/
inductive Misnames (entities : List EntityDecl) : Fault → Prop
  | shown {v : Value} (hv : Mentions entities v) {g : Fault} (h : v.display = .error g) :
    Misnames entities g
  | key {v : Value} (hv : Mentions entities v) {g : Fault} (h : v.checkKey = .error g) :
    Misnames entities g

/-- A fault that comes from what entities, and their name and version, are made of. -/
inductive Provokes (host : Host) (entities : List EntityDecl) (name version : Value) : Fault → Prop
  | name {g : Fault} (h : name.display = .error g) : Provokes host entities name version g
  | version {g : Fault} (h : version.display = .error g) : Provokes host entities name version g
  | names {g : Fault} (h : Misnames entities g) : Provokes host entities name version g
  | copy {e : EntityDecl} (he : e ∈ entities) {a : AttributeDecl} (ha : a ∈ e.attributes)
    {g : Fault} (h : a.EscapesCopy host e.name g) : Provokes host entities name version g
  | form {e : EntityDecl} (he : e ∈ entities) {a : AttributeDecl} (ha : a ∈ e.attributes)
    {g : Fault} (h : a.EscapesForm host e.name g) : Provokes host entities name version g
  | text {v : Value} (hv : Writes entities name version v) {g : Fault} (h : v.EscapesText g) :
    Provokes host entities name version g

/-- A computation fails with a report of an error of a schema, or with a fault of a kind. -/
abbrev Accounts (Q : Fault → Prop) {α : Type} (x : Except Failure α) : Prop :=
  FailsOnly (fun f ↦ f.IsOfSchema ∨ ∃ g, f = .fault g ∧ Q g) x

/-! ### Messages -/

/-- The values that the message of an error shows. -/
def SchemaError.shown : SchemaError → List Value
  | general .. | schema .. | format .. => []
  | typeMismatch attr .. => [attr]
  | duplicateProperty entity property => [entity, property]
  | duplicateEntity entity => [entity]
  | unknownDestination entity relationship destination => [entity, relationship, destination]
  | unknownInverse entity relationship inverse destination =>
    [entity, relationship, inverse, destination]
  | conflictingInverse entity relationship existing requested =>
    [entity, relationship, existing, requested]
  | unknownUnique entity attr | uncopyableDefault entity attr _ => [entity, attr]
  | unresolved entity relationship => [entity, relationship]
  | unserializable name _ | inconsistent name _ => [name]

/-- A computation fails only with the faults of showing some values. -/
abbrev Shows {α : Type} (vs : List Value) (x : Except Fault α) : Prop :=
  FailsOnly (fun g ↦ ∃ v ∈ vs, v.display = .error g) x

/-- Showing one of some values fails with its fault. -/
theorem shows_display {vs : List Value} {v : Value} (hv : v ∈ vs) : Shows vs v.display :=
  fun _ hg ↦ ⟨v, hv, hg⟩

private theorem shows_memberText {vs : List Value} {entity property : Value} (he : entity ∈ vs)
    (hp : property ∈ vs) : Shows vs (SchemaError.memberText entity property) :=
  (shows_display he).bind fun _ _ ↦ (shows_display hp).bind fun _ _ ↦ .ok _

/-- The message of an error fails with the faults of the values that it shows. -/
private theorem SchemaError.shows_message (e : SchemaError) : Shows e.shown e.message := by
  cases e with
  | general | schema => exact .ok _
  | typeMismatch => exact (shows_display (by simp [shown])).bind fun _ _ ↦ .ok _
  | duplicateProperty =>
    exact (shows_display (by simp [shown])).bind fun _ _ ↦
      (shows_display (by simp [shown])).bind fun _ _ ↦ .ok _
  | duplicateEntity => exact (shows_display (by simp [shown])).bind fun _ _ ↦ .ok _
  | unknownDestination =>
    exact (shows_memberText (by simp [shown]) (by simp [shown])).bind fun _ _ ↦
      (shows_display (by simp [shown])).bind fun _ _ ↦ .ok _
  | unknownInverse =>
    refine (shows_memberText (by simp [shown]) (by simp [shown])).bind fun _ _ ↦
      (shows_display (by simp [shown])).bind fun _ _ ↦ ?_
    split
    · exact ((shows_display (by simp [shown])).map _).bind fun _ _ ↦ .ok _
    · exact FailsOnly.bind (.ok "") fun _ _ ↦ .ok _
  | conflictingInverse =>
    refine (shows_memberText (by simp [shown]) (by simp [shown])).bind fun _ _ ↦ ?_
    split
    · exact (shows_display (by simp [shown])).bind fun _ _ ↦
        (shows_display (by simp [shown])).bind fun _ _ ↦ .ok _
    · exact FailsOnly.bind (.ok "") fun _ _ ↦ .ok _
  | unknownUnique =>
    exact (shows_display (by simp [shown])).bind fun _ _ ↦
      (shows_display (by simp [shown])).bind fun _ _ ↦ .ok _
  | uncopyableDefault | unresolved =>
    exact (shows_memberText (by simp [shown]) (by simp [shown])).bind fun _ _ ↦ .ok _
  | unserializable | inconsistent =>
    exact (shows_display (by simp [shown])).bind fun _ _ ↦ .ok _
  | format text path =>
    simp only [message]
    split <;> exact .ok _

variable {host : Host} {entities : List EntityDecl} {name version : Value} {Q R : Fault → Prop}

namespace Accounts

/-- A computation that fails with faults of a kind fails with faults of a wider kind. -/
theorem mono {α : Type} {x : Except Failure α} (h : Accounts Q x) (wider : ∀ g, Q g → R g) :
    Accounts R x := by
  intro f hf
  rcases h f hf with reported | ⟨g, rfl, hg⟩
  · exact .inl reported
  · exact .inr ⟨g, rfl, wider g hg⟩

/-- A computation whose faults are of the kind is accounted for. -/
theorem mapError {α : Type} {x : Except Fault α} (h : FailsOnly Q x) :
    Accounts Q (x.mapError .fault) :=
  FailsOnly.mapError fun g hg ↦ .inr ⟨g, rfl, h g hg⟩

/-- A note is accounted for if the faults of its message are of the kind. -/
theorem note (level : LogLevel) (logger : String) {message : Except Fault String}
    (h : FailsOnly Q message) : Accounts Q (Traced.note level logger message).result :=
  FailsOnly.note level logger fun g hg ↦ .inr ⟨g, rfl, h g hg⟩

/-- An error of a schema is reported, unless something that it shows cannot be. -/
theorem raise {α : Type} {e : SchemaError} (ofSchema : e.IsOfSchema)
    (shown : ∀ v ∈ e.shown, ∀ g, v.display = .error g → Q g) :
    Accounts Q (e.raise : Except Failure α) := by
  refine .error ?_
  unfold SchemaError.failure
  split
  · next text h => exact .inl ⟨⟨e, text, h⟩, rfl, ofSchema⟩
  · next g h =>
    obtain ⟨v, hv, hd⟩ := e.shows_message g h
    exact .inr ⟨g, rfl, shown v hv g hd⟩

/-- An error that shows texts and what is mentioned is reported, unless the latter cannot be
shown. -/
theorem raise_mentions {α : Type} {e : SchemaError} (ofSchema : e.IsOfSchema)
    (shown : ∀ v ∈ e.shown, v.IsText ∨ Mentions entities v) :
    Accounts (Misnames entities) (e.raise : Except Failure α) := by
  refine raise ofSchema fun v hv g hg ↦ ?_
  rcases shown v hv with text | mentioned
  · obtain ⟨s, hs⟩ := text.exists_display
    cases hs.symm.trans hg
  · exact .shown mentioned hg

/-- The check that what is mentioned can be a key is accounted for. -/
theorem checkKey {v : Value} (hv : Mentions entities v) :
    Accounts (Misnames entities) (v.checkKey.mapError .fault) :=
  mapError fun _ hg ↦ .key hv hg

end Accounts

/-- What is mentioned fails to be shown with its fault. -/
theorem Mentions.display {v : Value} (hv : Mentions entities v) :
    FailsOnly (Misnames entities) v.display :=
  fun _ hg ↦ .shown hv hg

/-- A key of what is mentioned. -/
structure Key.IsMentioned (entities : List EntityDecl) (k : Key) : Prop where
  entity : Mentions entities k.entity
  name : Mentions entities k.name

/-- The text of a key fails with the faults of what is mentioned. -/
theorem Key.IsMentioned.text {k : Key} (h : k.IsMentioned entities) :
    FailsOnly (Misnames entities) k.text :=
  h.entity.display.bind fun _ _ ↦ h.name.display.bind fun _ _ ↦ .ok _

/-! ### Names and attributes -/

/-- The check of entity names that are mentioned is accounted for. -/
theorem accounts_checkDistinct (names seen : List Value) (h : ∀ n ∈ names, Mentions entities n) :
    Accounts (Misnames entities) (checkDistinct .duplicateEntity seen names) := by
  induction names generalizing seen with
  | nil => exact .ok ()
  | cons n ns ih =>
    obtain ⟨hn, hns⟩ := List.forall_mem_cons.mp h
    refine (Accounts.checkKey hn).bind fun _ _ ↦ ?_
    split
    · exact (Accounts.raise_mentions (e := .duplicateEntity n) trivial (by
        simp [SchemaError.shown, hn])).bind fun _ _ ↦ ih (seen ++ [n]) hns
    · exact ih (seen ++ [n]) hns

namespace Schema

/-- An attribute fails with the faults of what is mentioned, or those of copying its default that
are not answered for. -/
theorem accounts_attributeOf {e : EntityDecl} (he : e ∈ entities) {a : AttributeDecl}
    (ha : a ∈ e.attributes) :
    Accounts (fun g ↦ Misnames entities g ∨ a.EscapesCopy host e.name g)
      (attributeOf host e.name a) := by
  unfold attributeOf
  split
  · exact .ok _
  · next g failed =>
    split
    · have ofSchema : (SchemaError.uncopyableDefault e.name a.name g.message).IsOfSchema := trivial
      exact (Accounts.raise_mentions ofSchema (by
        simp [SchemaError.shown, Mentions.entity he, Mentions.property he ha])).mono fun _ ↦ .inl
    · next unanswered =>
      simp only [Bool.or_eq_true, decide_eq_true_eq, not_or] at unanswered
      exact .error (.inr ⟨g, rfl, .inr ⟨failed, unanswered.1, unanswered.2⟩⟩)

/-- The check of uniqueness constraints is accounted for. -/
theorem accounts_checkUnique {e : EntityDecl} (he : e ∈ entities) (names : List Value)
    (h : ∀ n ∈ names, n ∈ e.unique) : Accounts (Misnames entities) (checkUnique e names) := by
  induction names with
  | nil => exact .ok ()
  | cons n ns ih =>
    obtain ⟨hn, hns⟩ := List.forall_mem_cons.mp h
    refine (Accounts.checkKey (.unique he hn)).bind fun _ _ ↦ ?_
    split
    · exact ih hns
    · exact Accounts.raise_mentions trivial
        (by simp [SchemaError.shown, Mentions.entity he, Mentions.unique he hn])

private theorem accounts_skeleton {e : EntityDecl} (he : e ∈ entities) :
    Accounts (fun g ↦ Misnames entities g ∨ ∃ a ∈ e.attributes, a.EscapesCopy host e.name g)
      (skeleton host e) :=
  (FailsOnly.mapM fun a ha ↦ (accounts_attributeOf he ha).mono
      fun _ ↦ .imp_right fun h ↦ ⟨a, ha, h⟩).bind fun _ _ ↦
    ((accounts_checkUnique he e.unique fun _ hn ↦ hn).mono fun _ ↦ .inl).bind fun _ _ ↦ .ok _

end Schema

/-! ### Links -/

/-- What is found under a key is the value of an entry. -/
theorem Key.exists_of_find? {α : Type} {k : Key} {es : List (Key × α)} {a : α}
    (h : k.find? es = some a) : ∃ e ∈ es, e.2 = a := by
  obtain ⟨e, he, rfl⟩ := Option.map_eq_some_iff.mp h
  exact ⟨e, List.mem_of_find?_eq_some he, rfl⟩

namespace Links

/-- Links that lead to declared entities and hold nothing but what is mentioned. -/
structure IsMentioned (entities : List EntityDecl) (l : Links) : Prop where
  destination : ∀ d ∈ l.destinations, Mentions entities d.2 ∧
    ∃ e, EntityDecl.find? entities d.2 = some e
  inverse : ∀ i ∈ l.inverses, i.2.IsMentioned entities

variable {l : Links}

private theorem isMentioned_none : none.IsMentioned entities := ⟨by simp [none], by simp [none]⟩

/-- An inverse in such links is mentioned. -/
theorem IsMentioned.of_inverse? (h : l.IsMentioned entities) {k i : Key}
    (hi : l.inverse? k = some i) : i.IsMentioned entities := by
  obtain ⟨e, he, rfl⟩ := Key.exists_of_find? hi
  exact h.inverse e he

private theorem IsMentioned.of_destination? (h : l.IsMentioned entities) {k : Key} {d : Value}
    (hd : l.destination? k = some d) :
    Mentions entities d ∧ ∃ e, EntityDecl.find? entities d = some e := by
  obtain ⟨e, he, rfl⟩ := Key.exists_of_find? hd
  exact h.destination e he

/-- A destination that is mentioned and declared may be added. -/
theorem IsMentioned.direct (h : l.IsMentioned entities) (k : Key) {d : Value}
    (hd : Mentions entities d) {e : EntityDecl} (he : EntityDecl.find? entities d = some e) :
    (l.direct k d).IsMentioned entities :=
  ⟨List.forall_mem_cons.mpr ⟨⟨hd, e, he⟩, h.destination⟩, h.inverse⟩

private theorem IsMentioned.join (h : l.IsMentioned entities) {k i : Key}
    (hk : k.IsMentioned entities)
    (hi : i.IsMentioned entities) : (l.join k i).IsMentioned entities :=
  ⟨h.destination, List.forall_mem_cons.mpr ⟨hk, List.forall_mem_cons.mpr ⟨hi, h.inverse⟩⟩⟩

private theorem accounts_checkFree (h : l.IsMentioned entities) {k i : Key}
    (hk : k.IsMentioned entities)
    (hi : i.IsMentioned entities) : Accounts (Misnames entities) (l.checkFree k i) := by
  unfold checkFree
  split
  · exact .ok ()
  · next existing found =>
    split
    · exact .ok ()
    · refine (Accounts.mapError (h.of_inverse? found).text).bind fun linked _ ↦
        (Accounts.mapError hi.text).bind fun wanted _ ↦ Accounts.raise_mentions trivial ?_
      simp only [SchemaError.shown, List.forall_mem_cons]
      exact ⟨.inr hk.entity, .inr hk.name, .inl ⟨_, rfl⟩, .inl ⟨_, rfl⟩, by simp⟩

private theorem accounts_join? (h : l.IsMentioned entities) {k i : Key}
    (hk : k.IsMentioned entities)
    (hi : i.IsMentioned entities) : Accounts (Misnames entities) (l.join? k i) :=
  (accounts_checkFree h hk hi).bind fun _ _ ↦ (accounts_checkFree h hi hk).bind fun _ _ ↦ .ok _

private theorem accounts_resolvedText {k : Key} (hk : k.IsMentioned entities) {d : Value}
    (hd : Mentions entities d) (inverse : Option Key)
    (hi : ∀ i, inverse = some i → i.IsMentioned entities) :
    FailsOnly (Misnames entities) (resolvedText k d inverse) := by
  refine hk.text.bind fun _ _ ↦ hd.display.bind fun _ _ ↦ ?_
  cases inverse with
  | none => exact FailsOnly.bind (.ok "") fun _ _ ↦ .ok _
  | some i => exact ((hi i rfl).text.map _).bind fun _ _ ↦ .ok _

/-- A relationship of a declared entity is mentioned. -/
theorem isMentioned_of_find? {d : EntityDecl} {v w : Value} {i : RelationshipDecl}
    (hd : EntityDecl.find? entities v = some d) (hi : d.member? w = some i) :
    Key.IsMentioned entities ⟨d.name, i.name⟩ :=
  ⟨.entity (List.mem_of_find?_eq_some hd),
    .relationship (List.mem_of_find?_eq_some hd) (List.mem_of_find?_eq_some hi)⟩

/-- A step of linking is accounted for. -/
private theorem accounts_visit (h : l.IsMentioned entities) {e : EntityDecl} (he : e ∈ entities)
    {r : RelationshipDecl} (hr : r ∈ e.relationships) :
    Accounts (Misnames entities) (visit entities l e r).result := by
  have hk : Key.IsMentioned entities ⟨e.name, r.name⟩ := ⟨.entity he, .relationship he hr⟩
  have hd : Mentions entities r.destination := .destination he hr
  have hi : Mentions entities r.inverse := .inverse he hr
  refine (Accounts.checkKey hd).result_bind (t := liftM _) fun _ _ ↦ ?_
  split
  · refine Accounts.raise_mentions trivial ?_
    simp [SchemaError.shown, hk.entity, hk.name, hd]
  · next d found =>
    have directed := h.direct ⟨e.name, r.name⟩ hd found
    split
    · exact (Accounts.note _ _ (accounts_resolvedText hk hd Option.none nofun)).result_bind
        fun _ _ ↦ .ok _
    · refine (Accounts.checkKey hi).result_bind (t := liftM _) fun _ _ ↦ ?_
      split
      · refine Accounts.raise_mentions trivial ?_
        simp [SchemaError.shown, hk.entity, hk.name, hi, hd]
      · next i member =>
        have hp := isMentioned_of_find? found member
        have partner : ∀ j, some (Key.mk d.name i.name) = some j → j.IsMentioned entities := by
          intro j hj
          exact Option.some.inj hj ▸ hp
        exact (accounts_join? directed hk hp).result_bind (t := liftM _) fun _ _ ↦
          (Accounts.note _ _ (accounts_resolvedText hk hd _ partner)).result_bind fun _ _ ↦ .ok _

/-- A step of linking leads to links of what is mentioned. -/
private theorem IsMentioned.visit (h : l.IsMentioned entities) {e : EntityDecl} (he : e ∈ entities)
    {r : RelationshipDecl} (hr : r ∈ e.relationships) {l' : Links}
    (hl' : (Links.visit entities l e r).result = .ok l') : l'.IsMentioned entities := by
  simp only [Links.visit, Traced.result_bind_eq_ok] at hl'
  obtain ⟨-, -, hl'⟩ := hl'
  split at hl'
  · cases hl'
  · next d found =>
    have directed := h.direct ⟨e.name, r.name⟩ (.destination he hr) found
    split at hl'
    · obtain ⟨-, -, hl'⟩ := (Traced.result_bind_eq_ok _ _ _).mp hl'
      obtain rfl := Except.ok.inj hl'
      exact directed
    · obtain ⟨-, -, hl'⟩ := (Traced.result_bind_eq_ok _ _ _).mp hl'
      split at hl'
      · cases hl'
      · next i member =>
        obtain ⟨l₁, joined, hl'⟩ := (Traced.result_bind_eq_ok _ _ _).mp hl'
        obtain ⟨-, -, hl'⟩ := (Traced.result_bind_eq_ok _ _ _).mp hl'
        obtain rfl := Except.ok.inj hl'
        obtain ⟨-, -, rfl⟩ := (join?_eq_ok _ _ _ _).mp joined
        exact directed.join ⟨.entity he, .relationship he hr⟩ (isMentioned_of_find? found member)

/-- Linking is accounted for, and gives links of what is mentioned. -/
theorem accounts_ofEntities (entities : List EntityDecl) :
    Accounts (Misnames entities) (ofEntities entities).result ∧
      ∀ l, (ofEntities entities).result = .ok l → l.IsMentioned entities := by
  rw [ofEntities, Traced.result_foldlM]
  refine FailsOnly.foldlM (IsMentioned entities) (fun p hp l hl ↦ ?_) isMentioned_none
  obtain ⟨he, hr⟩ := (mem_declared entities p).mp hp
  exact ⟨accounts_visit hl he hr, fun _ ↦ hl.visit he hr⟩

end Links

/-! ### The graph -/

/-- A relationship that leads to a declared entity and holds nothing but what is mentioned. -/
structure Relationship.IsMentioned (entities : List EntityDecl) (r : Relationship) : Prop where
  key : r.key.IsMentioned entities
  destination : Mentions entities r.destination
  declared : ∃ e, EntityDecl.find? entities r.destination = some e
  inverse : ∀ k, r.inverse = some k → k.IsMentioned entities

/-- An attribute that is declared, with the default that it has on a host. -/
def Attribute.IsDeclared (host : Host) (entities : List EntityDecl) (a : Attribute) : Prop :=
  ∃ e ∈ entities, ∃ d ∈ e.attributes, d.compiled host e.name = a

/-- A graph of the entities that are declared, of what is mentioned. -/
structure Graph.IsMentioned (host : Host) (entities : List EntityDecl) (g : Graph) : Prop where
  names : g.entities.map (·.name) = entities.map (·.name)
  boundTypes : ∀ e ∈ g.entities, e.boundType.IsText ∨ ∃ d ∈ entities, d.boundType = e.boundType
  unique : ∀ e ∈ g.entities, ∀ n ∈ e.unique, Mentions entities n
  attributes : ∀ e ∈ g.entities, ∀ a ∈ e.attributes, a.IsDeclared host entities
  relationships : ∀ r ∈ g.relationships, r.IsMentioned entities

namespace Schema

private theorem accounts_entityOf (config : CompilerConfig) (l : Links) {e : EntityDecl}
    (he : e ∈ entities) (attributes : List Attribute) :
    Accounts (Misnames entities) (entityOf config l e attributes) := by
  refine (FailsOnly.mapM fun r hr ↦ ?_).bind fun _ _ ↦ .ok _
  unfold Draft.freeze
  split
  · refine Accounts.raise_mentions trivial ?_
    simp [SchemaError.shown, Draft.ofLinks, Mentions.entity he, Mentions.relationship he hr]
  · exact .ok _

/-- An entity is made of a declaration and attributes: it keeps the name and the constraints, and is
bound to what is declared or to what the configuration says. -/
structure IsMadeOf (config : CompilerConfig) (e : EntityDecl) (attributes : List Attribute)
    (f : Entity) : Prop where
  name : f.name = e.name
  attributes : f.attributes = attributes
  unique : f.unique = e.unique
  boundType : f.boundType = e.boundType.orElse (.text config.defaultBoundType)

/-- An entity is made of what it is given. -/
theorem of_entityOf {config : CompilerConfig} {l : Links} {e : EntityDecl}
    {attributes : List Attribute} {f : Entity} (hf : entityOf config l e attributes = .ok f) :
    IsMadeOf config e attributes f := by
  obtain ⟨relationships, -, hf⟩ := (Success.bind_eq_ok _ _ _).mp hf
  obtain rfl := Except.ok.inj hf
  exact ⟨rfl, rfl, rfl, rfl⟩

private theorem isMentioned_of_entityOf {config : CompilerConfig} {l : Links}
    (h : l.IsMentioned entities) {e : EntityDecl} (he : e ∈ entities)
    {attributes : List Attribute} {f : Entity} (hf : entityOf config l e attributes = .ok f) :
    ∀ r ∈ f.relationships, r.IsMentioned entities := by
  obtain ⟨relationships, frozen, hf⟩ := (Success.bind_eq_ok _ _ _).mp hf
  obtain rfl := Except.ok.inj hf
  intro s hs
  obtain ⟨r, hr, hs⟩ := Success.exists_of_mem_mapM frozen hs
  unfold Draft.freeze at hs
  split at hs
  · cases hs
  · next d hd =>
    obtain rfl := Except.ok.inj hs
    obtain ⟨mentioned, declared⟩ := h.of_destination? hd
    exact ⟨⟨.entity he, .relationship he hr⟩, mentioned, declared, fun k hk ↦ h.of_inverse? hk⟩

/-- An entity whose skeleton is made has the attributes that are declared, and their defaults are
copied. -/
theorem of_skeleton {e : EntityDecl} {x : EntityDecl × List Attribute}
    (h : skeleton host e = .ok x) :
    (∀ a ∈ e.attributes, a.IsCopied) ∧ (e, e.attributes.map (·.compiled host e.name)) = x := by
  obtain ⟨attributes, made, h⟩ := (Success.bind_eq_ok _ _ _).mp h
  obtain ⟨-, -, h⟩ := (Success.bind_eq_ok _ _ _).mp h
  obtain rfl := Except.ok.inj h
  obtain ⟨copied, rfl⟩ := (Success.mapM_eq_ok_map (attributeOf host e.name) AttributeDecl.IsCopied
    (·.compiled host e.name) e.attributes (fun a _ ↦ attributeOf_eq_ok e.name a) attributes).mp made
  exact ⟨copied, rfl⟩

/-- The graph of the declarations under links of what is mentioned is one of what is mentioned. -/
theorem isMentioned_graph (name version : Value)
    {skeletons : List (EntityDecl × List Attribute)}
    (made : entities.mapM (skeleton host) = .ok skeletons) {l : Links}
    (h : l.IsMentioned entities) {config : CompilerConfig} {fs : List Entity}
    (resolved : skeletons.mapM (fun x ↦ entityOf config l x.1 x.2) = .ok fs) :
    Graph.IsMentioned host entities ⟨name, version, fs⟩ := by
  have parts : ∀ x ∈ skeletons, x.1 ∈ entities ∧ ∀ b ∈ x.2, b.IsDeclared host entities := by
    intro x hx
    obtain ⟨e, he, hx⟩ := Success.exists_of_mem_mapM made hx
    obtain ⟨-, rfl⟩ := of_skeleton hx
    exact ⟨he, fun b hb ↦ ⟨e, he, List.mem_map.mp hb⟩⟩
  have origin : ∀ f ∈ fs, ∃ x ∈ skeletons, entityOf config l x.1 x.2 = .ok f :=
    fun f hf ↦ Success.exists_of_mem_mapM resolved hf
  refine ⟨?_, fun f hf ↦ ?_, fun f hf n hn ↦ ?_, fun f hf a ha ↦ ?_, fun r hr ↦ ?_⟩
  · have first := Success.map_eq_of_forall₂ (f := (·.name)) (g := fun x ↦ x.1.name)
      ((Success.mapM_eq_ok _ _ _).mp made) fun e x hx ↦ by rw [← (of_skeleton hx).2]
    rw [← first]
    exact Success.map_eq_of_forall₂ ((Success.mapM_eq_ok _ _ _).mp resolved)
      fun x f hf ↦ (of_entityOf hf).name
  · obtain ⟨x, hx, hf⟩ := origin f hf
    rw [(of_entityOf hf).boundType, Value.orElse]
    split
    · exact .inr ⟨x.1, (parts x hx).1, rfl⟩
    · exact .inl ⟨_, rfl⟩
  · obtain ⟨x, hx, hf⟩ := origin f hf
    exact .unique (parts x hx).1 ((of_entityOf hf).unique ▸ hn)
  · obtain ⟨x, hx, hf⟩ := origin f hf
    exact (parts x hx).2 a ((of_entityOf hf).attributes ▸ ha)
  · obtain ⟨f, hf, hr⟩ := List.mem_flatMap.mp hr
    obtain ⟨x, hx, hf⟩ := origin f hf
    exact isMentioned_of_entityOf h (parts x hx).1 hf r hr

end Schema

/-! ### The view -/

private theorem Json.isKeptByForms_hasTextKeys : Value.IsKeptByForms (fun _ ↦ True) HasTextKeys :=
  ⟨fun _ _ _ _ ↦ trivial, fun _ ↦ trivial, fun _ ↦ trivial, fun _ texts _ ↦ texts⟩

/-- The encoded form of a default is an atom, unless its type is opaque. -/
private theorem ScalarType.isAtom_encode {type : ScalarType} {name v code : Value}
    (typed : type.checkDefault name v = .ok ()) (shown : type.isOpaque = false)
    (h : type.encode v = .ok code) : code.isAtom = true := by
  unfold encode at h
  split at h
  · exact Except.ok.inj h ▸ rfl
  · next present =>
    have admitted := admits_of_checkDefault typed (by simpa using present)
    have atom : v.isAtom = true := by
      cases v with
      | atom id a => rfl
      | _ => cases shown.symm.trans admitted
    split at h
    · exact Except.ok.inj h ▸ rfl
    · exact Except.ok.inj h ▸ rfl
    · cases h
    · obtain ⟨content, -, rfl⟩ := (Success.map_eq_ok _ _ _).mp h
      rfl
    · obtain ⟨t, -, rfl⟩ := (Success.map_eq_ok _ _ _).mp h
      rfl
    · obtain ⟨t, -, rfl⟩ := (Success.map_eq_ok _ _ _).mp h
      rfl
    · exact Except.ok.inj h ▸ atom

private theorem AttributeDecl.every_hasTextKeys (a : AttributeDecl) {entity form : Value}
    (h : a.type.viewOf (a.copied host entity) = .ok form) : form.Every Json.HasTextKeys := by
  rw [ScalarType.viewOf] at h
  split at h
  · exact Value.every_form_of_canonical Json.isKeptByForms_hasTextKeys
      (Value.every_of_forall (fun _ ↦ trivial) _) h
  · next shown =>
    have shown : a.type.isOpaque = false := by simpa using shown
    rw [copied_of_typed shown] at h
    have atom := ScalarType.isAtom_encode a.typed shown h
    cases form with
    | atom => trivial
    | _ => cases atom

/-- What is written, without spaces and with sorted keys, fails with a fault that is answered for,
or that comes from writing what is declared. -/
abbrev WrittenFrom (entities : List EntityDecl) (name version v : Value) : Prop :=
  FailsOnly (fun f ↦ Schema.isUnserializable f = true ∨
    ∃ w, Writes entities name version w ∧ Json.text .compact w = .error f) (Json.text .compact v)

namespace WrittenFrom

/-- What is declared is written from there. -/
theorem writes {v : Value} (hv : Writes entities name version v) :
    WrittenFrom entities name version v :=
  fun _ hf ↦ .inr ⟨v, hv, hf⟩

/-- What is mentioned is written from there. -/
theorem mentions {v : Value} (hv : Mentions entities v) : WrittenFrom entities name version v :=
  writes (.mention hv)

/-- A value whose keys are texts is written with faults that are answered for. -/
theorem textKeys {v : Value} (keys : v.Every Json.HasTextKeys) :
    WrittenFrom entities name version v := by
  intro f hf
  rcases Json.failsOnly_write rfl 0 keys f hf with kind | kind <;>
    exact .inl (by simp [Schema.isUnserializable, kind])

/-- A text is written. -/
theorem text (s : String) : WrittenFrom entities name version (.text s) := textKeys trivial

end WrittenFrom

section View

open WrittenFrom

private theorem Attribute.IsDeclared.written {a : Attribute} (h : a.IsDeclared host entities)
    {v : Value} (hv : a.view = .ok v) : WrittenFrom entities name version v := by
  obtain ⟨e, he, d, hd, rfl⟩ := h
  obtain ⟨form, hform, hv⟩ := (Success.bind_eq_ok _ _ _).mp hv
  obtain rfl := Except.ok.inj hv
  refine Json.failsOnly_text_record ?_
  simp only [List.forall_mem_cons, List.not_mem_nil, false_implies, implies_true, and_true]
  exact ⟨text _, mentions (.property he hd), text _, textKeys trivial,
    textKeys (d.every_hasTextKeys hform), textKeys trivial, textKeys trivial⟩

private theorem Relationship.IsMentioned.written {r : Relationship} (h : r.IsMentioned entities) :
    WrittenFrom entities name version r.view := by
  refine Json.failsOnly_text_record (List.forall_mem_append.mpr ⟨?_, ?_⟩)
  · simp only [List.forall_mem_cons, List.not_mem_nil, false_implies, implies_true, and_true]
    exact ⟨text _, mentions h.key.name, mentions h.destination, textKeys trivial,
      textKeys trivial, text _⟩
  · cases hr : r.inverse with
    | none => exact List.forall_mem_nil _
    | some k => exact List.forall_mem_singleton.mpr (mentions (h.inverse k hr).name)

/-- The view of an entity in a graph of what is mentioned is written from there. -/
private theorem Graph.IsMentioned.written_entity {g : Graph} (h : g.IsMentioned host entities)
    {e : Entity} (he : e ∈ g.entities) {v : Value} (hv : e.view = .ok v) :
    WrittenFrom entities name version v := by
  obtain ⟨as, has, hv⟩ := (Success.bind_eq_ok _ _ _).mp hv
  obtain rfl := Except.ok.inj hv
  have named : e.name ∈ entities.map (·.name) := h.names ▸ List.mem_map_of_mem he
  obtain ⟨d, hd, hname⟩ := List.mem_map.mp named
  have properties :
      WrittenFrom entities name version (.list (as ++ e.relationships.map (·.view))) := by
    refine Json.failsOnly_text_list (List.forall_mem_append.mpr ⟨fun v hv ↦ ?_, ?_⟩)
    · obtain ⟨a, ha, hv⟩ := Success.exists_of_mem_mapM has hv
      exact (h.attributes e he a ha).written hv
    · exact List.forall_mem_map.mpr fun r hr ↦
        (h.relationships r (List.mem_flatMap.mpr ⟨e, he, hr⟩)).written
  have bound : WrittenFrom entities name version e.boundType := by
    rcases h.boundTypes e he with ⟨s, hs⟩ | ⟨d, hd, same⟩
    · exact hs ▸ text s
    · exact same ▸ writes (.boundType hd)
  refine Json.failsOnly_text_record (List.forall_mem_append.mpr ⟨?_, ?_⟩)
  · simp only [List.forall_mem_cons, List.not_mem_nil, false_implies, implies_true, and_true]
    exact ⟨hname ▸ mentions (.entity hd), textKeys trivial, bound, properties⟩
  · split
    · exact List.forall_mem_nil _
    · exact List.forall_mem_singleton.mpr
        (Json.failsOnly_text_list fun n hn ↦ mentions (h.unique e he n hn))

/-- The views of the entities in a graph of what is mentioned are written from there. -/
theorem Graph.IsMentioned.written_entities {g : Graph} (h : g.IsMentioned host entities)
    {vs : List Value} (hvs : g.entities.mapM (·.view) = .ok vs) :
    WrittenFrom entities name version (.list vs) := by
  refine Json.failsOnly_text_list fun v hv ↦ ?_
  obtain ⟨e, he, hv⟩ := Success.exists_of_mem_mapM hvs hv
  exact h.written_entity he hv

private theorem Graph.IsMentioned.written {g : Graph} (h : g.IsMentioned host entities) {v : Value}
    (hv : g.view = .ok v) : WrittenFrom entities g.name g.version v := by
  obtain ⟨vs, hvs, hv⟩ := (Success.bind_eq_ok _ _ _).mp hv
  obtain rfl := Except.ok.inj hv
  refine Json.failsOnly_text_record ?_
  simp only [List.forall_mem_cons, List.not_mem_nil, false_implies, implies_true, and_true]
  exact ⟨writes .name, writes .version, h.written_entities hvs⟩

private theorem Graph.IsMentioned.failsOnly_view {g : Graph} (h : g.IsMentioned host entities) :
    FailsOnly (fun f ↦ ∃ e ∈ entities, ∃ a ∈ e.attributes,
      a.type.viewOf (a.copied host e.name) = .error f) g.view := by
  refine (FailsOnly.mapM fun e he ↦ (FailsOnly.mapM fun a ha ↦ FailsOnly.bind
    (fun f hf ↦ ?_) fun _ _ ↦ .ok _).bind fun _ _ ↦ .ok _).bind fun _ _ ↦ .ok _
  obtain ⟨e', he', d, hd, rfl⟩ := h.attributes e he a ha
  exact ⟨e', he', d, hd, hf⟩

end View

namespace Schema

/-- A graph fails with the faults of showing its name, or with those of the forms of its defaults or
of writing what is declared that are not answered for. -/
private theorem accounts_ofGraph? {g : Graph} (h : g.IsMentioned host entities) :
    Accounts (fun f ↦ g.name.display = .error f ∨
      (∃ e ∈ entities, ∃ a ∈ e.attributes, a.EscapesForm host e.name f) ∨
      ∃ v, Writes entities g.name g.version v ∧ v.EscapesText f) (ofGraph? host g) := by
  unfold ofGraph?
  split
  · exact .ok _
  · next f hf =>
    split
    · refine Accounts.raise trivial fun v hv t ht ↦ .inl ?_
      obtain rfl := List.mem_singleton.mp hv
      exact ht
    · next unanswered =>
      have unanswered : isUnserializable f = false := by simpa using unanswered
      have failed := (ofGraph_eq_error g f).mp hf
      rw [Graph.fingerprint] at failed
      cases hv : g.view with
      | error t =>
        rw [hv] at failed
        obtain rfl := Except.error.inj failed
        obtain ⟨e, he, a, ha, form⟩ := h.failsOnly_view t hv
        exact .error (.inr ⟨t, rfl, .inr (.inl ⟨e, he, a, ha, form, unanswered⟩)⟩)
      | ok v =>
        rw [hv] at failed
        have written : FailsOnly _ (Graph.fingerprintOf v) :=
          (h.written hv).bind fun _ _ ↦ .ok _
        rcases written f failed with answered | ⟨w, hw, text⟩
        · cases unanswered.symm.trans answered
        · exact .error (.inr ⟨f, rfl, .inr (.inr ⟨w, hw, text, unanswered⟩)⟩)

end Schema

/-! ### Findings -/

/-- A finding about relationships of what is mentioned. -/
def Finding.IsMentioned (entities : List EntityDecl) : Finding → Prop
  | strayInverse r s | unlinkedPair r s => r.IsMentioned entities ∧ s.IsMentioned entities

private theorem Finding.IsMentioned.message {f : Finding} (h : f.IsMentioned entities) :
    FailsOnly (Misnames entities) f.message := by
  cases f with
  | strayInverse r s =>
    exact h.1.key.text.bind fun _ _ ↦ h.2.key.text.bind fun _ _ ↦
      h.2.destination.display.bind fun _ _ ↦ h.1.key.entity.display.bind fun _ _ ↦ .ok _
  | unlinkedPair r s => exact h.1.key.text.bind fun _ _ ↦ h.2.key.text.bind fun _ _ ↦ .ok _

namespace Graph

variable {g : Graph}

/-- An entity that is looked up is one of the graph. -/
theorem mem_of_entity? {v : Value} {e : Entity} (he : g.entity? v = .ok (some e)) :
    e ∈ g.entities := by
  obtain ⟨-, -, he⟩ := (Success.bind_eq_ok _ _ _).mp he
  exact List.mem_of_find?_eq_some (Except.ok.inj he)

private theorem mem_of_inverseOf {r i : Relationship} (hi : g.inverseOf r = .ok (some i)) :
    i ∈ g.relationships := by
  unfold inverseOf at hi
  split at hi
  · cases hi
  · obtain ⟨e, he, hi⟩ := (Success.bind_eq_ok _ _ _).mp hi
    obtain ⟨e, rfl, found⟩ := Option.bind_eq_some_iff.mp (Except.ok.inj hi)
    exact List.mem_flatMap.mpr ⟨e, mem_of_entity? he, List.mem_of_find?_eq_some found⟩

private theorem mem_of_destinationOf {r : Relationship} {e : Entity}
    (he : g.destinationOf r = .ok e) :
    e ∈ g.entities := by
  obtain ⟨found, hfound, he⟩ := (Success.bind_eq_ok _ _ _).mp he
  cases found with
  | some d =>
    obtain rfl := Except.ok.inj he
    exact mem_of_entity? hfound
  | none =>
    obtain ⟨shown, -, missing⟩ := (Success.bind_eq_ok r.destination.inspect _ _).mp he
    exact absurd missing nofun

/-- The entity of a name that is mentioned is looked up, unless the name cannot be a key. -/
theorem failsOnly_entity? {v : Value} (hv : Mentions entities v) :
    FailsOnly (Misnames entities) (g.entity? v) :=
  FailsOnly.bind (fun _ ht ↦ .key hv ht) fun _ _ ↦ .ok _

private theorem failsOnly_inverseOf {r : Relationship} (hr : r.IsMentioned entities) :
    FailsOnly (Misnames entities) (g.inverseOf r) := by
  unfold inverseOf
  split
  · exact .ok _
  · next k hk => exact (failsOnly_entity? (hr.inverse k hk).entity).bind fun _ _ ↦ .ok _

namespace IsMentioned

variable (h : g.IsMentioned host entities)

include h

private theorem find?_name (v : Value) :
    (g.find? v).map (·.name) = (EntityDecl.find? entities v).map (·.name) := by
  have found := congrArg (List.find? (·.same v)) h.names
  rwa [List.find?_map, List.find?_map] at found

private theorem failsOnly_destinationOf {r : Relationship} (hr : r.IsMentioned entities) :
    FailsOnly (Misnames entities) (g.destinationOf r) := by
  refine (failsOnly_entity? hr.destination).bind fun found hfound ↦ ?_
  obtain ⟨-, -, hfound⟩ := (Success.bind_eq_ok _ _ _).mp hfound
  obtain rfl := Except.ok.inj hfound
  obtain ⟨e, he⟩ := hr.declared
  have hname := h.find?_name r.destination
  rw [he] at hname
  obtain ⟨f, hf, -⟩ := Option.map_eq_some_iff.mp hname
  rw [hf]
  exact .ok f

private theorem failsOnly_visit {r : Relationship} (hr : r ∈ g.relationships) (s : Survey) :
    FailsOnly (Misnames entities) (Survey.visit g s r) := by
  refine (failsOnly_inverseOf (h.relationships r hr)).bind fun inverse _ ↦ ?_
  split
  · split
    · exact .ok s
    · split <;> exact .ok _
  · split
    · exact .ok s
    · refine (h.failsOnly_destinationOf (h.relationships r hr)).bind fun d _ ↦ ?_
      split <;> exact .ok _

/-- A step of the survey adds findings of what is mentioned. -/
private theorem findings_of_visit {r : Relationship} (hr : r ∈ g.relationships) {s s' : Survey}
    (hs : ∀ f ∈ s.findings, f.IsMentioned entities) (hs' : Survey.visit g s r = .ok s') :
    ∀ f ∈ s'.findings, f.IsMentioned entities := by
  have added : ∀ f : Finding, f.IsMentioned entities →
      ∀ f' ∈ s.findings ++ [f], f'.IsMentioned entities := by
    intro f hf
    exact List.forall_mem_append.mpr ⟨hs, List.forall_mem_singleton.mpr hf⟩
  obtain ⟨inverse, hi, hs'⟩ := (Success.bind_eq_ok _ _ _).mp hs'
  split at hs'
  · next i =>
    split at hs'
    · obtain rfl := Except.ok.inj hs'
      exact hs
    · split at hs'
      · obtain rfl := Except.ok.inj hs'
        exact hs
      · obtain rfl := Except.ok.inj hs'
        exact added _ ⟨h.relationships r hr, h.relationships i (mem_of_inverseOf hi)⟩
  · split at hs'
    · obtain rfl := Except.ok.inj hs'
      exact hs
    · obtain ⟨d, hd, hs'⟩ := (Success.bind_eq_ok _ _ _).mp hs'
      split at hs'
      · next other found =>
        obtain rfl := Except.ok.inj hs'
        have ho : other ∈ g.relationships :=
          List.mem_flatMap.mpr ⟨d, mem_of_destinationOf hd, List.mem_of_find?_eq_some found⟩
        exact added _ ⟨h.relationships r hr, h.relationships other ho⟩
      · obtain rfl := Except.ok.inj hs'
        exact hs

private theorem failsOnly_validate : FailsOnly (Misnames entities) g.validate := by
  have surveyed := FailsOnly.foldlM (P := Misnames entities) (f := Survey.visit g)
    (b := ⟨[], []⟩) (fun s : Survey ↦ ∀ f ∈ s.findings, f.IsMentioned entities)
    (fun r hr s hs ↦ ⟨h.failsOnly_visit hr s, fun _ ↦ h.findings_of_visit hr hs⟩) (by simp)
  refine (surveyed.1.map _).bind fun findings hf ↦ FailsOnly.mapM fun f hm ↦ ?_
  obtain ⟨s, hs, rfl⟩ := (Success.map_eq_ok _ _ _).mp hf
  exact (surveyed.2 s hs f hm).message

end IsMentioned

end Graph

/-! ### Compilation -/

namespace Schema

private theorem accounts_report (config : CompilerConfig) (name : Value) (findings : List String) :
    Accounts (fun g ↦ name.display = .error g) (report config name findings).result := by
  refine (FailsOnly.forM fun f _ ↦ Accounts.note _ _ ?_).result_bind fun _ _ ↦ ?_
  · exact FailsOnly.bind (fun _ ↦ id) fun _ _ ↦ .ok _
  · split
    · refine Accounts.raise trivial fun v hv t ht ↦ ?_
      obtain rfl := List.mem_singleton.mp hv
      exact ht
    · exact .ok ()

/-- What is left to do once there is a schema fails with the faults of what is mentioned, or those
of showing the name and the version. -/
theorem accounts_rest {fs : List Entity} (h : Graph.IsMentioned host entities ⟨name, version, fs⟩)
    (config : CompilerConfig) {s : Schema} (hs : s.graph = ⟨name, version, fs⟩) :
    Accounts (fun g ↦ Misnames entities g ∨ name.display = .error g ∨ version.display = .error g)
      (do
        let findings ← s.graph.validate
        report config name findings
        Traced.note .info Links.logger s.compiledText
        return s : Traced Schema).result := by
  refine ((Accounts.mapError (hs ▸ h.failsOnly_validate)).mono fun _ ↦ .inl).result_bind
    (t := liftM _) fun findings _ ↦ ?_
  refine ((accounts_report config name findings).mono fun _ ↦ .inr ∘ .inl).result_bind fun _ _ ↦ ?_
  refine (Accounts.note _ _ ?_).result_bind fun _ _ ↦ .ok s
  rw [compiledText, hs]
  exact FailsOnly.bind (fun _ ↦ .inr ∘ .inl) fun _ _ ↦
    FailsOnly.bind (fun _ ↦ .inr ∘ .inr) fun _ _ ↦ .ok _

/-- The names of entities are mentioned. -/
theorem mentions_names (entities : List EntityDecl) :
    ∀ n ∈ entities.map (·.name), Mentions entities n := by
  rw [List.forall_mem_map]
  exact fun e he ↦ .entity he

/-- Compilation fails with the report of an error of a schema, or with a fault that comes from what
it is given. -/
private theorem accounts_compile (host : Host) (config : CompilerConfig)
    (entities : List EntityDecl) (name version : Value) :
    Accounts (Provokes host entities name version)
      (compile host config entities name version).result := by
  have names : ∀ g, Misnames entities g → Provokes host entities name version g := fun _ ↦ .names
  refine ((accounts_checkDistinct _ [] (mentions_names entities)).mono names).result_bind
    (t := liftM _) fun _ _ ↦ ?_
  refine (FailsOnly.mapM fun e he ↦ (accounts_skeleton he).mono ?_).result_bind (t := liftM _)
    fun skeletons made ↦ ?_
  · rintro g (h | ⟨a, ha, h⟩)
    · exact .names h
    · exact .copy he ha h
  refine (Accounts.note _ _ (.ok _)).result_bind fun _ _ ↦ ?_
  obtain ⟨linking, linked⟩ := Links.accounts_ofEntities entities
  refine (linking.mono names).result_bind fun l hl ↦ ?_
  have parts : ∀ x ∈ skeletons, x.1 ∈ entities := by
    intro x hx
    obtain ⟨e, he, hx⟩ := Success.exists_of_mem_mapM made hx
    obtain ⟨-, rfl⟩ := of_skeleton hx
    exact he
  refine (FailsOnly.mapM fun x hx ↦ (accounts_entityOf config l (parts x hx) x.2).mono
    names).result_bind (t := liftM _) fun fs resolved ↦ ?_
  have graph := isMentioned_graph name version made (linked l hl) resolved
  refine ((accounts_ofGraph? graph).mono ?_).result_bind (t := liftM _) fun s hs ↦ ?_
  · rintro g (h | ⟨e, he, a, ha, h⟩ | ⟨v, hv, h⟩)
    · exact .name h
    · exact .form he ha h
    · exact .text hv h
  refine (accounts_rest graph config ((ofGraph?_eq_ok _ _).mp hs)).mono ?_
  rintro g (h | h | h)
  · exact .names h
  · exact .name h
  · exact .version h

end Schema

/-- Compiling a model fails with the report of an error of a schema, or with a fault that comes from
what the model is made of. -/
theorem Model.accounts_compile (m : Model) (host : Host) (config : CompilerConfig) :
    Accounts (Provokes host m.entities m.name m.version) (m.compile host config).result := by
  refine (Accounts.note _ _ ?_).result_bind fun _ _ ↦
    Schema.accounts_compile host config m.entities m.name m.version
  exact FailsOnly.bind (fun _ ↦ .name) fun _ _ ↦ FailsOnly.bind (fun _ ↦ .version) fun _ _ ↦ .ok _

end EntityGraph
