import EntityGraph.Proofs.Coherence
import EntityGraph.Proofs.Faults

/-!
# What escapes compilation

Compilation answers for most of what can go wrong with a default, but not for all of it. When
entities are named by texts, it is exactly the first default that is not copied, or else the first
one that has no form, which decides whether compilation fails without a report. No default that
cannot be copied and written is ever accepted.
-/

namespace EntityGraph

open Success (First Fails FailsOnly)

/-- The default that an attribute of an entity has on a host has a form. -/
def AttributeDecl.HasForm (host : Host) (entity : Value) (a : AttributeDecl) : Prop :=
  ∃ v, a.type.viewOf (a.copied host entity) = .ok v

namespace EntityDecl

/-- The defaults of an entity can be copied, and its constraints name attributes. -/
def IsReady (e : EntityDecl) : Prop := (∀ a ∈ e.attributes, a.IsCopied) ∧ e.NamesUnique

/-- The first default of an entity that is not copied fails in a way that is not answered for. -/
def EscapesCopy (host : Host) (e : EntityDecl) : Prop :=
  First AttributeDecl.IsCopied (∃ g, AttributeDecl.EscapesCopy host e.name · g) e.attributes

/-- The first default of an entity that has no form fails in a way that is not answered for. -/
def EscapesForm (host : Host) (e : EntityDecl) : Prop :=
  First (AttributeDecl.HasForm host e.name) (∃ g, AttributeDecl.EscapesForm host e.name · g)
    e.attributes

end EntityDecl

/-- Entities are ready up to one of which a default escapes when it is copied. -/
def CopiesEscape (host : Host) (entities : List EntityDecl) : Prop :=
  First EntityDecl.IsReady (EntityDecl.EscapesCopy host) entities

/-- The defaults of entities have forms up to one that escapes when it is given a form. -/
def FormsEscape (host : Host) (entities : List EntityDecl) : Prop :=
  First (fun e ↦ ∀ a ∈ e.attributes, a.HasForm host e.name) (EntityDecl.EscapesForm host) entities

/-- All defaults of entities can be written, and the name or else the version of a schema escapes
when it is. -/
def TextsEscape (host : Host) (entities : List EntityDecl) (name version : Value) : Prop :=
  (∀ e ∈ entities, ∀ a ∈ e.attributes,
    Json.IsWritten (a.type.viewOf (a.copied host e.name))) ∧
  First Json.HasText (∃ g, Value.EscapesText · g) [name, version]

/-- What escapes the compilation of a model on a host: its name or its version cannot be shown; or
its entities have different names, and a default escapes when it is copied; or its entities are
coherent, all defaults are copied, and one escapes when it is given a form, or else the name or the
version when they are written. -/
inductive Model.Escapes (host : Host) (m : Model) : Prop
  | name (hidden : ¬ ∃ t, m.name.display = .ok t)
  | version (hidden : ¬ ∃ t, m.version.display = .ok t)
  | copy (distinct : (m.entities.map (·.name)).Nodup) (escapes : CopiesEscape host m.entities)
  | form (coherent : Coherent m.entities)
    (copied : ∀ e ∈ m.entities, ∀ a ∈ e.attributes, a.IsCopied)
    (escapes : FormsEscape host m.entities)
  | text (coherent : Coherent m.entities)
    (copied : ∀ e ∈ m.entities, ∀ a ∈ e.attributes, a.IsCopied)
    (escapes : TextsEscape host m.entities m.name m.version)

/-- A failure that is the fault of a value. -/
def Failure.IsFault (f : Failure) : Prop := ∃ g, f = .fault g

private theorem Failure.IsOfSchema.not_isFault {f : Failure} (h : f.IsOfSchema) : ¬ f.IsFault := by
  obtain ⟨r, rfl, -⟩ := h
  rintro ⟨g, hg⟩
  cases hg

/-- A computation fails with the fault of a value exactly under a condition, and otherwise with the
report of an error of a schema if at all. -/
abbrev Faults {α : Type} (E : Prop) (x : Except Failure α) : Prop :=
  Fails Failure.IsOfSchema Failure.IsFault E x

/-- A computation that fails with the faults of no kind only reports errors. -/
theorem Accounts.faults_of {α : Type} {Q : Fault → Prop} {x : Except Failure α} (h : Accounts Q x)
    (none : ∀ g, ¬ Q g) : Faults False x := by
  cases x with
  | ok a => exact .ok a not_false
  | error f =>
    rcases h f rfl with reported | ⟨g, rfl, hg⟩
    · exact .first reported not_false
    · exact absurd hg (none g)

/-! ### Stages -/

section Texts

variable {entities : List EntityDecl} (texts : ∀ e ∈ entities, e.IsTextual)

include texts

/-- What textual entities mention is a text, or the inverse that a relationship does not declare. -/
theorem Mentions.isNull_or_isText {v : Value} (hv : Mentions entities v) :
    v.isNull = true ∨ v.IsText := by
  cases hv with
  | entity he => exact .inr (texts _ he).name
  | property he ha => exact .inr ((texts _ he).attributes _ ha)
  | relationship he hr => exact .inr ((texts _ he).relationships _ hr).name
  | destination he hr => exact .inr ((texts _ he).relationships _ hr).destination
  | inverse he hr => exact ((texts _ he).relationships _ hr).inverse
  | unique he hn => exact .inr ((texts _ he).unique _ hn)

/-- What textual entities mention can be shown and can be a key. -/
theorem not_misnames (g : Fault) : ¬ Misnames entities g := by
  have null : ∀ v : Value, v.isNull = true → v.display = .ok "None" ∧ v.checkKey = .ok () := by
    intro v hv
    unfold Value.isNull at hv
    split at hv
    · exact ⟨rfl, rfl⟩
    · cases hv
  rintro (⟨hv, h⟩ | ⟨hv, h⟩)
  · rcases hv.isNull_or_isText texts with absent | text
    · cases (null _ absent).1.symm.trans h
    · obtain ⟨t, ht⟩ := text.exists_display
      cases ht.symm.trans h
  · rcases hv.isNull_or_isText texts with absent | text
    · cases (null _ absent).2.symm.trans h
    · cases text.checkKey.symm.trans h

/-- A computation on textual entities that fails with the faults of what they mention only reports
errors. -/
theorem Accounts.faults {α : Type} {x : Except Failure α} (h : Accounts (Misnames entities) x) :
    Faults False x :=
  h.faults_of (not_misnames texts)

namespace Schema

private theorem faults_attributeOf (host : Host) {e : EntityDecl} (he : e ∈ entities)
    {a : AttributeDecl} (ha : a ∈ e.attributes) :
    Faults (∃ g, a.EscapesCopy host e.name g) (attributeOf host e.name a) := by
  by_cases escapes : ∃ g, a.EscapesCopy host e.name g
  · obtain ⟨g, failed, type, copying⟩ := escapes
    have hf : attributeOf host e.name a = .error (.fault g) := by
      simp [attributeOf, failed, type, copying]
    rw [hf]
    exact .second ⟨g, rfl⟩ ⟨g, failed, type, copying⟩
  · refine (Accounts.faults texts ?_).congr (by simp [escapes])
    exact (accounts_attributeOf he ha).mono fun g ↦ Or.rec id fun h ↦ absurd ⟨g, h⟩ escapes

private theorem faults_skeleton (host : Host) {e : EntityDecl} (he : e ∈ entities) :
    Faults (e.EscapesCopy host) (skeleton host e) := by
  have attributes : Faults (e.EscapesCopy host) (e.attributes.mapM (attributeOf host e.name)) :=
    Fails.mapM (fun a ha ↦ faults_attributeOf texts host he ha) fun a _ ↦ by
      simp [attributeOf_eq_ok]
  have unique := Accounts.faults texts (accounts_checkUnique he e.unique fun _ hn ↦ hn)
  refine (attributes.bind fun as _ ↦ unique.bind fun _ _ ↦
    Fails.ok (E := False) (e, as) not_false).congr ?_
  simp

end Schema

end Texts

section Views

variable (host : Host) (config : CompilerConfig) (l : Links)

private theorem AttributeDecl.fails_view (a : AttributeDecl) (entity : Value) :
    Fails (Schema.isUnserializable · = true) (Schema.isUnserializable · = false)
      (∃ g, a.EscapesForm host entity g) (a.compiled host entity).view := by
  have form : (a.compiled host entity).type.viewOf (a.compiled host entity).default =
    a.type.viewOf (a.copied host entity) := rfl
  have forms := (Fails.test Schema.isUnserializable (a.type.viewOf (a.copied host entity))).congr
    (exists_congr fun g ↦ (escapesForm_iff host entity a g).symm)
  rw [Attribute.view, form]
  refine (forms.bind fun v _ ↦ Fails.ok (E := False) _ not_false).congr ?_
  simp

/-- An attribute has a view exactly if its default has a form. -/
theorem AttributeDecl.exists_view_iff (a : AttributeDecl) (entity : Value) :
    (∃ v, (a.compiled host entity).view = .ok v) ↔ a.HasForm host entity := by
  simp [Attribute.view, Success.bind_eq_ok, HasForm, compiled, AttributeDecl.attribute, pure,
    Except.pure]

namespace EntityDecl

private theorem fails_view (e : EntityDecl) :
    Fails (Schema.isUnserializable · = true) (Schema.isUnserializable · = false)
      (e.EscapesForm host) (e.linked host config l).view := by
  have attributes : Fails _ _ (e.EscapesForm host)
      (e.attributes.mapM fun a ↦ (a.compiled host e.name).view) :=
    Fails.mapM (fun a _ ↦ a.fails_view host e.name) fun a _ ↦ a.exists_view_iff host e.name
  rw [Entity.view, linked, List.mapM_map]
  refine (attributes.bind fun vs _ ↦ Fails.ok (E := False) _ not_false).congr ?_
  simp

private theorem exists_view_iff (e : EntityDecl) :
    (∃ v, (e.linked host config l).view = .ok v) ↔ ∀ a ∈ e.attributes, a.HasForm host e.name := by
  have attributes :=
    Success.exists_mapM_eq_ok (fun a ↦ (a.compiled host e.name).view) e.attributes
  simp only [AttributeDecl.exists_view_iff] at attributes
  rw [← attributes, Entity.view, linked, List.mapM_map]
  simp [Success.bind_eq_ok, pure, Except.pure, Function.comp_def]

end EntityDecl

namespace Schema

private theorem fails_view (entities : List EntityDecl) (name version : Value) :
    Fails (isUnserializable · = true) (isUnserializable · = false) (FormsEscape host entities)
      (linkedGraph host config l entities name version).view := by
  have views : Fails _ _ (FormsEscape host entities)
      (entities.mapM fun e ↦ (e.linked host config l).view) :=
    Fails.mapM (fun e _ ↦ e.fails_view host config l) fun e _ ↦ e.exists_view_iff host config l
  rw [Graph.view, linkedGraph, List.mapM_map]
  refine (views.bind fun vs _ ↦ Fails.ok (E := False) _ not_false).congr ?_
  simp

end Schema

end Views

/-! ### Texts -/

namespace Json

private theorem fails_objectMembers {P Q : Fault → Prop} (bad : Value → Prop)
    (es : List (String × Value)) (h : ∀ e ∈ es, Fails P Q (bad e.2) (text .compact e.2)) :
    Fails P Q (First HasText bad (es.map (·.2)))
      (objectMembers .compact (es.map fun e ↦ (.text e.1, text .compact e.2))) := by
  induction es with
  | nil => exact .ok [] (Success.first_nil HasText bad)
  | cons e es ih =>
    obtain ⟨he, hes⟩ := List.forall_mem_cons.mp h
    have last : ∀ ts : List String, Fails P Q False (.ok ts) := fun ts ↦ .ok ts not_false
    refine (he.bind fun t _ ↦ (ih hes).bind fun ts _ ↦ last (_ :: ts)).congr ?_
    simp only [and_false, exists_false, or_false, exists_and_right, List.map_cons,
      Success.first_cons_iff, HasText]

/-- The entries of a view are put in order: the entities, the name and the version. -/
private theorem orderEntries_view (x y z : Except Fault String) :
    orderEntries .compact [(.text "name", x), (.text "version", y), (.text "entities", z)] =
      .ok [(.text "entities", z), (.text "name", x), (.text "version", y)] := by
  have keys : checkOrders [.text "name", .text "version", .text "entities"] = .ok () := rfl
  have sorted : Style.compact.sorted = true := rfl
  have second : keyLess (.text "version") (.text "name") = false := by decide
  have first : keyLess (.text "entities") (.text "name") = true := by decide
  simp [orderEntries, keys, sorted, bind, Except.bind, pure, Except.pure, List.mergeSort,
    List.MergeSort.Internal.splitInTwo, second, first]

private theorem text_view (name version entities : Value) :
    text .compact (.record [("name", name), ("version", version), ("entities", entities)]) =
      (objectMembers .compact ([("entities", entities), ("name", name), ("version", version)].map
        fun e ↦ (.text e.1, text .compact e.2))).map (Style.compact.object 0) := by
  have written := orderEntries_view (write .compact 1 name) (write .compact 1 version)
    (write .compact 1 entities)
  simp only [@write_level .compact rfl 1 0] at written
  rw [text, Value.record, write]
  simp only [List.map, writeEntries, @write_level .compact rfl 1 0, written]
  rfl

private theorem fails_text_view (name version : Value) {entities : Value}
    (h : FailsOnly (Schema.isUnserializable · = true) (text .compact entities)) :
    Fails (Schema.isUnserializable · = true) (Schema.isUnserializable · = false)
      (HasText entities ∧ First HasText (∃ g, Value.EscapesText · g) [name, version])
      (text .compact
        (.record [("name", name), ("version", version), ("entities", entities)])) := by
  have value : ∀ v : Value, Fails _ _ (∃ g, v.EscapesText g) (text .compact v) := fun v ↦
    (Fails.test Schema.isUnserializable _).congr (exists_congr fun g ↦ (v.escapesText_iff g).symm)
  have answered : ¬ ∃ g, entities.EscapesText g := by
    rintro ⟨g, failed, unanswered⟩
    cases (h g failed).symm.trans unanswered
  rw [text_view]
  refine .map _ ((fails_objectMembers (∃ g, Value.EscapesText · g) _ fun e _ ↦ value e.2).congr ?_)
  simp only [List.map_cons, List.map_nil]
  rw [Success.first_cons_iff, or_iff_right answered]

end Json

namespace Schema

section Fingerprint

variable {entities : List EntityDecl} (texts : ∀ e ∈ entities, e.IsTextual) {host : Host}
  {config : CompilerConfig} {l : Links}

include texts

private theorem hasText_of_writes {v : Value} (h : Writes entities .null .null v) :
    Json.HasText v := by
  have null : ∀ w : Value, w.isNull = true → Json.HasText w := by
    intro w hw
    unfold Value.isNull at hw
    split at hw
    · exact ⟨_, rfl⟩
    · cases hw
  cases h with
  | name | version => exact null .null rfl
  | mention hv => exact (hv.isNull_or_isText texts).elim (null v) Value.IsText.hasText
  | boundType he => exact (texts _ he).boundType.elim (null _) Value.IsText.hasText

private theorem failsOnly_text_entities {g : Graph} (graph : g.IsMentioned host entities)
    {vs : List Value} (hvs : g.entities.mapM (·.view) = .ok vs) :
    FailsOnly (isUnserializable · = true) (Json.text .compact (.list vs)) := by
  intro f hf
  have written : WrittenFrom entities .null .null (.list vs) := graph.written_entities hvs
  rcases written f hf with answered | ⟨w, hw, failed⟩
  · exact answered
  · obtain ⟨t, ht⟩ := hasText_of_writes texts hw
    cases ht.symm.trans failed

private theorem hasText_entities_iff (records : Links.Records (Links.declared entities) l)
    {vs : List Value} (hvs : (entities.map (·.linked host config l)).mapM (·.view) = .ok vs) :
    Json.HasText (.list vs) ↔ ∀ e ∈ entities, ∀ a ∈ e.attributes,
      Json.IsWritten (a.type.viewOf (a.copied host e.name)) := by
  have written := Success.exists_mapM_and (fun e : EntityDecl ↦ (e.linked host config l).view)
    Json.HasText entities
  rw [List.mapM_map] at hvs
  rw [Json.hasText_list_iff]
  refine Iff.trans ?_ (written.trans (forall₂_congr fun e he ↦
    isWritten_view_linked_iff texts records host config he))
  constructor
  · exact fun h ↦ ⟨vs, hvs, h⟩
  · rintro ⟨ws, hws, h⟩
    obtain rfl := Except.ok.inj (hvs.symm.trans hws)
    exact h

/-- The fingerprint of a graph fails in a way that is not answered for exactly if the first default
that has no form does, or else the name or the version when they are written. -/
private theorem fails_fingerprint (records : Links.Records (Links.declared entities) l)
    (name version : Value)
    (graph : (linkedGraph host config l entities name version).IsMentioned host entities) :
    Fails (isUnserializable · = true) (isUnserializable · = false)
      (FormsEscape host entities ∨ TextsEscape host entities name version)
      (linkedGraph host config l entities name version).fingerprint := by
  have views := fails_view host config l entities name version
  have written : ∀ v, (linkedGraph host config l entities name version).view = .ok v →
      Fails (isUnserializable · = true) (isUnserializable · = false)
        (TextsEscape host entities name version) (Graph.fingerprintOf v) := by
    intro v hv
    obtain ⟨vs, hvs, hv⟩ := (Success.bind_eq_ok _ _ _).mp hv
    obtain rfl := Except.ok.inj hv
    refine ((Json.fails_text_view name version (failsOnly_text_entities texts graph hvs)).bind
      fun t _ ↦ Fails.ok (E := False) _ not_false).congr ?_
    simp [TextsEscape, hasText_entities_iff texts records hvs]
  refine (views.bind written).congr (or_congr_right ⟨fun ⟨_, _, h⟩ ↦ h, fun h ↦ ?_⟩)
  obtain ⟨vs, hvs, -⟩ := (Success.exists_mapM_and (fun e : EntityDecl ↦
    (e.linked host config l).view) Json.HasText entities).mpr fun e he ↦
      (isWritten_view_linked_iff texts records host config he).mpr (h.1 e he)
  rw [← Function.comp_def, ← List.mapM_map] at hvs
  exact ⟨_, by rw [Graph.view, linkedGraph, hvs]; rfl, h⟩

end Fingerprint

/-- The graph of textual entities, of a name that can be shown, fails with a fault exactly if a
default escapes when it is given a form, or else the name or the version when they are written. -/
private theorem faults_ofGraph? {g : Graph} {E : Prop} (shown : ∃ t, g.name.display = .ok t)
    (escapes : Fails (isUnserializable · = true) (isUnserializable · = false) E g.fingerprint)
    (host : Host) : Faults E (ofGraph? host g) := by
  unfold ofGraph?
  cases h : ofGraph g with
  | ok s =>
    rw [← (ofGraph_eq_ok g s).mp h, s.fingerprint_eq] at escapes
    cases escapes with
    | ok _ none => exact .ok s none
  | error f =>
    rw [(ofGraph_eq_error g f).mp h] at escapes
    cases escapes with
    | first answered none =>
      have raised : Accounts (fun t ↦ g.name.display = .error t)
          ((SchemaError.unserializable g.name (host.message f)).raise : Except Failure Schema) :=
        Accounts.raise trivial fun v hv t ht ↦ List.mem_singleton.mp hv ▸ ht
      obtain ⟨t, ht⟩ := shown
      simp only [answered]
      exact (raised.faults_of (by simp [ht])).congr (iff_of_false not_false none)
    | second unanswered first =>
      simp only [unanswered]
      exact .second ⟨f, rfl⟩ first

private theorem exists_skeleton_iff (host : Host) {e : EntityDecl} (texts : e.IsTextual) :
    (∃ x, skeleton host e = .ok x) ↔ e.IsReady := by
  simp [skeleton_eq_ok texts.toIsNamed, EntityDecl.IsReady]

section Compile

variable {entities : List EntityDecl} (texts : ∀ e ∈ entities, e.IsTextual)
  (host : Host) (config : CompilerConfig) {name version : Value}

include texts

/-- Under a name and a version that can be shown, the compilation of textual entities fails with a
fault exactly if a default escapes when it is copied, or when it is given a form, or else the name
or the version when they are written. -/
private theorem faults_compile (hname : ∃ t, name.display = .ok t)
    (hversion : ∃ t, version.display = .ok t) :
    Faults ((entities.map (·.name)).Nodup ∧ (CopiesEscape host entities ∨
        (∀ e ∈ entities, e.IsReady) ∧ (∃ l, (Links.ofEntities entities).result = .ok l) ∧
          (FormsEscape host entities ∨ TextsEscape host entities name version)))
      (compile host config entities name version).result := by
  have named := EntityDecl.isNamed texts
  have names := Accounts.faults texts (accounts_checkDistinct _ [] (mentions_names entities))
  have skeletons := Fails.mapM (fun e he ↦ faults_skeleton texts host he)
    fun e he ↦ exists_skeleton_iff host (texts e he)
  have linking := Accounts.faults texts (Links.accounts_ofEntities entities).1
  have hidden : ∀ {v : Value}, (∃ t, v.display = .ok t) → ∀ g, ¬ v.display = .error g := by
    rintro v ⟨t, ht⟩ g hg
    cases ht.symm.trans hg
  refine (names.result_bind (t := liftM _) fun _ hnames ↦
    skeletons.result_bind (t := liftM _) fun xs hxs ↦
    Fails.result_bind (E := False) (.ok () not_false) fun _ _ ↦
    linking.result_bind
      (G := fun _ ↦ FormsEscape host entities ∨ TextsEscape host entities name version)
      fun l hl ↦ ?_).congr ?_
  · have distinct := (checkDistinct_entities_eq_ok named _).mp hnames
    have records := Links.records_of_ofEntities named distinct hl
    have linked := (Links.accounts_ofEntities entities).2 l hl
    obtain ⟨-, rfl⟩ := ((Success.mapM_eq_ok_map (skeleton host) _ _ entities fun e he ↦
      skeleton_eq_ok (named e he)) xs).mp hxs
    have resolved := (mapM_entityOf_eq_ok named distinct hl host config _).mpr rfl
    have graph := isMentioned_graph name version hxs linked resolved
    rw [Traced.result_bind, Traced.result_liftM, resolved]
    have escapes := fails_fingerprint texts records name version graph
    refine ((faults_ofGraph? hname escapes host).result_bind (t := liftM _)
      (G := fun _ ↦ False) fun s hs ↦ ?_).congr (by simp)
    refine (accounts_rest graph config ((ofGraph?_eq_ok _ _).mp hs)).faults_of ?_
    rintro g (h | h | h)
    · exact not_misnames texts g h
    · exact hidden hname g h
    · exact hidden hversion g h
  · have ready : (∃ xs, entities.mapM (skeleton host) = .ok xs) ↔ ∀ e ∈ entities, e.IsReady := by
      rw [Success.exists_mapM_eq_ok]
      exact forall₂_congr fun e he ↦ exists_skeleton_iff host (texts e he)
    simp only [false_or, Traced.result_liftM, exists_and_right, ready, CopiesEscape]
    simp [checkDistinct_entities_eq_ok named]

end Compile

private theorem isPortable_of_compile {host : Host} {config : CompilerConfig}
    {entities : List EntityDecl} {name version : Value} {s : Schema}
    (h : (compile host config entities name version).result = .ok s) :
    ∀ e ∈ entities, ∀ a ∈ e.attributes, a.IsPortable host e.name := by
  simp only [compile, Traced.result_bind_eq_ok, Traced.result_liftM, ofGraph?_eq_ok] at h
  obtain ⟨-, -, xs, made, -, -, l, -, fs, resolved, t, graph, -⟩ := h
  have written := (Graph.exists_fingerprint_iff _).mp ⟨t.fingerprint, t.fingerprint_eq⟩
  rw [graph, Graph.isWritten_view_iff] at written
  intro e he a ha
  obtain ⟨x, hx, hmade⟩ := Success.exists_of_forall₂ ((Success.mapM_eq_ok _ _ _).mp made) he
  obtain ⟨copied, rfl⟩ := of_skeleton hmade
  obtain ⟨f, hf, hresolved⟩ := Success.exists_of_forall₂ ((Success.mapM_eq_ok _ _ _).mp resolved) hx
  have forms := Entity.isWritten_viewOf (written.2.2 f hf)
  rw [(of_entityOf hresolved).attributes, List.forall_mem_map] at forms
  exact ⟨copied a ha, forms a ha⟩

end Schema

namespace Model

/-- Under a name and a version that can be shown, only defaults escape, or the writing of the name
or the version. -/
private theorem escapes_iff {host : Host} {m : Model} (texts : ∀ e ∈ m.entities, e.IsTextual)
    (hname : ∃ t, m.name.display = .ok t) (hversion : ∃ t, m.version.display = .ok t) :
    m.Escapes host ↔ (m.entities.map (·.name)).Nodup ∧ (CopiesEscape host m.entities ∨
      (∀ e ∈ m.entities, e.IsReady) ∧ (∃ l, (Links.ofEntities m.entities).result = .ok l) ∧
        (FormsEscape host m.entities ∨ TextsEscape host m.entities m.name m.version)) := by
  have links := @Links.exists_ofEntities_eq_ok m.entities (EntityDecl.isNamed texts)
  have stages : Coherent m.entities → (∀ e ∈ m.entities, ∀ a ∈ e.attributes, a.IsCopied) →
      (m.entities.map (·.name)).Nodup ∧ (∀ e ∈ m.entities, e.IsReady) ∧
        ∃ l, (Links.ofEntities m.entities).result = .ok l := by
    intro coherent copied
    obtain ⟨distinct, unique, resolves, one⟩ := (coherent_iff m.entities).mp coherent
    exact ⟨distinct, fun e he ↦ ⟨copied e he, unique e he⟩, (links distinct).mpr ⟨resolves, one⟩⟩
  constructor
  · rintro (hidden | hidden | ⟨distinct, escapes⟩ | ⟨coherent, copied, escapes⟩ |
      ⟨coherent, copied, escapes⟩)
    · exact absurd hname hidden
    · exact absurd hversion hidden
    · exact ⟨distinct, .inl escapes⟩
    · obtain ⟨distinct, ready, linked⟩ := stages coherent copied
      exact ⟨distinct, .inr ⟨ready, linked, .inl escapes⟩⟩
    · obtain ⟨distinct, ready, linked⟩ := stages coherent copied
      exact ⟨distinct, .inr ⟨ready, linked, .inr escapes⟩⟩
  · rintro ⟨distinct, escapes | ⟨ready, linked, escapes⟩⟩
    · exact .copy distinct escapes
    · obtain ⟨resolves, one⟩ := (links distinct).mp linked
      have coherent := (coherent_iff m.entities).mpr
        ⟨distinct, fun e he ↦ (ready e he).2, resolves, one⟩
      have copied := fun e he ↦ (ready e he).1
      exact escapes.elim (.form coherent copied) (.text coherent copied)

private theorem faults_compile {m : Model} (texts : ∀ e ∈ m.entities, e.IsTextual) (host : Host)
    (config : CompilerConfig) : Faults (m.Escapes host) (m.compile host config).result := by
  rw [compile, Traced.result_bind]
  cases hname : m.name.display with
  | error g => exact .second ⟨g, rfl⟩ (.name (by simp [hname]))
  | ok n =>
    cases hversion : m.version.display with
    | error g => exact .second ⟨g, rfl⟩ (.version (by simp [hversion]))
    | ok v =>
      exact (Schema.faults_compile texts host config ⟨n, hname⟩ ⟨v, hversion⟩).congr
        (escapes_iff texts ⟨n, hname⟩ ⟨v, hversion⟩).symm

/-- Compiling a model gives a schema or the report of an error of a schema, or else a fault that
comes from what the model is made of. Where its entities are named by texts, there is a fault
exactly if something escapes. Where there is a schema, all defaults can be copied and written. -/
theorem compile_reports_iff (m : Model) (host : Host) (config : CompilerConfig) :
    (∀ f, (m.compile host config).result = .error f →
      f.IsOfSchema ∨ ∃ g, f = .fault g ∧ Provokes host m.entities m.name m.version g) ∧
    ((∀ e ∈ m.entities, e.IsTextual) →
      (((∃ s, (m.compile host config).result = .ok s) ∨
        ∃ f, (m.compile host config).result = .error f ∧ f.IsOfSchema) ↔ ¬ m.Escapes host)) ∧
    ((∃ s, (m.compile host config).result = .ok s) →
      ∀ e ∈ m.entities, ∀ a ∈ e.attributes, a.IsPortable host e.name) := by
  refine ⟨m.accounts_compile host config, fun texts ↦ ?_, ?_⟩
  · have faults := faults_compile texts host config
    generalize (m.compile host config).result = x at faults ⊢
    cases faults with
    | ok s h => simp [h]
    | first reported h => simp [reported, h]
    | second fault h =>
      have unreported : ∀ f : Failure, f.IsFault → ¬ f.IsOfSchema := fun _ hf h ↦ h.not_isFault hf
      simp [unreported _ fault, h]
  · rintro ⟨s, hs⟩
    obtain ⟨-, -, hs⟩ := (Traced.result_bind_eq_ok _ _ _).mp hs
    exact Schema.isPortable_of_compile hs

end Model

/-! ### An example -/

namespace Job

/-- The lock of a job, which is a foreign object. -/
def lock (f : Foreign) : AttributeDecl :=
  { name := .text "lock"
    type := .objectReference
    isOptional := true
    default := .atom .fresh (.foreign f)
    externalStorage := false
    preservedOnDelete := false
    named := by decide
    typed := rfl }

/-- Jobs, which have a lock. -/
def job (f : Foreign) : EntityDecl :=
  { name := .text "Job"
    attributes := [lock f]
    relationships := []
    isAbstract := false
    boundType := .null
    unique := []
    named := by decide
    distinct := ⟨by simp [propertyNames, lock], by simp [propertyNames]⟩ }

/-- A model of jobs. -/
def model (f : Foreign) : Model := ⟨.text "Jobs", .int 1, [job f], rfl⟩

/-- All names in the example are texts. -/
theorem isTextual (f : Foreign) : ∀ e ∈ (model f).entities, e.IsTextual := by
  intro e he
  obtain rfl := List.mem_singleton.mp he
  exact ⟨⟨⟨_, rfl⟩, by simp [job, lock, Value.IsText], by simp [job], by simp [job]⟩, .inl rfl⟩

/-- A lock that is known by a text and can be copied. -/
def free : Foreign := ⟨"Lock", "lock", none, .itself⟩

/-- A lock that refuses to be copied, as an object of the wrong type for that. -/
def held : Foreign := ⟨"Lock", "lock", none, .refused ⟨.type, "cannot pickle 'Lock' object"⟩⟩

/-- A lock that looks up a key when it is asked for its text, and does not find it. -/
def lost : Foreign := ⟨"Lock", "", some ⟨.key, "'lock'"⟩, .itself⟩

/-- The version of the example can be written and shown. -/
theorem isShowable_version (f : Foreign) : (model f).version.IsShowable :=
  (Value.isShowable_int_iff 1).mpr (Number.Integer.isTooLong_of_le_one (n := 1) le_rfl)

/-- The example compiles as its entities do. -/
theorem result_compile (f : Foreign) : ((model f).compile default default).result =
    (Schema.compile default default [job f] (.text "Jobs") (.int 1)).result := by
  obtain ⟨-, t, ht⟩ := isShowable_version f
  rw [Model.compile, ht]
  rfl

private theorem exists_compile_free : ∃ s,
    ((model free).compile default default).result = .ok s := by
  have coherent : Coherent (model free).entities := by
    refine ⟨by simp [model], ?_, ?_, ?_, ?_⟩
    · simp [model, job, EntityDecl.NamesUnique]
    · simp [model, job]
    · simp [model, job]
    · simp [Links.OneToOne, Links.Joined, Links.Declares, Links.declared, model, job]
  have portable :
      ∀ e ∈ (model free).entities, ∀ a ∈ e.attributes, a.IsPortable default e.name := by
    simp only [model, job, List.forall_mem_singleton]
    have isCopied : (lock free).IsCopied := by rintro - m ⟨⟩
    exact ⟨isCopied, .text "lock", rfl, Json.hasText_text "lock"⟩
  rw [result_compile]
  exact (Schema.exists_compile_eq_ok (isTextual free) rfl).mpr
    ⟨coherent, portable, Value.isShowable_text "Jobs", isShowable_version free⟩

/-- Jobs with a lock that refuses to be copied are refused with a report of that, and nothing
escapes. Jobs with one that can be copied have a schema. -/
theorem compile_reports_iff_held :
    (∀ e ∈ (model held).entities, e.IsTextual) ∧
    (∃ f, ((model held).compile default default).result = .error f ∧ f.IsOfSchema) ∧
    ¬ (model held).Escapes default ∧
    (∃ s, ((model free).compile default default).result = .ok s) ∧
    (lock free).IsPortable default (.text "Job") := by
  let refused : SchemaError :=
    .uncopyableDefault (.text "Job") (.text "lock") "cannot pickle 'Lock' object"
  have failed : ((model held).compile default default).result = .error refused.failure :=
    (result_compile held).trans rfl
  have raised : Accounts (fun _ ↦ False) (refused.raise : Except Failure Unit) :=
    Accounts.raise trivial (by simp [refused, SchemaError.shown])
  have reported := (raised _ rfl).resolve_right (by simp)
  refine ⟨isTextual held, ⟨_, failed, reported⟩, ?_, exists_compile_free, ?_⟩
  · exact ((model held).compile_reports_iff default default).2.1 (isTextual held)
      |>.mp (.inr ⟨_, failed, reported⟩)
  · exact ((model free).compile_reports_iff default default).2.2 exists_compile_free (job free)
      (by simp [model]) (lock free) (by simp [job])

/-- Not every model gives a schema or a report: a lock that has no text is asked for it when it is
given a form, and the failure is the fault of that. -/
theorem exists_compile_unreported :
    (∀ e ∈ (model lost).entities, e.IsTextual) ∧
    ((model lost).compile default default).result = .error (.fault (.noText ⟨.key, "'lock'"⟩)) ∧
    ¬ ((∃ s, ((model lost).compile default default).result = .ok s) ∨
      ∃ f, ((model lost).compile default default).result = .error f ∧ f.IsOfSchema) := by
  have failed : ((model lost).compile default default).result =
      .error (.fault (.noText ⟨.key, "'lock'"⟩)) := (result_compile lost).trans rfl
  refine ⟨isTextual lost, failed, ?_⟩
  rintro (⟨s, hs⟩ | ⟨f, hf, r, rfl, -⟩)
  · cases failed.symm.trans hs
  · cases failed.symm.trans hf

end Job

end EntityGraph
