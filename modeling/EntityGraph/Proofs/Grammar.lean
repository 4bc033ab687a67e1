import EntityGraph.Document.Read
import EntityGraph.Proofs.Declaring

/-!
# The grammar of documents

Which plain values are documents, said of what they hold: no order of checks and no paths. Reading
declares a model exactly if the value is a document.
-/

namespace EntityGraph.Document

/-- A mapping of any entries. -/
def IsMapping (v : Value) : Prop := ∃ id entries, v = .dict id entries

/-- What a value holds under a key, if there is anything, is a truth value. -/
def HasFlag (key : String) (v : Value) : Prop := ∀ w, v.get? key = some w → ∃ b, w.bool? = some b

/-- What a value holds under a key does not count as true, or is a list of members that are as they
should be. -/
def HasMembers (P : List Value → Prop) (key : String) (v : Value) : Prop :=
  (v.get key).truthy = false ∨ ∃ id items, v.get key = .seq id .list items ∧ P items

/-- The default of a mapping is absent, or stands for a value of a type. -/
def HasDefault (type : ScalarType) (v : Value) : Prop :=
  (v.get "default").isNull = true ∨
    ∃ w, type.decode (v.get "default") = .ok w ∧ type.checkDefault (v.get "name") w = .ok ()

/-- A mapping that declares an attribute. -/
structure IsAttribute (v : Value) : Prop where
  mapping : IsMapping v
  name : (v.get "name").truthy = true
  typed : ∃ type : ScalarType, (v.get "type").text? = some type.tag ∧ HasDefault type v
  optional : HasFlag "optional" v
  externalStorage : HasFlag "external_storage" v
  preservedOnDelete : HasFlag "preserve_on_delete" v

/-- A mapping that declares a relationship. Anything may stand for its inverse. -/
structure IsRelationship (v : Value) : Prop where
  mapping : IsMapping v
  name : (v.get "name").truthy = true
  destination : (v.get "destination").truthy = true
  toMany : HasFlag "to_many" v
  optional : HasFlag "optional" v
  deleteRule : ∀ w, v.get? "delete_rule" = some w → ∃ rule : DeleteRule, w.text? = some rule.tag

/-- A mapping of one entry, which is an attribute or a relationship. -/
inductive IsProperty : Value → Prop
  | attribute (id : Identity) (key v : Value) (hkey : key.text? = some "attribute")
    (hv : IsAttribute v) : IsProperty (.dict id [(key, v)])
  | relationship (id : Identity) (key v : Value) (hkey : key.text? = some "relationship")
    (hv : IsRelationship v) : IsProperty (.dict id [(key, v)])

/-- The name of what a mapping of one entry holds. -/
def propertyName : Value → Value
  | .dict _ [(_, v)] => v.get "name"
  | _ => .null

/-- Values that declare properties of different names. -/
structure AreProperties (vs : List Value) : Prop where
  each : ∀ v ∈ vs, IsProperty v
  distinct : DistinctNames (vs.map propertyName)

/-- A mapping that declares an entity. Its constraints may be anything that has members. -/
structure IsEntity (v : Value) : Prop where
  mapping : IsMapping v
  name : (v.get "name").truthy = true
  properties : HasMembers AreProperties "properties" v
  isAbstract : HasFlag "abstract" v
  unique : (v.get "unique").truthy = false ∨ (∃ id items, v.get "unique" = .seq id .list items) ∨
    (∃ s, (v.get "unique").text? = some s) ∨ IsMapping (v.get "unique")

/-- A mapping that declares a model. -/
structure IsDocument (v : Value) : Prop where
  mapping : IsMapping v
  version : ∀ w, v.get? "version" = some w → ∃ i, w.int? = some i ∧ 0 < i
  entities : HasMembers (∀ w ∈ ·, IsEntity w) "entities" v

/-! ### Checks -/

/-- A mapping passes the check for mappings. -/
theorem checkMapping_eq_ok (path : String) (v : Value) :
    checkMapping path v = .ok () ↔ IsMapping v := by
  cases v <;> simp [checkMapping, IsMapping, refuse, SchemaError.raise]

/-- Where a failure is located changes no success. -/
theorem located_eq_ok {α : Type} (path : String) (x : Except Failure α) (a : α) :
    located path x = .ok a ↔ x = .ok a := by
  cases x with
  | ok b => rfl
  | error e =>
    rw [located]
    split <;> simp [refuse, SchemaError.raise]

/-- What is required is there. -/
theorem require_eq_ok (path key : String) (v w : Value) :
    require path key v = .ok w ↔ w.among [.null, .text ""] = false ∧ v.get key = w := by
  rw [require]
  cases h : (v.get key).among [.null, .text ""] <;>
    simp only [if_true, if_false, Bool.false_eq_true, refuse, SchemaError.raise, reduceCtorEq,
      Except.ok.injEq, false_iff]
  · grind
  · grind

/-- A value that counts as true is not required in vain. -/
theorem among_empty_of_truthy {v : Value} (h : v.truthy = true) :
    v.among [.null, .text ""] = false := by
  cases v with
  | atom id a =>
    cases a <;> simp_all [Value.among, Value.null, Value.text, Value.same, Identity.same,
      Atom.equals, Atom.numeral?, Value.truthy, Atom.truthy]
  | _ => simp [Value.among, Value.null, Value.text, Value.same]

/-- The tag of a type is not required in vain. -/
theorem among_empty_of_tag {v : Value} {type : ScalarType} (h : v.text? = some type.tag) :
    v.among [.null, .text ""] = false := by
  apply among_empty_of_truthy
  have tagged : type.tag ≠ "" := by cases type <;> decide
  obtain ⟨id, rfl⟩ := Value.exists_eq_of_text? h
  exact decide_eq_true tagged

/-- A flag is read exactly if what there is of it is a truth value. -/
theorem exists_flag_eq_ok (path key : String) (default : Bool) (v : Value) :
    (∃ b, flag path key default v = .ok b) ↔ HasFlag key v := by
  rw [flag, HasFlag]
  cases v.get? key with
  | none => simp
  | some w =>
    cases hb : w.bool? with
    | some b => simp [hb]
    | none => cases hi : w.inspect <;> simp [hb, hi, refuse, SchemaError.raise, bind, Except.bind]

/-! ### Attributes and relationships -/

private theorem hasDefault_iff (type : ScalarType) (v : Value) :
    HasDefault type v ↔
      ∃ w, type.decode (v.get "default") = .ok w ∧ type.checkDefault (v.get "name") w = .ok () := by
  constructor
  · rintro (h | h)
    · generalize v.get "default" = default at h
      obtain ⟨id, rfl⟩ : ∃ id, default = .atom id .null := by
        unfold Value.isNull at h
        split at h
        · exact ⟨_, rfl⟩
        · cases h
      exact ⟨_, rfl, rfl⟩
    · exact h
  · exact .inr

/-- An attribute is read exactly if a mapping declares one. -/
private theorem exists_readAttribute_eq_ok (path : String) (v : Value) :
    (∃ a, readAttribute path v = .ok a) ↔ IsAttribute v := by
  simp only [readAttribute, Success.bind_eq_ok, require_eq_ok, located_eq_ok,
    ScalarType.read_eq_ok]
  constructor
  · rintro ⟨a, _, hmapping, name, ⟨-, rfl⟩, tag, ⟨-, rfl⟩, type, htype, w, hw, b, hb, c, hc, d, hd,
      ha⟩
    obtain ⟨named, typed⟩ := (AttributeDecl.exists_make_eq_ok _ _ _).mp ⟨a, ha⟩
    exact ⟨(checkMapping_eq_ok path v).mp hmapping, named,
      ⟨type, htype, (hasDefault_iff type v).mpr ⟨w, hw, typed⟩⟩,
      (exists_flag_eq_ok _ _ _ _).mp ⟨b, hb⟩, (exists_flag_eq_ok _ _ _ _).mp ⟨c, hc⟩,
      (exists_flag_eq_ok _ _ _ _).mp ⟨d, hd⟩⟩
  · rintro ⟨hmapping, named, ⟨type, htype, hdefault⟩, hb, hc, hd⟩
    obtain ⟨w, hw, typed⟩ := (hasDefault_iff type v).mp hdefault
    obtain ⟨b, hb⟩ := (exists_flag_eq_ok path "optional" true v).mpr hb
    obtain ⟨c, hc⟩ := (exists_flag_eq_ok path "external_storage" false v).mpr hc
    obtain ⟨d, hd⟩ := (exists_flag_eq_ok path "preserve_on_delete" false v).mpr hd
    obtain ⟨a, ha⟩ := (AttributeDecl.exists_make_eq_ok (v.get "name") type
      ⟨b, w, c, d⟩).mpr ⟨named, typed⟩
    exact ⟨a, (), (checkMapping_eq_ok path v).mpr hmapping, _,
      ⟨among_empty_of_truthy named, rfl⟩, _, ⟨among_empty_of_tag htype, rfl⟩, type, htype, w, hw, b,
      hb, c, hc, d, hd, ha⟩

/-- A read attribute has the name that the mapping holds. -/
theorem name_of_readAttribute {path : String} {v : Value} {a : AttributeDecl}
    (h : readAttribute path v = .ok a) : a.name = v.get "name" := by
  simp only [readAttribute, Success.bind_eq_ok, require_eq_ok] at h
  obtain ⟨_, -, name, ⟨-, rfl⟩, _, -, _, -, _, -, _, -, _, -, _, -, ha⟩ := h
  exact AttributeDecl.name_of_make ha

/-- A mapping gives no delete rule or the tag of one exactly if it has the tag of a rule. -/
theorem deleteRule_iff (v : Value) :
    (∃ rule : DeleteRule, ((v.get? "delete_rule").getD
      (.text DeleteRule.nullify.tag)).text? = some rule.tag) ↔
        ∀ w, v.get? "delete_rule" = some w → ∃ rule : DeleteRule, w.text? = some rule.tag := by
  cases v.get? "delete_rule" with
  | none => simpa using ⟨.nullify, rfl⟩
  | some w => simp

/-- A relationship is read exactly if a mapping declares one. -/
private theorem exists_readRelationship_eq_ok (path : String) (v : Value) :
    (∃ r, readRelationship path v = .ok r) ↔ IsRelationship v := by
  simp only [readRelationship, Success.bind_eq_ok, require_eq_ok, located_eq_ok,
    DeleteRule.read_eq_ok]
  constructor
  · rintro ⟨r, _, hmapping, rule', hrule, name, ⟨-, rfl⟩, destination, ⟨-, rfl⟩, b, hb, c, hc, hr⟩
    obtain ⟨named, directed⟩ := (RelationshipDecl.exists_make_eq_ok _ _ _).mp ⟨r, hr⟩
    exact ⟨(checkMapping_eq_ok path v).mp hmapping, named, directed,
      (exists_flag_eq_ok _ _ _ _).mp ⟨b, hb⟩, (exists_flag_eq_ok _ _ _ _).mp ⟨c, hc⟩,
      (deleteRule_iff v).mp ⟨rule', hrule⟩⟩
  · rintro ⟨hmapping, named, directed, hb, hc, hrule⟩
    obtain ⟨rule', hrule⟩ := (deleteRule_iff v).mpr hrule
    obtain ⟨b, hb⟩ := (exists_flag_eq_ok path "to_many" false v).mpr hb
    obtain ⟨c, hc⟩ := (exists_flag_eq_ok path "optional" true v).mpr hc
    obtain ⟨r, hr⟩ := (RelationshipDecl.exists_make_eq_ok (v.get "name") (v.get "destination")
      ⟨b, c, rule', v.get "inverse"⟩).mpr ⟨named, directed⟩
    exact ⟨r, (), (checkMapping_eq_ok path v).mpr hmapping, rule', hrule, _,
      ⟨among_empty_of_truthy named, rfl⟩, _, ⟨among_empty_of_truthy directed, rfl⟩, b, hb, c, hc,
      hr⟩

/-- A read relationship has the name that the mapping holds. -/
theorem name_of_readRelationship {path : String} {v : Value} {r : RelationshipDecl}
    (h : readRelationship path v = .ok r) : r.name = v.get "name" := by
  simp only [readRelationship, Success.bind_eq_ok, require_eq_ok] at h
  obtain ⟨_, -, _, -, name, ⟨-, rfl⟩, _, -, _, -, _, -, hr⟩ := h
  exact RelationshipDecl.name_of_make hr

/-! ### Properties -/

/-- The only entry of a mapping. -/
theorem onlyEntry_eq_some (v : Value) (s : String) (inner : Value) :
    onlyEntry? v = some (s, inner) ↔
      ∃ id key w, v = .dict id [(key, w)] ∧ key.text? = some s ∧ v.takeOut w = inner := by
  constructor
  · intro h
    unfold onlyEntry? at h
    split at h
    · next id key w =>
      obtain ⟨t, ht, he⟩ := Option.map_eq_some_iff.mp h
      obtain ⟨rfl, hw⟩ := Prod.mk.inj he
      exact ⟨id, key, w, rfl, ht, hw⟩
    · cases h
  · rintro ⟨id, key, w, rfl, hkey, rfl⟩
    unfold onlyEntry?
    simp [hkey]

/-- The only entry of a plain mapping holds a value by itself. -/
theorem onlyEntry_eq_some_of_isPlain {v : Value} (plain : v.IsPlain) (s : String) (inner : Value) :
    onlyEntry? v = some (s, inner) ↔
      ∃ id key, v = .dict id [(key, inner)] ∧ key.text? = some s := by
  rw [onlyEntry_eq_some]
  constructor
  · rintro ⟨id, key, w, rfl, hkey, rfl⟩
    exact ⟨id, key, by rw [plain.1.2.takeOut], hkey⟩
  · rintro ⟨id, key, rfl, hkey⟩
    exact ⟨id, key, inner, rfl, hkey, plain.1.2.takeOut _⟩

/-- A property is read as the attribute or the relationship that its only entry declares. -/
theorem readProperty_eq_ok (path : String) (v : Value) (c : Component) :
    readProperty path v = .ok c ↔ ∃ id key w, v = .dict id [(key, w)] ∧
      ((key.text? = some "attribute" ∧
          ∃ a, readAttribute (path ++ ".attribute") (v.takeOut w) = .ok a ∧ .attr a = c) ∨
        (key.text? = some "relationship" ∧
          ∃ r, readRelationship (path ++ ".relationship") (v.takeOut w) = .ok r ∧
            .rel r = c)) := by
  constructor
  · intro h
    obtain ⟨_, -, h⟩ := (Success.bind_eq_ok _ _ _).mp h
    split at h
    · next inner hentry =>
      obtain ⟨id, key, w, hv, hkey, rfl⟩ := (onlyEntry_eq_some v _ _).mp hentry
      exact ⟨id, key, w, hv, .inl ⟨hkey, (Success.map_eq_ok _ _ _).mp h⟩⟩
    · next inner hentry =>
      obtain ⟨id, key, w, hv, hkey, rfl⟩ := (onlyEntry_eq_some v _ _).mp hentry
      exact ⟨id, key, w, hv, .inr ⟨hkey, (Success.map_eq_ok _ _ _).mp h⟩⟩
    · cases h
  · rintro ⟨id, key, w, rfl, ⟨hkey, h⟩ | ⟨hkey, h⟩⟩
    · rw [readProperty, (onlyEntry_eq_some _ _ _).mpr ⟨id, key, w, rfl, hkey, rfl⟩]
      exact (Success.map_eq_ok _ _ _).mpr h
    · rw [readProperty, (onlyEntry_eq_some _ _ _).mpr ⟨id, key, w, rfl, hkey, rfl⟩]
      exact (Success.map_eq_ok _ _ _).mpr h

/-- A plain property is read exactly if a mapping holds one. -/
theorem exists_readProperty_eq_ok (path : String) {v : Value} (plain : v.IsPlain) :
    (∃ c, readProperty path v = .ok c) ↔ IsProperty v := by
  simp only [readProperty_eq_ok]
  constructor
  · rintro ⟨c, id, key, w, rfl, held⟩
    rw [plain.1.2.takeOut] at held
    rcases held with ⟨hkey, a, ha, -⟩ | ⟨hkey, r, hr, -⟩
    · exact .attribute id key w hkey ((exists_readAttribute_eq_ok _ w).mp ⟨a, ha⟩)
    · exact .relationship id key w hkey ((exists_readRelationship_eq_ok _ w).mp ⟨r, hr⟩)
  · rintro (⟨id, key, w, hkey, hw⟩ | ⟨id, key, w, hkey, hw⟩)
    · obtain ⟨a, ha⟩ := (exists_readAttribute_eq_ok (path ++ ".attribute") w).mpr hw
      rw [← plain.1.2.takeOut (.dict id [(key, w)])] at ha
      exact ⟨.attr a, id, key, w, rfl, .inl ⟨hkey, a, ha, rfl⟩⟩
    · obtain ⟨r, hr⟩ := (exists_readRelationship_eq_ok (path ++ ".relationship") w).mpr hw
      rw [← plain.1.2.takeOut (.dict id [(key, w)])] at hr
      exact ⟨.rel r, id, key, w, rfl, .inr ⟨hkey, r, hr, rfl⟩⟩

/-- Plain properties are read exactly if each of some values holds one. -/
theorem exists_readProperties_eq_ok (path : String) (i : Nat) {vs : List Value}
    (plain : ∀ v ∈ vs, v.IsPlain) :
    (∃ p, readProperties path i vs = .ok p) ↔ ∀ v ∈ vs, IsProperty v := by
  induction vs generalizing i with
  | nil => simp [readProperties]
  | cons v vs ih =>
    rw [List.forall_mem_cons] at plain
    rw [List.forall_mem_cons, ← ih (i + 1) plain.2,
      ← exists_readProperty_eq_ok (memberPath (path ++ ".properties") i) plain.1]
    simp only [readProperties, Success.bind_eq_ok]
    constructor
    · rintro ⟨p, c, hc, rest, hrest, -⟩
      exact ⟨⟨c, hc⟩, rest, hrest⟩
    · rintro ⟨⟨c, hc⟩, rest, hrest⟩
      cases c with
      | attr a => exact ⟨_, .attr a, hc, rest, hrest, rfl⟩
      | rel r => exact ⟨_, .rel r, hc, rest, hrest, rfl⟩
      | other type => exact ⟨_, .other type, hc, rest, hrest, rfl⟩

/-- The names of read properties are those that the values hold, in an order of their own. -/
private theorem perm_propertyNames_of_readProperties {path : String} {i : Nat} {vs : List Value}
    (plain : ∀ v ∈ vs, v.IsPlain) {p : Properties} (h : readProperties path i vs = .ok p) :
    (vs.map propertyName).Perm (propertyNames p.attributes p.relationships) := by
  induction vs generalizing i p with
  | nil =>
    obtain rfl := Except.ok.inj h
    exact .refl _
  | cons v vs ih =>
    rw [List.forall_mem_cons] at plain
    simp only [readProperties, Success.bind_eq_ok] at h
    obtain ⟨c, hc, rest, hrest, h⟩ := h
    have others := ih plain.2 hrest
    obtain ⟨id, key, w, rfl, held⟩ := (readProperty_eq_ok _ v c).mp hc
    rw [plain.1.1.2.takeOut] at held
    rcases held with ⟨-, a, ha, rfl⟩ | ⟨-, r, hr, rfl⟩
    · obtain rfl := Except.ok.inj h
      simpa [propertyNames, propertyName, name_of_readAttribute ha] using others
    · -- The names of attributes come before the name of the relationship.
      obtain rfl := Except.ok.inj h
      rw [List.map_cons, propertyName, ← name_of_readRelationship hr]
      exact (others.cons r.name).trans List.perm_middle.symm

/-! ### Entities -/

/-- The members under a key of a plain value are as they should be exactly if there are none or they
are those of a list, for properties that no texts have. -/
theorem hasMembers_iff {P : List Value → Prop} {v : Value} (plain : v.IsPlain) (key : String)
    (nil : P []) (texts : ∀ m ms s, m.text? = some s → ¬ P (m :: ms)) :
    HasMembers P key v ↔ ∃ ms, members key v = .ok ms ∧ P ms := by
  have hplain := plain.get key
  rw [HasMembers, members]
  generalize v.get key = w at hplain ⊢
  cases ht : w.truthy with
  | false => simpa using nil
  | true =>
    simp only [Bool.true_eq_false, false_or, if_true]
    cases w with
    | atom id a =>
      simp only [reduceCtorEq, false_and, exists_false, false_iff]
      rintro ⟨ms, hms, hp⟩
      cases a with
      | text s =>
        obtain ⟨c, cs, hs⟩ : ∃ c cs, s.toList = c :: cs := by
          apply List.exists_cons_of_ne_nil
          simpa [Value.truthy, Atom.truthy] using ht
        simp only [Value.items, Atom.items?, hs, List.map_cons, Except.ok.injEq] at hms
        exact texts _ _ _ rfl (hms ▸ hp)
      | null => cases hms
      | bool b => cases hms
      | int i => cases hms
      | _ => cases hplain
    | seq id kind items =>
      obtain rfl := hplain.1
      simp [Value.items, hplain.map_takeOut]
    | dict id entries =>
      simp only [reduceCtorEq, false_and, exists_false, false_iff]
      rintro ⟨ms, hms, hp⟩
      obtain ⟨⟨k, w⟩, es, rfl⟩ : ∃ e es, entries = e :: es := by
        apply List.exists_cons_of_ne_nil
        simpa [Value.truthy] using ht
      obtain ⟨⟨⟨s, hs⟩, -⟩, -⟩ := hplain
      obtain rfl := Except.ok.inj hms
      exact texts _ _ _ hs hp
    | loop id kind => cases hplain

/-- A plain value has members exactly if it is none that counts as true, or a list, a text or a
mapping. -/
theorem exists_members_eq_ok {v : Value} (plain : v.IsPlain) (key : String) :
    (∃ ms, members key v = .ok ms) ↔
      (v.get key).truthy = false ∨ (∃ id items, v.get key = .seq id .list items) ∨
        (∃ s, (v.get key).text? = some s) ∨ IsMapping (v.get key) := by
  have hplain := plain.get key
  rw [members]
  generalize v.get key = w at hplain ⊢
  cases ht : w.truthy with
  | false => simp
  | true =>
    simp only [if_true, Bool.true_eq_false, false_or]
    cases w with
    | atom id a =>
      cases a <;> simp_all [Value.items, Atom.items?, Value.text?, IsMapping, Value.IsPlain,
        Atom.isPlain]
    | seq id kind items =>
      obtain rfl := hplain.1
      simp [Value.items]
    | dict id entries => simp [Value.items, IsMapping]
    | loop id kind => cases hplain

private theorem not_areProperties_of_text? (m : Value) (ms : List Value) (s : String)
    (h : m.text? = some s) : ¬ AreProperties (m :: ms) := by
  intro hp
  cases hp.each m List.mem_cons_self <;> cases h

private theorem isPlain_propertyName {v : Value} (plain : v.IsPlain) :
    (propertyName v).IsPlain := by
  unfold propertyName
  split
  · next id k w => exact Value.IsPlain.get plain.1.2 "name"
  · rfl

private theorem areProperties_iff (path : String) {vs : List Value} (plain : ∀ v ∈ vs, v.IsPlain) :
    AreProperties vs ↔ ∃ p, readProperties path 0 vs = .ok p ∧
      DistinctNames (propertyNames p.attributes p.relationships) := by
  constructor
  · rintro ⟨each, distinct⟩
    obtain ⟨p, hp⟩ := (exists_readProperties_eq_ok path 0 plain).mpr each
    refine ⟨p, hp, distinct.perm (perm_propertyNames_of_readProperties plain hp) ?_⟩
    exact List.forall_mem_map.mpr fun v hv ↦ isPlain_propertyName (plain v hv)
  · rintro ⟨p, hp, distinct⟩
    have perm := perm_propertyNames_of_readProperties plain hp
    refine ⟨(exists_readProperties_eq_ok path 0 plain).mp ⟨p, hp⟩, distinct.perm perm.symm ?_⟩
    intro n hn
    obtain ⟨v, hv, rfl⟩ := List.mem_map.mp (perm.mem_iff.mpr hn)
    exact isPlain_propertyName (plain v hv)

/-- The members of a plain value are plain. -/
theorem isPlain_of_members {v : Value} (plain : v.IsPlain) {key : String} {ms : List Value}
    (h : members key v = .ok ms) : ∀ m ∈ ms, m.IsPlain := by
  have hplain := plain.get key
  rw [members] at h
  generalize v.get key = w at hplain h
  split at h
  · cases w with
    | atom id a =>
      cases a with
      | text s =>
        obtain rfl := Except.ok.inj h
        exact List.forall_mem_map.mpr fun c _ ↦ rfl
      | null => cases h
      | bool b => cases h
      | int i => cases h
      | _ => cases hplain
    | seq id kind items =>
      obtain rfl := Except.ok.inj h
      rw [hplain.map_takeOut]
      exact (Value.arePlain_iff _).mp hplain.2
    | dict id entries =>
      obtain rfl := Except.ok.inj h
      refine List.forall_mem_map.mpr fun e he ↦ ?_
      obtain ⟨⟨s, hs⟩, -⟩ := (Value.arePlainEntries_iff _).mp hplain e he
      exact Value.isPlain_of_text? hs
    | loop id kind => cases hplain
  · obtain rfl := Except.ok.inj h
    simp

/-- An entity is read exactly if a plain mapping declares one. -/
theorem exists_readEntity_eq_ok (path : String) {v : Value} (plain : v.IsPlain) :
    (∃ e, readEntity path v = .ok e) ↔ IsEntity v := by
  have properties := hasMembers_iff plain "properties" (P := AreProperties)
    ⟨by simp, by simp, by simp⟩ not_areProperties_of_text?
  simp only [readEntity, Success.bind_eq_ok, Success.liftM_eq_ok, require_eq_ok]
  constructor
  · rintro ⟨e, _, hmapping, name, ⟨-, rfl⟩, ms, hms, p, hp, b, hb, unique, hunique, he⟩
    obtain ⟨named, distinct⟩ := (EntityDecl.exists_make_eq_ok _ _ _ _ _ _).mp ⟨e, he⟩
    have declared := (areProperties_iff path (isPlain_of_members plain hms)).mpr ⟨p, hp, distinct⟩
    exact ⟨(checkMapping_eq_ok path v).mp hmapping, named,
      properties.mpr ⟨ms, hms, declared⟩, (exists_flag_eq_ok _ _ _ _).mp ⟨b, hb⟩,
      (exists_members_eq_ok plain "unique").mp ⟨unique, hunique⟩⟩
  · rintro ⟨hmapping, named, hproperties, hb, hunique⟩
    obtain ⟨ms, hms, declared⟩ := properties.mp hproperties
    obtain ⟨p, hp, distinct⟩ := (areProperties_iff path (isPlain_of_members plain hms)).mp declared
    obtain ⟨b, hb⟩ := (exists_flag_eq_ok path "abstract" false v).mpr hb
    obtain ⟨unique, hunique⟩ := (exists_members_eq_ok plain "unique").mpr hunique
    obtain ⟨e, he⟩ := (EntityDecl.exists_make_eq_ok (v.get "name") p.attributes p.relationships b
      (v.get "bound_type") unique).mpr ⟨named, distinct⟩
    exact ⟨e, (), (checkMapping_eq_ok path v).mpr hmapping, _,
      ⟨among_empty_of_truthy named, rfl⟩, ms, hms, p, hp, b, hb, unique, hunique, he⟩

/-! ### Documents -/

/-- Entities are read exactly if each of some plain values declares one. -/
theorem exists_readEntities_eq_ok (i : Nat) {vs : List Value} (plain : ∀ v ∈ vs, v.IsPlain) :
    (∃ es, readEntities i vs = .ok es) ↔ ∀ v ∈ vs, IsEntity v := by
  induction vs generalizing i with
  | nil => simp [readEntities]
  | cons v vs ih =>
    rw [List.forall_mem_cons] at plain ⊢
    rw [← ih (i + 1) plain.2, ← exists_readEntity_eq_ok (memberPath "entities" i) plain.1]
    simp only [readEntities, Success.bind_eq_ok]
    constructor
    · rintro ⟨_, e, he, es, hes, -⟩
      exact ⟨⟨e, he⟩, es, hes⟩
    · rintro ⟨⟨e, he⟩, es, hes⟩
      exact ⟨_, e, he, es, hes, rfl⟩

/-- The version of a mapping is read exactly if there is none or it is an integer above zero. -/
theorem readVersion_eq_ok (v w : Value) :
    readVersion v = .ok w ↔
      (∃ i, w.int? = some i ∧ 0 < i) ∧ (v.get? "version").getD Model.defaultVersion = w := by
  rw [readVersion]
  generalize (v.get? "version").getD Model.defaultVersion = version
  constructor
  · intro h
    split at h
    · next n hn =>
      obtain rfl := Except.ok.inj h
      exact ⟨⟨_, hn, Int.natCast_succ_pos n⟩, rfl⟩
    · cases hi : version.inspect <;>
        simp [hi, SchemaError.raise, bind, Except.bind] at h
  · rintro ⟨⟨i, hi, positive⟩, rfl⟩
    obtain ⟨n, rfl⟩ : ∃ n : Nat, i = .ofNat (n + 1) := ⟨i.toNat - 1, by simp; omega⟩
    rw [hi]

/-- A document gives no version or one above zero exactly if its version is above zero. -/
theorem version_iff (v : Value) :
    (∃ i, ((v.get? "version").getD Model.defaultVersion).int? = some i ∧ 0 < i) ↔
      ∀ w, v.get? "version" = some w → ∃ i, w.int? = some i ∧ 0 < i := by
  cases v.get? "version" with
  | none => simpa using ⟨1, rfl, by decide⟩
  | some w => simp

/-- Entries that are entities are those entities. -/
theorem entities_map_entity (es : List EntityDecl) : Entry.entities (es.map .entity) = .ok es := by
  induction es with
  | nil => rfl
  | cons e es ih => rw [List.map_cons, Entry.entities, ih, Except.map]

/-- A model is made of entities and a version that is not at most zero. -/
theorem make_eq_ok (name : Value) {version : Value} (es : List EntityDecl)
    (h : version.atMostZero = .ok false) :
    Model.make name version (es.map .entity) = .ok ⟨name, version, es, h⟩ := by
  rw [Model.make, entities_map_entity]
  split
  · next hf => cases h.symm.trans hf
  · next hf => cases h.symm.trans hf
  · rfl

/-- A model holds the entities that it is made of. -/
theorem entities_of_make {name version : Value} {es : List EntityDecl} {m : Model}
    (h : Model.make name version (es.map .entity) = .ok m) : m.entities = es := by
  unfold Model.make at h
  rw [entities_map_entity] at h
  split at h
  · cases h
  · obtain ⟨shown, -, h⟩ := (Success.bind_eq_ok _ _ _).mp h
    cases h
  · obtain rfl := Except.ok.inj h
    rfl

/-- A model of entities has any version that is an integer above zero. -/
theorem exists_make_eq_ok (name : Value) {version : Value} (es : List EntityDecl)
    (h : ∃ i, version.int? = some i ∧ 0 < i) :
    ∃ m, Model.make name version (es.map .entity) = .ok m := by
  obtain ⟨i, hi, positive⟩ := h
  exact ⟨_, make_eq_ok name es (Value.atMostZero_of_int? hi positive)⟩

/-- A plain value is read as a model exactly if it is a document. -/
theorem exists_read_eq_ok {v : Value} (plain : v.IsPlain) :
    (∃ m, read v = .ok m) ↔ IsDocument v := by
  have entities := hasMembers_iff plain "entities" (P := (∀ w ∈ ·, IsEntity w)) (by simp) ?_
  · simp only [read, Success.bind_eq_ok, Success.liftM_eq_ok, readVersion_eq_ok]
    constructor
    · rintro ⟨m, _, hmapping, ms, hms, es, hes, version, ⟨hversion, rfl⟩, hm⟩
      have declared := (exists_readEntities_eq_ok 0 (isPlain_of_members plain hms)).mp ⟨es, hes⟩
      exact ⟨(checkMapping_eq_ok _ v).mp hmapping, (version_iff v).mp hversion,
        entities.mpr ⟨ms, hms, declared⟩⟩
    · rintro ⟨hmapping, hversion, hentities⟩
      obtain ⟨ms, hms, declared⟩ := entities.mp hentities
      obtain ⟨es, hes⟩ :=
        (exists_readEntities_eq_ok 0 (isPlain_of_members plain hms)).mpr declared
      have hversion := (version_iff v).mpr hversion
      obtain ⟨m, hm⟩ := exists_make_eq_ok ((v.get? "name").getD Model.defaultName) es hversion
      exact ⟨m, (), (checkMapping_eq_ok _ v).mpr hmapping, ms, hms, es, hes, _,
        ⟨hversion, rfl⟩, hm⟩
  · intro m ms s hs h
    obtain ⟨id, entries, rfl⟩ := (h m List.mem_cons_self).mapping
    cases hs

/-- A document of one entity with an attribute and a relationship. -/
def exampleDocument : Value :=
  .record
    [("name", .text "Notes"), ("version", .int 2), ("entities", .list
      [.record
        [("name", .text "Note"), ("unique", .list [.text "title"]), ("properties", .list
          [.record [("attribute", .record
            [("name", .text "title"), ("type", .text "string"), ("optional", .bool false),
              ("default", .text "untitled")])],
            .record [("relationship", .record
              [("name", .text "next"), ("destination", .text "Note"),
                ("delete_rule", .text "cascade")])]])]])]

/-- The example is read as a model, and is a document in return. -/
theorem exists_read_eq_ok_example :
    exampleDocument.IsPlain ∧ (∃ m, read exampleDocument = .ok m) ∧ IsDocument exampleDocument := by
  have plain : exampleDocument.IsPlain := by
    simp [exampleDocument, Value.record, Value.list, Value.text, Value.int, Value.bool,
      Value.IsPlain, Value.ArePlain, Value.ArePlainEntries, Value.text?, Atom.isPlain]
  have accepted : ∃ m, read exampleDocument = .ok m := by
    have succeeds : (read exampleDocument).toOption.isSome = true := by decide +kernel
    cases h : read exampleDocument with
    | ok m => exact ⟨m, rfl⟩
    | error e => simp [h, Except.toOption] at succeeds
  exact ⟨plain, accepted, (exists_read_eq_ok plain).mp accepted⟩

end EntityGraph.Document
