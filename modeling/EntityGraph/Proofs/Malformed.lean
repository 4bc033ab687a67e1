import EntityGraph.Proofs.Misuse

/-!
# Documents that are refused

Reading a plain value that is no document fails, with a report of what is wrong or with the misuse
of a value that no check looked at. Which plain values are refused without a report is said of what
they hold, in the order in which they are read: all that comes before is as it should be, and the
first thing that is not escapes.
-/

namespace EntityGraph.Document

open Success (First Fails first_nil first_cons_iff)

/-! ### Attributes and relationships -/

/-- The flags of an attribute, in the order in which they are read. -/
def attributeFlags : List String := ["optional", "external_storage", "preserve_on_delete"]

/-- The flags of a relationship, in the order in which they are read. -/
def relationshipFlags : List String := ["to_many", "optional"]

/-- A mapping that is read as an attribute up to a flag that cannot be shown, or up to a name that
does not count as true or a default that is refused and cannot be reported. -/
structure AttributeEscapes (v : Value) : Prop where
  mapping : IsMapping v
  name : Gives "name" v
  typed : ∃ type default, (v.get "type").text? = some (ScalarType.tag type) ∧
    type.decode (v.get "default") = .ok default ∧
    (FlagsEscape attributeFlags v ∨ (∀ key ∈ attributeFlags, HasFlag key v) ∧
      ((v.get "name").truthy = false ∨ DefaultEscapes (v.get "name") type default))

/-- A mapping that is read as a relationship up to a flag that cannot be shown, or up to a name or a
destination that does not count as true. -/
structure RelationshipEscapes (v : Value) : Prop where
  mapping : IsMapping v
  deleteRule : ∀ w, v.get? "delete_rule" = some w → ∃ rule : DeleteRule, w.text? = some rule.tag
  name : Gives "name" v
  destination : Gives "destination" v
  unread : FlagsEscape relationshipFlags v ∨ (∀ key ∈ relationshipFlags, HasFlag key v) ∧
    ((v.get "name").truthy = false ∨ (v.get "destination").truthy = false)

/-- Flags that are read without an escape, and what follows them: no flag is left. -/
theorem flags_nil (v : Value) (E : Prop) :
    (FlagsEscape [] v ∨ (∀ key ∈ [], HasFlag key v) ∧ E) ↔ E := by
  simp [FlagsEscape]

/-- Flags that are read without an escape, and what follows them: one flag after the other. -/
theorem flags_cons (key : String) (keys : List String) (v : Value) (E : Prop) :
    (FlagsEscape (key :: keys) v ∨ (∀ k ∈ key :: keys, HasFlag k v) ∧ E) ↔
      FlagEscapes key v ∨ HasFlag key v ∧
        (FlagsEscape keys v ∨ (∀ k ∈ keys, HasFlag k v) ∧ E) := by
  rw [FlagsEscape, first_cons_iff, List.forall_mem_cons, ← FlagsEscape]
  tauto

/-- What is required of a plain value is plain. -/
theorem isPlain_of_require {v w : Value} (plain : v.IsPlain) {path key : String}
    (h : require path key v = .ok w) : w.IsPlain := by
  obtain ⟨-, rfl⟩ := (require_eq_ok _ _ _ _).mp h
  exact plain.get key

/-- Reading an attribute fails with the misuse of a value exactly if something in it escapes. -/
private theorem misuses_readAttribute {v : Value} (plain : v.IsPlain) (path : String) :
    Misuses (AttributeEscapes v) (readAttribute path v) := by
  refine ((misuses_checkMapping path v).bind fun _ _ ↦
    (misuses_require path "name" v).bind fun name hname ↦
    (misuses_require path "type" v).bind fun tag htag ↦
    (misuses_readType (isPlain_of_require plain htag) path).bind fun type _ ↦
    (misuses_decode path type (v.get "default")).bind fun default _ ↦
    (misuses_flag plain path "optional" true).bind fun _ _ ↦
    (misuses_flag plain path "external_storage" false).bind fun _ _ ↦
    (misuses_flag plain path "preserve_on_delete" false).bind fun _ _ ↦
    misuses_makeAttribute (isPlain_of_require plain hname) type _).congr ?_
  simp only [false_or, exists_and_right, exists_flag_eq_ok, require_eq_ok, located_eq_ok,
    ScalarType.read_eq_ok, checkMapping_eq_ok path v]
  rw [← exists_and_right]
  constructor
  · rintro ⟨-, mapping, _, ⟨hname, rfl⟩, _, ⟨-, rfl⟩, type, htype, default, hdefault, h⟩
    refine ⟨mapping, hname, type, default, htype, hdefault, ?_⟩
    simpa only [attributeFlags, flags_cons, flags_nil] using h
  · rintro ⟨mapping, hname, type, default, htype, hdefault, h⟩
    simp only [attributeFlags, flags_cons, flags_nil] at h
    exact ⟨(), mapping, _, ⟨hname, rfl⟩, _, ⟨among_empty_of_tag htype, rfl⟩, type, htype, default,
      hdefault, h⟩

/-- Reading a relationship fails with the misuse of a value exactly if something in it escapes. -/
private theorem misuses_readRelationship {v : Value} (plain : v.IsPlain) (path : String) :
    Misuses (RelationshipEscapes v) (readRelationship path v) := by
  have tag : ((v.get? "delete_rule").getD (.text DeleteRule.nullify.tag)).IsPlain := by
    cases hw : v.get? "delete_rule" with
    | none => rfl
    | some w => exact plain.get? hw
  refine ((misuses_checkMapping path v).bind fun _ _ ↦
    (misuses_readRule tag path).bind fun rule _ ↦
    (misuses_require path "name" v).bind fun name hname ↦
    (misuses_require path "destination" v).bind fun destination _ ↦
    (misuses_flag plain path "to_many" false).bind fun _ _ ↦
    (misuses_flag plain path "optional" true).bind fun _ _ ↦
    misuses_makeRelationship (isPlain_of_require plain hname) destination _).congr ?_
  simp only [false_or, exists_and_right, exists_flag_eq_ok, require_eq_ok, located_eq_ok,
    DeleteRule.read_eq_ok, deleteRule_iff, checkMapping_eq_ok path v]
  rw [← exists_and_right]
  constructor
  · rintro ⟨-, mapping, hrule, _, ⟨hname, rfl⟩, _, ⟨hdestination, rfl⟩, h⟩
    refine ⟨mapping, hrule, hname, hdestination, ?_⟩
    simpa only [relationshipFlags, flags_cons, flags_nil] using h
  · rintro ⟨mapping, hrule, hname, hdestination, h⟩
    simp only [relationshipFlags, flags_cons, flags_nil] at h
    exact ⟨(), mapping, hrule, _, ⟨hname, rfl⟩, _, ⟨hdestination, rfl⟩, h⟩

/-! ### Properties -/

/-- A mapping of one entry, which is an attribute or a relationship that escapes. -/
inductive PropertyEscapes : Value → Prop
  | attribute (id : Identity) (key v : Value) (hkey : key.text? = some "attribute")
    (hv : AttributeEscapes v) : PropertyEscapes (.dict id [(key, v)])
  | relationship (id : Identity) (key v : Value) (hkey : key.text? = some "relationship")
    (hv : RelationshipEscapes v) : PropertyEscapes (.dict id [(key, v)])

/-- The name that a mapping of one entry holds, if the entry is of a kind. -/
def nameUnder (kind : String) (v : Value) : Option Value :=
  onlyEntry? v |>.bind fun (key, inner) ↦ if key = kind then some (inner.get "name") else none

/-- The names that properties hold, those of attributes before those of relationships. -/
def orderedNames (vs : List Value) : List Value :=
  vs.filterMap (nameUnder "attribute") ++ vs.filterMap (nameUnder "relationship")

/-- Reading a property fails with the misuse of a value exactly if it escapes. -/
private theorem misuses_readProperty {v : Value} (plain : v.IsPlain) (path : String) :
    Misuses (PropertyEscapes v) (readProperty path v) := by
  have inside : ∀ {id key inner}, v = .dict id [(key, inner)] → inner.IsPlain := by
    rintro id key inner rfl
    exact plain.1.2
  refine ((misuses_checkMapping path v).bind (G := fun _ ↦ PropertyEscapes v)
    fun _ _ ↦ ?_).congr ?_
  · split
    · next inner entry =>
      obtain ⟨id, key, rfl, hkey⟩ := (onlyEntry_eq_some_of_isPlain plain _ _).mp entry
      refine ((misuses_readAttribute (inside rfl) _).map _).congr ⟨.attribute id key inner hkey, ?_⟩
      rintro (⟨_, _, _, -, hv⟩ | ⟨_, _, _, other, -⟩)
      · exact hv
      · exact absurd (hkey.symm.trans other) (by decide)
    · next inner entry =>
      obtain ⟨id, key, rfl, hkey⟩ := (onlyEntry_eq_some_of_isPlain plain _ _).mp entry
      refine ((misuses_readRelationship (inside rfl) _).map _).congr
        ⟨.relationship id key inner hkey, ?_⟩
      rintro (⟨_, _, _, other, -⟩ | ⟨_, _, _, -, hv⟩)
      · exact absurd (hkey.symm.trans other) (by decide)
      · exact hv
    · next noAttribute noRelationship =>
      refine (misuses_refuse _ _).congr ⟨False.elim, ?_⟩
      rintro (⟨id, key, inner, hkey, -⟩ | ⟨id, key, inner, hkey, -⟩)
      · exact noAttribute inner ((onlyEntry_eq_some_of_isPlain plain _ _).mpr ⟨id, key, rfl, hkey⟩)
      · exact noRelationship inner ((onlyEntry_eq_some_of_isPlain plain _ _).mpr
          ⟨id, key, rfl, hkey⟩)
  · simp only [false_or, exists_and_right]
    refine and_iff_right_of_imp fun escapes ↦ ⟨(), ?_⟩
    rw [checkMapping_eq_ok]
    obtain ⟨id, key, inner, -, -⟩ | ⟨id, key, inner, -, -⟩ := escapes
    · exact ⟨id, _, rfl⟩
    · exact ⟨id, _, rfl⟩

/-- Reading properties fails with the misuse of a value exactly if the first one that is no property
escapes. -/
private theorem misuses_readProperties (path : String) (i : Nat) {vs : List Value}
    (plain : ∀ v ∈ vs, v.IsPlain) :
    Misuses (First IsProperty PropertyEscapes vs) (readProperties path i vs) := by
  induction vs generalizing i with
  | nil => exact .ok _ (first_nil _ _)
  | cons v vs ih =>
    obtain ⟨hv, hvs⟩ := List.forall_mem_cons.mp plain
    rw [readProperties]
    have escapes : First IsProperty PropertyEscapes (v :: vs) ↔
        PropertyEscapes v ∨ ∃ c, readProperty (memberPath (path ++ ".properties") i) v = .ok c ∧
          (First IsProperty PropertyEscapes vs ∨
            ∃ rest, readProperties path (i + 1) vs = .ok rest ∧ False) := by
      simp only [and_false, exists_false, or_false, exists_and_right,
        exists_readProperty_eq_ok _ hv, first_cons_iff]
    refine ((misuses_readProperty hv _).bind fun c _ ↦
      (ih (i + 1) hvs).bind fun rest _ ↦ ?_).congr escapes.symm
    cases c <;> exact .ok _ not_false

/-- The names of read properties are those that the values hold. -/
private theorem propertyNames_of_readProperties {path : String} {i : Nat} {vs : List Value}
    {p : Properties} (h : readProperties path i vs = .ok p) :
    propertyNames p.attributes p.relationships = orderedNames vs := by
  have names : p.attributes.map (·.name) = vs.filterMap (nameUnder "attribute") ∧
      p.relationships.map (·.name) = vs.filterMap (nameUnder "relationship") := by
    induction vs generalizing i p with
    | nil =>
      obtain rfl := Except.ok.inj h
      exact ⟨rfl, rfl⟩
    | cons v vs ih =>
      simp only [readProperties, Success.bind_eq_ok] at h
      obtain ⟨c, hc, rest, hrest, h⟩ := h
      obtain ⟨attributes, relationships⟩ := ih hrest
      obtain ⟨id, key, w, rfl, ⟨hkey, a, ha, rfl⟩ | ⟨hkey, r, hr, rfl⟩⟩ :=
        (readProperty_eq_ok _ v c).mp hc
      · obtain rfl := Except.ok.inj h
        have entry := (onlyEntry_eq_some _ _ _).mpr ⟨id, key, w, rfl, hkey, rfl⟩
        simp [nameUnder, entry, attributes, relationships, name_of_readAttribute ha]
      · obtain rfl := Except.ok.inj h
        have entry := (onlyEntry_eq_some _ _ _).mpr ⟨id, key, w, rfl, hkey, rfl⟩
        simp [nameUnder, entry, attributes, relationships, name_of_readRelationship hr]
  rw [propertyNames, names.1, names.2, orderedNames]

/-! ### Entities -/

/-- Names of properties of which the first one that is no key or is repeated cannot be reported: it
is no key, or it or the name of the entity cannot be shown. -/
def NamesEscape (entity : Value) (names : List Value) : Prop :=
  ∃ before n after, names = before ++ n :: after ∧ DistinctNames before ∧
    (n.checkKey ≠ .ok () ∨ n.among before = true ∧ ¬ (n.IsShown ∧ entity.IsShown))

/-- A value holds the truth or a number other than zero under a key: neither has members. -/
def HasNoMembers (key : String) (v : Value) : Prop :=
  (v.get key).bool? = some true ∨ ∃ i, (v.get key).int? = some i ∧ i ≠ 0

/-- A mapping that is read as an entity up to something that has no members, a property that
escapes, a flag that cannot be shown, or names that cannot be used and not be reported. -/
structure EntityEscapes (v : Value) : Prop where
  mapping : IsMapping v
  name : Gives "name" v
  unread : HasNoMembers "properties" v ∨ ∃ ms, members "properties" v = .ok ms ∧
    (First IsProperty PropertyEscapes ms ∨ (∀ m ∈ ms, IsProperty m) ∧
      (FlagEscapes "abstract" v ∨ HasFlag "abstract" v ∧
        (HasNoMembers "unique" v ∨ (v.get "name").truthy = false ∨
          NamesEscape (v.get "name") (orderedNames ms))))

private theorem misuses_duplicate {entity n : Value} (hentity : entity.IsPlain) (hn : n.IsPlain) :
    Misuses (¬ (n.IsShown ∧ entity.IsShown))
      ((SchemaError.duplicateProperty entity n).raise : Except Failure Unit) := by
  have formal : (SchemaError.duplicateProperty entity n).IsOfDocument := trivial
  refine misuses_raise formal (fun ⟨shown, shown'⟩ ↦ ?_) fun hidden ↦ ?_
  · obtain ⟨t, ht⟩ := hn.exists_display_iff.mpr shown
    obtain ⟨u, hu⟩ := hentity.exists_display_iff.mpr shown'
    simp only [SchemaError.message, ht, hu]
    exact ⟨_, rfl⟩
  · cases hd : n.display with
    | error f =>
      simp [SchemaError.message, hd, hn.eq_tooLong_of_display hd, bind, Except.bind]
    | ok t =>
      have hidden' : ¬ entity.IsShown := fun h ↦ hidden ⟨hn.exists_display_iff.mp ⟨t, hd⟩, h⟩
      simp [SchemaError.message, hd, hentity.display_eq_error hidden', bind, Except.bind]

/-- Names that pass the check after some others, followed by a bad one: the bad one is the first, or
the first passes and the rest has a bad one. -/
private theorem exists_checked_cons_iff (refuse : Value → SchemaError)
    (bad : List Value → Value → Prop) (seen : List Value) (n : Value) (names : List Value) :
    (∃ before m after, n :: names = before ++ m :: after ∧
        checkDistinct refuse seen before = .ok () ∧ bad (seen ++ before) m) ↔
      bad seen n ∨ (n.checkKey = .ok () ∧ n.among seen = false) ∧
        ∃ before m after, names = before ++ m :: after ∧
          checkDistinct refuse (seen ++ [n]) before = .ok () ∧ bad (seen ++ [n] ++ before) m := by
  constructor
  · rintro ⟨before, m, after, hsplit, hbefore, hm⟩
    cases before with
    | nil =>
      obtain ⟨rfl, -⟩ := List.cons.inj hsplit
      exact .inl (by simpa using hm)
    | cons m' before =>
      obtain ⟨rfl, rfl⟩ := List.cons.inj hsplit
      obtain ⟨hk, hs, hrest⟩ := checkDistinct_cons.mp hbefore
      exact .inr ⟨⟨hk, hs⟩, before, m, after, rfl, hrest, by simpa using hm⟩
  · rintro (hn | ⟨⟨hk, hs⟩, before, m, after, rfl, hbefore, hm⟩)
    · exact ⟨[], n, names, rfl, rfl, by simpa using hn⟩
    · exact ⟨n :: before, m, after, rfl, checkDistinct_cons.mpr ⟨hk, hs, hbefore⟩,
        by simpa using hm⟩

/-- The names of properties that come after some others are checked with the misuse of a value
exactly if they escape. -/
private theorem misuses_checkDistinct {entity : Value} (hentity : entity.IsPlain)
    (seen names : List Value) (plain : ∀ n ∈ names, n.IsPlain) :
    Misuses (∃ before n after, names = before ++ n :: after ∧
        checkDistinct (.duplicateProperty entity) seen before = .ok () ∧
        (n.checkKey ≠ .ok () ∨ n.among (seen ++ before) = true ∧ ¬ (n.IsShown ∧ entity.IsShown)))
      (checkDistinct (.duplicateProperty entity) seen names) := by
  induction names generalizing seen with
  | nil => exact .ok () (by simp)
  | cons n names ih =>
    obtain ⟨hn, hnames⟩ := List.forall_mem_cons.mp plain
    have split := exists_checked_cons_iff (.duplicateProperty entity) (fun seen n ↦
      n.checkKey ≠ .ok () ∨ n.among seen = true ∧ ¬ (n.IsShown ∧ entity.IsShown)) seen n names
    cases hk : n.checkKey with
    | error f =>
      have failed : checkDistinct (.duplicateProperty entity) seen (n :: names) =
          .error (.fault f) := by
        simp only [checkDistinct, hk]
        rfl
      rw [failed]
      exact .second (.inl (congrArg some (hn.kind_of_checkKey hk)))
        (split.mpr (.inl (.inl (by simp [hk]))))
    | ok u =>
      cases hs : n.among seen with
      | true =>
        have failed : checkDistinct (.duplicateProperty entity) seen (n :: names) =
            (SchemaError.duplicateProperty entity n).raise := by
          simp only [checkDistinct, hk, hs]
          rfl
        rw [failed]
        refine (misuses_duplicate hentity hn).congr (Iff.trans ?_ split.symm)
        simp [hk, hs]
      | false =>
        simp only [checkDistinct, hk, hs]
        refine (ih (seen ++ [n]) hnames).congr (Iff.trans ?_ split.symm)
        simp [hk, hs]

/-- An entity whose name does not count as true, or whose properties have names that escape, is
refused in vain. -/
private theorem misuses_makeEntity {name : Value} (plain : name.IsPlain)
    (attributes : List AttributeDecl) (relationships : List RelationshipDecl)
    (hnames : ∀ n ∈ propertyNames attributes relationships, n.IsPlain) (isAbstract : Bool)
    (boundType : Value) (unique : List Value) :
    Misuses (name.truthy = false ∨ NamesEscape name (propertyNames attributes relationships))
      (EntityDecl.make name attributes relationships isAbstract boundType unique) := by
  have checked := (misuses_checkDistinct plain [] _ hnames).congr
    (F := NamesEscape name (propertyNames attributes relationships))
    (by simp only [NamesEscape, checkDistinct_eq_ok_iff, List.nil_append])
  unfold EntityDecl.make
  split
  · next named =>
    split
    · next distinct =>
      rw [distinct] at checked
      cases checked with
      | ok _ h => exact .ok _ (by simp [named, h])
    · next e failed =>
      rw [failed] at checked
      exact checked.cast.congr (by simp [named])
  · next named => exact .second (.inr rfl) (.inl (Bool.not_eq_true _ ▸ named))

/-- A plain value has no members under a key exactly if it is the truth or a number other than zero
there. -/
theorem hasNoMembers_iff {v : Value} (plain : v.IsPlain) (key : String) :
    HasNoMembers key v ↔ ¬ ∃ ms, members key v = .ok ms := by
  have hplain := plain.get key
  rw [exists_members_eq_ok plain, HasNoMembers]
  generalize v.get key = w at hplain ⊢
  cases w with
  | atom id a =>
    cases a with
    | null | bool | int | text =>
      simp [Value.bool?, Value.int?, Value.text?, Value.truthy, Atom.truthy, IsMapping]
    | _ => cases hplain
  | seq id kind items =>
    obtain rfl := hplain.1
    simp [Value.bool?, Value.int?]
  | dict id entries => simp [Value.bool?, Value.int?, IsMapping]
  | loop id kind => cases hplain

/-- Asking for the members of a plain value fails with the misuse of it exactly if it has none. -/
theorem misuses_members {v : Value} (plain : v.IsPlain) (key : String) :
    Misuses (HasNoMembers key v) (liftM (members key v) : Except Failure (List Value)) := by
  refine (misuses_liftM fun f hf ↦ .inl ?_).congr (hasNoMembers_iff plain key).symm
  rw [members] at hf
  split at hf
  · exact (plain.get key).kind_of_items hf
  · cases hf

private theorem isPlain_orderedNames {vs : List Value} (plain : ∀ v ∈ vs, v.IsPlain) :
    ∀ n ∈ orderedNames vs, n.IsPlain := by
  have held : ∀ kind, ∀ n ∈ vs.filterMap (nameUnder kind), n.IsPlain := by
    intro kind n hn
    obtain ⟨v, hv, held⟩ := List.mem_filterMap.mp hn
    obtain ⟨⟨key, inner⟩, entry, h⟩ := Option.bind_eq_some_iff.mp held
    obtain ⟨id, k, rfl, -⟩ := (onlyEntry_eq_some_of_isPlain (plain v hv) _ _).mp entry
    obtain ⟨-, h⟩ := Option.ite_none_right_eq_some.mp h
    obtain rfl := Option.some.inj h
    exact Value.IsPlain.get (plain _ hv).1.2 "name"
  intro n hn
  rcases List.mem_append.mp hn with hn | hn
  · exact held _ n hn
  · exact held _ n hn

/-- Reading an entity fails with the misuse of a value exactly if something in it escapes. -/
private theorem misuses_readEntity {v : Value} (plain : v.IsPlain) (path : String) :
    Misuses (EntityEscapes v) (readEntity path v) := by
  have members := fun ms (h : liftM (members "properties" v) = (.ok ms : Except Failure _)) ↦
    isPlain_of_members plain ((Success.liftM_eq_ok _ _).mp h)
  have made : ∀ (name : Value) (ms : List Value) (p : Properties) (isAbstract : Bool)
      (unique : List Value), name.IsPlain → (∀ m ∈ ms, m.IsPlain) →
      readProperties path 0 ms = .ok p →
      Misuses (name.truthy = false ∨ NamesEscape name (orderedNames ms))
        (EntityDecl.make name p.attributes p.relationships isAbstract (v.get "bound_type")
          unique) := by
    intro name ms p isAbstract unique hname hms hp
    have names := propertyNames_of_readProperties hp
    rw [← names]
    exact misuses_makeEntity hname _ _ (names ▸ isPlain_orderedNames hms) _ _ _
  refine ((misuses_checkMapping path v).bind fun _ _ ↦
    (misuses_require path "name" v).bind fun name hname ↦
    (misuses_members plain "properties").bind fun ms hms ↦
    (misuses_readProperties path 0 (members ms hms)).bind fun p hp ↦
    (misuses_flag plain path "abstract" false).bind fun b _ ↦
    (misuses_members plain "unique").bind fun unique _ ↦
    made name ms p b unique (isPlain_of_require plain hname) (members ms hms) hp).congr ?_
  simp only [false_or, exists_and_right, exists_flag_eq_ok, require_eq_ok, Success.liftM_eq_ok,
    checkMapping_eq_ok path v]
  have unique : ∀ E, (HasNoMembers "unique" v ∨ (∃ ms, Document.members "unique" v = .ok ms) ∧ E) ↔
      HasNoMembers "unique" v ∨ E := by
    intro E
    rw [hasNoMembers_iff plain]
    tauto
  have each : ∀ ms, Document.members "properties" v = .ok ms →
      ((∃ p, readProperties path 0 ms = .ok p) ↔ ∀ m ∈ ms, IsProperty m) := fun ms hms ↦
    exists_readProperties_eq_ok path 0 (isPlain_of_members plain hms)
  simp only [unique]
  rw [← exists_and_right]
  constructor
  · rintro ⟨-, mapping, _, ⟨hname, rfl⟩, h⟩
    refine ⟨mapping, hname, h.imp_right ?_⟩
    rintro ⟨ms, hms, h⟩
    exact ⟨ms, hms, h.imp_right (.imp_left (each ms hms).mp)⟩
  · rintro ⟨mapping, hname, h⟩
    refine ⟨(), mapping, _, ⟨hname, rfl⟩, h.imp_right ?_⟩
    rintro ⟨ms, hms, h⟩
    exact ⟨ms, hms, h.imp_right (.imp_left (each ms hms).mpr)⟩

/-! ### Documents -/

/-- The version of a mapping is no integer above zero, and cannot be shown. -/
def VersionEscapes (v : Value) : Prop :=
  ∃ w, v.get? "version" = some w ∧ (¬ ∃ i, w.int? = some i ∧ 0 < i) ∧ ¬ w.IsShown

/-- A mapping that is read as a document up to something that has no members, an entity that
escapes, or a version that cannot be used and not be shown. -/
structure Escapes (v : Value) : Prop where
  mapping : IsMapping v
  unread : HasNoMembers "entities" v ∨ ∃ ms, members "entities" v = .ok ms ∧
    (First IsEntity EntityEscapes ms ∨ (∀ m ∈ ms, IsEntity m) ∧ VersionEscapes v)

private theorem misuses_readEntities (i : Nat) {vs : List Value} (plain : ∀ v ∈ vs, v.IsPlain) :
    Misuses (First IsEntity EntityEscapes vs) (readEntities i vs) := by
  induction vs generalizing i with
  | nil => exact .ok _ (first_nil _ _)
  | cons v vs ih =>
    obtain ⟨hv, hvs⟩ := List.forall_mem_cons.mp plain
    have last : ∀ es : List EntityDecl, Misuses False (.ok es) := fun es ↦ .ok es not_false
    refine ((misuses_readEntity hv (memberPath "entities" i)).bind fun e _ ↦
      (ih (i + 1) hvs).bind fun es _ ↦ last (e :: es)).congr ?_
    simp only [and_false, exists_false, or_false, exists_and_right, first_cons_iff,
      exists_readEntity_eq_ok _ hv]

/-- Reading a version fails with the misuse of a value exactly if it escapes. -/
private theorem misuses_readVersion {v : Value} (plain : v.IsPlain) :
    Misuses (VersionEscapes v) (readVersion v) := by
  by_cases good : ∃ i, ((v.get? "version").getD Model.defaultVersion).int? = some i ∧ 0 < i
  · rw [(readVersion_eq_ok v _).mpr ⟨good, rfl⟩]
    rw [version_iff] at good
    exact .ok _ fun ⟨w, hw, bad, _⟩ ↦ bad (good w hw)
  · have failed : readVersion v = (do
        let shown ← ((v.get? "version").getD Model.defaultVersion).inspect
        (SchemaError.format ("version must be a positive integer, got " ++ shown) none).raise) := by
      rw [readVersion]
      split
      · next n hn => exact absurd ⟨_, hn, Int.natCast_succ_pos n⟩ good
      · rfl
    rw [version_iff] at good
    obtain ⟨w, hw, bad⟩ : ∃ w, v.get? "version" = some w ∧ ¬ ∃ i, w.int? = some i ∧ 0 < i := by
      simpa using good
    rw [failed, hw, Option.getD_some]
    refine ((misuses_inspect (plain.get? hw)).bind fun _ _ ↦ misuses_format _ _).congr ?_
    simp only [VersionEscapes, hw, Option.some.injEq, exists_eq_left', bad, not_false_iff, true_and,
      and_false, exists_false, or_false]

/-- Reading a plain value fails with the misuse of a value exactly if something in it escapes. -/
private theorem misuses_read {v : Value} (plain : v.IsPlain) : Misuses (Escapes v) (read v) := by
  have made : ∀ (es : List EntityDecl) (version : Value), readVersion v = .ok version →
      Misuses False (Model.make ((v.get? "name").getD Model.defaultName) version
        (es.map .entity)) := by
    intro es version hversion
    obtain ⟨m, hm⟩ := exists_make_eq_ok ((v.get? "name").getD Model.defaultName) es
      ((readVersion_eq_ok v version).mp hversion).1
    rw [hm]
    exact .ok m not_false
  refine ((misuses_checkMapping "schema" v).bind fun _ _ ↦
    (misuses_members plain "entities").bind fun ms hms ↦
    (misuses_readEntities 0 (isPlain_of_members plain
      ((Success.liftM_eq_ok _ _).mp hms))).bind fun es _ ↦
    (misuses_readVersion plain).bind fun version hversion ↦ made es version hversion).congr ?_
  simp only [false_or, exists_and_right, Success.liftM_eq_ok, and_false, exists_false, or_false,
    checkMapping_eq_ok _ v]
  have accepted : ∀ ms, members "entities" v = .ok ms →
      ((∃ es, readEntities 0 ms = .ok es) ↔ ∀ m ∈ ms, IsEntity m) := fun ms hms ↦
    exists_readEntities_eq_ok 0 (isPlain_of_members plain hms)
  constructor
  · rintro ⟨⟨-, mapping⟩, h⟩
    refine ⟨mapping, h.imp_right ?_⟩
    rintro ⟨ms, hms, h⟩
    exact ⟨ms, hms, h.imp_right fun ⟨each, version⟩ ↦ ⟨(accepted ms hms).mp each, version⟩⟩
  · rintro ⟨mapping, h⟩
    refine ⟨⟨(), mapping⟩, h.imp_right ?_⟩
    rintro ⟨ms, hms, h⟩
    exact ⟨ms, hms, h.imp_right fun ⟨each, version⟩ ↦ ⟨(accepted ms hms).mpr each, version⟩⟩

/-- A plain value is read as a model, or refused with a report of what is wrong with it, exactly if
nothing in it escapes. Otherwise the misuse of a value is all that is said. -/
theorem read_reports_iff {v : Value} (plain : v.IsPlain) :
    (((∃ m, read v = .ok m) ∨ ∃ f, read v = .error f ∧ f.IsReported) ↔ ¬ Escapes v) ∧
      (Escapes v → ∃ f, read v = .error f ∧ f.IsMisuse) := by
  have misuses := (misuses_read plain).iff fun f ↦ Failure.IsReported.not_isMisuse
  refine ⟨?_, misuses.mpr⟩
  rw [← misuses]
  cases h : read v with
  | ok m => simp
  | error f =>
    have kinds : f.IsReported ∨ f.IsMisuse := (h ▸ misuses_read plain).of_error
    have apart : f.IsReported → ¬ f.IsMisuse := Failure.IsReported.not_isMisuse
    simp only [reduceCtorEq, exists_false, false_or, Except.error.injEq, exists_eq_left']
    tauto

/-- A document of an entity without a name. -/
def namelessDocument : Value := .record [("entities", .list [.record []])]

/-- The example is refused with a report, and nothing in it escapes. -/
theorem read_reports_iff_nameless : namelessDocument.IsPlain ∧
    (∃ f, read namelessDocument = .error f ∧ f.IsReported) ∧ ¬ Escapes namelessDocument := by
  have plain : namelessDocument.IsPlain := by
    simp [namelessDocument, Value.record, Value.list, Value.text, Value.IsPlain, Value.ArePlain,
      Value.ArePlainEntries, Value.text?]
  have failed : read namelessDocument =
      .error (SchemaError.format "'name' is required" (some "entities[0]")).failure := by cbv
  have refused := isReported_format "'name' is required" (some "entities[0]")
  exact ⟨plain, ⟨_, failed, refused⟩, (read_reports_iff plain).1.mp (.inr ⟨_, failed, refused⟩)⟩

/-- A document whose entities are a number. -/
def numberDocument : Value :=
  .record [("name", .text "Notes"), ("version", .int 1), ("entities", .int 7)]

/-- Not every plain value is read or refused with a report: where the entities are a number, it is
iterated, and the failure is about that. -/
theorem exists_read_unreported : numberDocument.IsPlain ∧
    read numberDocument = .error (.fault (.notIterable "int")) ∧
    ¬ ((∃ m, read numberDocument = .ok m) ∨
      ∃ f, read numberDocument = .error f ∧ f.IsReported) := by
  have plain : numberDocument.IsPlain := by
    simp [numberDocument, Value.record, Value.text, Value.int, Value.IsPlain,
      Value.ArePlainEntries, Value.text?, Atom.isPlain]
  have failed : read numberDocument = .error (.fault (.notIterable "int")) := by cbv
  refine ⟨plain, failed, ?_⟩
  rintro (⟨m, hm⟩ | ⟨f, hf, r, rfl, -⟩)
  · cases failed.symm.trans hm
  · cases failed.symm.trans hf

end EntityGraph.Document
