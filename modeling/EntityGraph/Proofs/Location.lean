import EntityGraph.Proofs.Blame
import EntityGraph.Proofs.Misuse
import EntityGraph.Proofs.ReadBack.Digits

/-!
# Where errors of form are

Reading stops at the first entity that cannot be read, and within it at the first property that
cannot. The path of an error of form leads there: what a path says does not change whether something
is read, and it is handed on to the error as it is.
-/

namespace EntityGraph.Document

open Success (FailsOnly)

/-! ### Paths and success -/

/-- A flag is read as its default where there is none, and as the truth value that there is. -/
theorem flag_eq_ok_iff (path key : String) (default : Bool) (v : Value) (b : Bool) :
    flag path key default v = .ok b ↔
      (v.get? key = none ∧ default = b) ∨ ∃ w, v.get? key = some w ∧ w.bool? = some b := by
  rw [flag]
  cases v.get? key with
  | none => simp
  | some w =>
    cases hb : w.bool? with
    | some c => simp [hb]
    | none => cases hi : w.inspect <;> simp [hb, hi, refuse, SchemaError.raise, bind, Except.bind]

section Paths

variable {path : String} (other : String) {v : Value}

/-- What passes the check for mappings at one path passes it at any path. -/
theorem checkMapping_of_eq_ok {u : Unit} (h : checkMapping path v = .ok u) :
    checkMapping other v = .ok u :=
  (checkMapping_eq_ok other v).mpr ((checkMapping_eq_ok path v).mp h)

private theorem readAttribute_of_eq_ok {a : AttributeDecl} (h : readAttribute path v = .ok a) :
    readAttribute other v = .ok a := by
  simp only [readAttribute, Success.bind_eq_ok, require_eq_ok, located_eq_ok,
    flag_eq_ok_iff] at h ⊢
  obtain ⟨u, mapping, h⟩ := h
  exact ⟨u, checkMapping_of_eq_ok other mapping, h⟩

private theorem readRelationship_of_eq_ok {r : RelationshipDecl}
    (h : readRelationship path v = .ok r) :
    readRelationship other v = .ok r := by
  simp only [readRelationship, Success.bind_eq_ok, require_eq_ok, located_eq_ok,
    flag_eq_ok_iff] at h ⊢
  obtain ⟨u, mapping, h⟩ := h
  exact ⟨u, checkMapping_of_eq_ok other mapping, h⟩

/-- What is read as a property at one path is read as it at any path. -/
theorem readProperty_of_eq_ok {c : Component} (h : readProperty path v = .ok c) :
    readProperty other v = .ok c := by
  rw [readProperty_eq_ok] at h ⊢
  obtain ⟨id, key, inner, rfl, ⟨hkey, a, ha, rfl⟩ | ⟨hkey, r, hr, rfl⟩⟩ := h
  · exact ⟨id, key, inner, rfl, .inl ⟨hkey, a, readAttribute_of_eq_ok _ ha, rfl⟩⟩
  · exact ⟨id, key, inner, rfl, .inr ⟨hkey, r, readRelationship_of_eq_ok _ hr, rfl⟩⟩

private theorem readProperties_of_eq_ok {i : Nat} (j : Nat) {vs : List Value} {p : Properties}
    (h : readProperties path i vs = .ok p) : readProperties other j vs = .ok p := by
  induction vs generalizing i j p with
  | nil => exact h
  | cons v vs ih =>
    simp only [readProperties, Success.bind_eq_ok] at h ⊢
    obtain ⟨c, hc, rest, hrest, h⟩ := h
    exact ⟨c, readProperty_of_eq_ok _ hc, rest, ih (j + 1) hrest, h⟩

private theorem readEntity_of_eq_ok {e : EntityDecl} (h : readEntity path v = .ok e) :
    readEntity other v = .ok e := by
  simp only [readEntity, Success.bind_eq_ok, require_eq_ok, flag_eq_ok_iff] at h ⊢
  obtain ⟨u, mapping, name, hname, ms, hms, p, hp, h⟩ := h
  exact ⟨u, checkMapping_of_eq_ok other mapping, name, hname, ms, hms, p,
    readProperties_of_eq_ok other 0 hp, h⟩

end Paths

/-! ### The first member that is refused -/

/-- The first of some values that a reader refuses, whatever path it is given. -/
structure IsFirstRefused {α : Type} (read : String → Value → Except Failure α) (vs : List Value)
    (i : Nat) (v : Value) : Prop where
  place : vs[i]? = some v
  refused : ∀ path a, read path v ≠ .ok a
  before : ∀ j w, j < i → vs[j]? = some w → ∀ path, ∃ a, read path w = .ok a

/-- A reader of lists reads one member after the other, each at the path of its place, and stops at
the first one that fails. -/
structure ReadsEach {α β : Type} (read : String → Value → Except Failure α) (pathOf : Nat → String)
    (readAll : Nat → List Value → Except Failure β) : Prop where
  nil : ∀ i f, readAll i [] ≠ .error f
  cons : ∀ i v vs f, readAll i (v :: vs) = .error f →
    read (pathOf i) v = .error f ∨
      (∃ a, read (pathOf i) v = .ok a) ∧ readAll (i + 1) vs = .error f
  /-- Paths do not matter for success. -/
  pathless : ∀ path other v a, read path v = .ok a → read other v = .ok a

/-- A reader of lists fails as the first member does that is refused. -/
theorem ReadsEach.exists_isFirstRefused {α β : Type} {read : String → Value → Except Failure α}
    {pathOf : Nat → String} {readAll : Nat → List Value → Except Failure β}
    (h : ReadsEach read pathOf readAll) {i : Nat} {vs : List Value} {f : Failure}
    (failed : readAll i vs = .error f) :
    ∃ j v, IsFirstRefused read vs j v ∧ read (pathOf (i + j)) v = .error f := by
  induction vs generalizing i with
  | nil => exact absurd failed (h.nil i f)
  | cons v vs ih =>
    rcases h.cons i v vs f failed with here | ⟨⟨a, ha⟩, there⟩
    · refine ⟨0, v, ⟨rfl, fun path a ha ↦ ?_, nofun⟩, here⟩
      cases here.symm.trans (h.pathless path _ v a ha)
    · obtain ⟨j, w, first, hw⟩ := ih there
      refine ⟨j + 1, w, ⟨first.place, first.refused, ?_⟩, by rwa [Nat.add_right_comm] at hw⟩
      rintro (_ | k) u hk hu path
      · obtain rfl := Option.some.inj hu
        exact ⟨a, h.pathless _ path v a ha⟩
      · exact first.before k u (Nat.lt_of_succ_lt_succ hk) hu path

private theorem readsEach_properties (path : String) :
    ReadsEach readProperty (memberPath (path ++ ".properties")) (readProperties path) where
  nil _ _ := nofun
  cons i v vs f failed := by
    rw [readProperties, Success.bind_eq_error] at failed
    rcases failed with here | ⟨c, hc, failed⟩
    · exact .inl here
    · rcases (Success.bind_eq_error _ _ _).mp failed with there | ⟨p, -, failed⟩
      · exact .inr ⟨⟨c, hc⟩, there⟩
      · cases c <;> cases failed
  pathless _ other _ _ := readProperty_of_eq_ok other

private theorem readsEach_entities : ReadsEach readEntity (memberPath "entities") readEntities where
  nil _ _ := nofun
  cons i v vs f failed := by
    rw [readEntities, Success.bind_eq_error] at failed
    rcases failed with here | ⟨e, he, failed⟩
    · exact .inl here
    · rcases (Success.bind_eq_error _ _ _).mp failed with there | ⟨es, -, failed⟩
      · exact .inr ⟨⟨e, he⟩, there⟩
      · cases failed
  pathless _ other _ _ := readEntity_of_eq_ok other

/-! ### Errors of form at a path -/

/-- A failure that is at a path, or at none, if it reports an error of form. -/
def IsAt (place : Option String) (f : Failure) : Prop :=
  ∀ r text place', f = .reported r → r.error = .format text place' → place' = place

section Checks

variable {α : Type} {place : Option String}

/-- The misuse of a value reports nothing, so it is anywhere. -/
theorem isAt_fault (f : Fault) : IsAt place (.fault f) := by
  intro r text place' hf
  cases hf

/-- A computation that misuses a value fails anywhere. -/
theorem isAt_liftM (x : Except Fault α) : FailsOnly (IsAt place) (liftM x : Except Failure α) := by
  cases x with
  | ok a => exact .ok a
  | error f => exact .error (isAt_fault f)

/-- A refusal reports nothing, so it is anywhere. -/
theorem isAt_refusal (refusal : Refusal) :
    FailsOnly (IsAt place) (refusal.raise : Except Failure α) := by
  refine .error ?_
  intro r text place' hf
  cases hf

/-- An error is somewhere if it is one of form there, or none of form. -/
theorem isAt_raise {e : SchemaError} (h : ∀ text place', e = .format text place' → place' = place) :
    FailsOnly (IsAt place) (e.raise : Except Failure α) := by
  refine .error ?_
  unfold SchemaError.failure
  split
  · rintro r text place' hr formal
    obtain rfl := Failure.reported.inj hr
    exact h text place' formal
  · exact isAt_fault _

private theorem isAt_checkDefault (name : Value) (type : ScalarType) (v : Value) :
    FailsOnly (IsAt place) (type.checkDefault name v) := by
  have mismatch : ∀ reason, FailsOnly (IsAt place)
      ((SchemaError.typeMismatch name type.tag v.typeName reason).raise : Except Failure Unit) :=
    fun _ ↦ isAt_raise nofun
  rcases checkDefault_cases name type v with passed | ⟨-, failed⟩ | ⟨bits, i, -, -, failed⟩
  · rw [passed]
    exact .ok ()
  · rw [failed]
    exact mismatch ""
  · rw [failed]
    exact (isAt_liftM _).bind fun reason _ ↦ mismatch reason

private theorem isAt_makeAttribute (name : Value) (type : ScalarType) (options : AttributeOptions) :
    FailsOnly (IsAt place) (AttributeDecl.make name type options) := by
  unfold AttributeDecl.make
  split
  · split
    · exact .ok _
    · next e failed => exact .error (isAt_checkDefault name type options.default e failed)
  · exact isAt_refusal _

private theorem isAt_makeRelationship (name destination : Value) (options : RelationshipOptions) :
    FailsOnly (IsAt place) (RelationshipDecl.make name destination options) := by
  unfold RelationshipDecl.make
  split
  · split
    · exact .ok _
    · exact (isAt_liftM _).bind fun _ _ ↦ isAt_refusal _
  · exact isAt_refusal _

private theorem isAt_checkDistinct {refuse : Value → SchemaError}
    (formless : ∀ n text place, refuse n ≠ .format text place) (seen names : List Value) :
    FailsOnly (IsAt place) (checkDistinct refuse seen names) := by
  induction names generalizing seen with
  | nil => exact .ok ()
  | cons n names ih =>
    refine (isAt_liftM _).bind fun _ _ ↦ ?_
    split
    · exact (isAt_raise fun text place h ↦ absurd h (formless n text place)).bind fun _ _ ↦
        ih _
    · exact ih _

private theorem isAt_makeEntity (name : Value) (attributes : List AttributeDecl)
    (relationships : List RelationshipDecl) (isAbstract : Bool) (boundType : Value)
    (unique : List Value) :
    FailsOnly (IsAt place)
      (EntityDecl.make name attributes relationships isAbstract boundType unique) := by
  have formless : ∀ n text place, SchemaError.duplicateProperty name n ≠ .format text place :=
    fun _ _ _ ↦ nofun
  unfold EntityDecl.make
  split
  · split
    · exact .ok _
    · next e failed => exact .error (isAt_checkDistinct formless _ _ e failed)
  · exact isAt_refusal _

variable (path : String)

/-- What is wrong at a path is at it. -/
theorem isAt_refuse (text : String) :
    FailsOnly (IsAt (some path)) (refuse path text : Except Failure α) := by
  apply isAt_raise
  rintro _ place ⟨⟩
  rfl

/-- A failure that is located is at the path. -/
theorem isAt_located {x : Except Failure α} (h : FailsOnly (IsAt (some path)) x) :
    FailsOnly (IsAt (some path)) (located path x) := by
  cases x with
  | ok a => exact .ok a
  | error f =>
    rw [located]
    split
    · exact isAt_refuse path _
    · exact h

/-- A value that is no mapping is refused at the path. -/
theorem isAt_checkMapping (v : Value) : FailsOnly (IsAt (some path)) (checkMapping path v) := by
  unfold checkMapping
  split
  · exact .ok ()
  · exact isAt_refuse path _

/-- What is required and not there is refused at the path. -/
theorem isAt_require (key : String) (v : Value) :
    FailsOnly (IsAt (some path)) (require path key v) := by
  unfold require
  simp only
  split
  · exact isAt_refuse path _
  · exact .ok _

/-- A flag that is no truth value is refused at the path. -/
theorem isAt_flag (key : String) (default : Bool) (v : Value) :
    FailsOnly (IsAt (some path)) (flag path key default v) := by
  unfold flag
  split
  · exact .ok default
  · split
    · next b _ => exact .ok b
    · exact (isAt_liftM _).bind fun _ _ ↦ isAt_refuse path _

private theorem isAt_readType (tag : Value) :
    FailsOnly (IsAt (some path)) (located path (ScalarType.read tag)) := by
  apply isAt_located
  unfold ScalarType.read
  split
  · next type _ => exact .ok type
  · exact (isAt_liftM _).bind fun _ _ ↦ isAt_refusal _

private theorem isAt_readRule (tag : Value) :
    FailsOnly (IsAt (some path)) (located path (DeleteRule.read tag)) := by
  apply isAt_located
  unfold DeleteRule.read
  split
  · next rule _ => exact .ok rule
  · exact (isAt_liftM _).bind fun _ _ ↦ isAt_refusal _

private theorem isAt_decode (type : ScalarType) (v : Value) :
    FailsOnly (IsAt (some path)) (located path (type.decode v)) := by
  apply isAt_located
  unfold ScalarType.decode
  split
  · split
    · exact .ok _
    · exact .ok _
  · split
    · next w _ => exact .ok w
    · exact isAt_refusal _
  · exact .ok _

private theorem isAt_readAttribute (v : Value) : FailsOnly (IsAt (some path))
    (readAttribute path v) :=
  (isAt_checkMapping path v).bind fun _ _ ↦ (isAt_require path "name" v).bind fun _ _ ↦
  (isAt_require path "type" v).bind fun _ _ ↦ (isAt_readType path _).bind fun _ _ ↦
  (isAt_decode path _ _).bind fun _ _ ↦ (isAt_flag path "optional" true v).bind fun _ _ ↦
  (isAt_flag path "external_storage" false v).bind fun _ _ ↦
  (isAt_flag path "preserve_on_delete" false v).bind fun _ _ ↦ isAt_makeAttribute _ _ _

private theorem isAt_readRelationship (v : Value) :
    FailsOnly (IsAt (some path)) (readRelationship path v) :=
  (isAt_checkMapping path v).bind fun _ _ ↦ (isAt_readRule path _).bind fun _ _ ↦
  (isAt_require path "name" v).bind fun _ _ ↦ (isAt_require path "destination" v).bind fun _ _ ↦
  (isAt_flag path "to_many" false v).bind fun _ _ ↦
  (isAt_flag path "optional" true v).bind fun _ _ ↦ isAt_makeRelationship _ _ _

end Checks

/-! ### Properties -/

/-- Where the path of a report about a property ends behind the path of the property: there, or at
the one attribute or relationship that the property holds. What it ends at says the same when it is
read by itself. -/
inductive EndsIn (r : Report) (path : String) (v : Value) : String → Prop
  | property (failed : readProperty path v = .error (.reported r)) : EndsIn r path v ""
  | attribute {inner : Value} (entry : onlyEntry? v = some ("attribute", inner))
    (failed : readAttribute (path ++ ".attribute") inner = .error (.reported r)) :
    EndsIn r path v ".attribute"
  | relationship {inner : Value} (entry : onlyEntry? v = some ("relationship", inner))
    (failed : readRelationship (path ++ ".relationship") inner = .error (.reported r)) :
    EndsIn r path v ".relationship"

/-- An error of form in a property is at the path of the property or of what it holds. -/
private theorem exists_endsIn {r : Report} {text path place : String} {v : Value}
    (failed : readProperty path v = .error (.reported r))
    (formal : r.error = .format text (some place)) :
    ∃ rest, place = path ++ rest ∧ EndsIn r path v rest := by
  have located : ∀ {at? : String}, IsAt (some at?) (.reported r) → place = at? := fun h ↦
    Option.some.inj (h r text _ rfl formal)
  have here : IsAt (some path) (.reported r) →
      ∃ rest, place = path ++ rest ∧ EndsIn r path v rest :=
    fun h ↦ ⟨"", by rw [located h, String.append_empty], .property failed⟩
  have steps := failed
  rw [readProperty, Success.bind_eq_error] at steps
  rcases steps with mapping | ⟨_, -, steps⟩
  · exact here (isAt_checkMapping path v _ mapping)
  · split at steps
    · next inner entry =>
      cases hinner : readAttribute (path ++ ".attribute") inner with
      | ok a => simp [hinner, Except.map] at steps
      | error f =>
        rw [hinner] at steps
        obtain rfl := Except.error.inj steps
        exact ⟨_, located (isAt_readAttribute _ inner _ hinner), .attribute entry hinner⟩
    · next inner entry =>
      cases hinner : readRelationship (path ++ ".relationship") inner with
      | ok a => simp [hinner, Except.map] at steps
      | error f =>
        rw [hinner] at steps
        obtain rfl := Except.error.inj steps
        exact ⟨_, located (isAt_readRelationship _ inner _ hinner), .relationship entry hinner⟩
    · exact here (isAt_refuse path _ _ steps)

/-! ### Entities -/

/-- Reading an entity fails at its path if at all with an error of form, or as the first of its
properties does that is refused. -/
private theorem isAt_or_exists_of_readEntity {path : String} {v : Value} {f : Failure}
    (failed : readEntity path v = .error f) :
    IsAt (some path) f ∨ ∃ ms, members "properties" v = .ok ms ∧
      ∃ j m, IsFirstRefused readProperty ms j m ∧
        readProperty (memberPath (path ++ ".properties") j) m = .error f := by
  let Fails (f : Failure) : Prop := IsAt (some path) f ∨ ∃ ms, members "properties" v = .ok ms ∧
    readProperties path 0 ms = .error f
  have wide : ∀ {α : Type} {x : Except Failure α},
      FailsOnly (IsAt (some path)) x → FailsOnly Fails x := fun h e he ↦ .inl (h e he)
  have fails : FailsOnly Fails (readEntity path v) :=
    (wide (isAt_checkMapping path v)).bind fun _ _ ↦
    (wide (isAt_require path "name" v)).bind fun _ _ ↦
    (wide (isAt_liftM _)).bind fun ms hms ↦
    FailsOnly.bind (fun e he ↦ .inr ⟨ms, (Success.liftM_eq_ok _ _).mp hms, he⟩) fun _ _ ↦
    (wide (isAt_flag path "abstract" false v)).bind fun _ _ ↦
    (wide (isAt_liftM _)).bind fun _ _ ↦ wide (isAt_makeEntity _ _ _ _ _ _)
  rcases fails f failed with here | ⟨ms, hms, there⟩
  · exact .inl here
  · obtain ⟨j, m, first, hm⟩ := (readsEach_properties path).exists_isFirstRefused there
    rw [Nat.zero_add] at hm
    exact .inr ⟨ms, hms, j, m, first, hm⟩

/-- The path of a member of a list tells its place. -/
private theorem memberPath_append_inj {path rest more : String} {i j : Nat}
    (h : memberPath path i ++ rest = memberPath path j ++ more) : i = j ∧ rest = more := by
  have digits : ∀ (n : Nat) (cs : List Char),
      (Text.decimal n ++ ']' :: cs).takeWhile Text.isDigit = Text.decimal n ∧
        (Text.decimal n ++ ']' :: cs).dropWhile Text.isDigit = ']' :: cs := by
    intro n cs
    apply Text.span_digits (']' :: cs) fun c ↦ Text.isDigitOf_of_mem_decimal
    rintro c ⟨⟩
    rfl
  have inside : Text.decimal i ++ ']' :: rest.toList = Text.decimal j ++ ']' :: more.toList := by
    simpa [memberPath] using congrArg String.toList h
  have numbers := congrArg (List.takeWhile Text.isDigit) inside
  have behind := congrArg (List.dropWhile Text.isDigit) inside
  rw [(digits i _).1, (digits j _).1] at numbers
  rw [(digits i _).2, (digits j _).2] at behind
  have read := congrArg Text.nat? numbers
  rw [Text.nat?_decimal, Text.nat?_decimal] at read
  exact ⟨Option.some.inj read, String.ext (List.cons.inj behind).2⟩

private theorem memberPath_append (path within : String) (i : Nat) :
    memberPath (path ++ within) i = path ++ memberPath within i := by
  simp only [memberPath, String.append_assoc]

/-- What the path of a report about an entity goes on with behind the path of the entity: nothing,
or a property. Then the property is the first one of the entity that is refused, and says the same
when it is read by itself. -/
structure LeadsOn (r : Report) (path : String) (w : Value) (rest : String) : Prop where
  ends : rest = "" ∨ ∃ j more, rest = memberPath ".properties" j ++ more
  property : ∀ j more, rest = memberPath ".properties" j ++ more →
    ∃ ms m, members "properties" w = .ok ms ∧ IsFirstRefused readProperty ms j m ∧
      readProperty (path ++ memberPath ".properties" j) m = .error (.reported r) ∧
      EndsIn r (path ++ memberPath ".properties" j) m more

private theorem exists_leadsOn {r : Report} {text path place : String} {w : Value}
    (failed : readEntity path w = .error (.reported r))
    (formal : r.error = .format text (some place)) :
    ∃ rest, place = path ++ rest ∧ LeadsOn r path w rest := by
  rcases isAt_or_exists_of_readEntity failed with here | ⟨ms, hms, j, m, first, hm⟩
  · refine ⟨"", ?_, .inl rfl, fun j more h ↦ ?_⟩
    · rw [Option.some.inj (here r text _ rfl formal), String.append_empty]
    · simp [memberPath, String.ext_iff] at h
  · rw [memberPath_append] at hm
    obtain ⟨more, hplace, ends⟩ := exists_endsIn hm formal
    refine ⟨memberPath ".properties" j ++ more, by rw [hplace, String.append_assoc],
      .inr ⟨j, more, rfl⟩, fun k other h ↦ ?_⟩
    obtain ⟨rfl, rfl⟩ := memberPath_append_inj h
    exact ⟨ms, m, hms, first, hm, ends⟩

/-! ### Documents -/

private theorem isAt_readVersion (v : Value) : FailsOnly (IsAt none) (readVersion v) := by
  rw [readVersion]
  split
  · exact .ok _
  · refine (isAt_liftM _).bind fun _ _ ↦ isAt_raise ?_
    rintro _ place ⟨⟩
    rfl

private theorem isAt_makeModel {place : Option String} (name version : Value)
    (es : List EntityDecl) :
    FailsOnly (IsAt place) (Model.make name version (es.map .entity)) := by
  rw [Model.make, entities_map_entity]
  split
  · exact .error (isAt_fault _)
  · exact (isAt_liftM _).bind fun _ _ ↦ isAt_refusal _
  · exact .ok _

private theorem members_of_get {key : String} {v : Value} {id : Identity} {items : List Value}
    (h : v.get key = .seq id .list items) :
    members key v = .ok (items.map (v.get key).takeOut) := by
  rw [members, h]
  cases items <;> rfl

private theorem isMapping_of_get {key : String} {v : Value} {id : Identity} {items : List Value}
    (h : v.get key = .seq id .list items) : IsMapping v := by
  cases v with
  | dict id entries => exact ⟨id, entries, rfl⟩
  | _ => cases h

/-- Where the entities of a document are a list, they are read, then the version. -/
theorem read_of_get {v : Value} {id : Identity} {items : List Value}
    (entities : v.get "entities" = .seq id .list items) :
    read v = (do
      let es ← readEntities 0 (items.map (v.get "entities").takeOut)
      let version ← readVersion v
      Model.make ((v.get? "name").getD Model.defaultName) version (es.map .entity)) := by
  have mapping := (checkMapping_eq_ok "schema" v).mpr (isMapping_of_get entities)
  rw [read, mapping, members_of_get entities]
  rfl

/-- Where the entities of a document are a list, the path of an error of form leads to the first of
them that is refused, and ends there or goes on to the first of its properties that is refused. What
the path leads to says the same when it is read by itself. -/
theorem exists_isFirstRefused_of_read {v : Value} {id : Identity} {items : List Value}
    (entities : v.get "entities" = .seq id .list items) {r : Report} {text path : String}
    (failed : read v = .error (.reported r)) (formal : r.error = .format text (some path)) :
    ∃ i w rest, IsFirstRefused readEntity (items.map (v.get "entities").takeOut) i w ∧
      path = memberPath "entities" i ++ rest ∧
      readEntity (memberPath "entities" i) w = .error (.reported r) ∧
      LeadsOn r (memberPath "entities" i) w rest := by
  let Fails (f : Failure) : Prop :=
    IsAt none f ∨ readEntities 0 (items.map (v.get "entities").takeOut) = .error f
  have wide : ∀ {α : Type} {x : Except Failure α}, FailsOnly (IsAt none) x → FailsOnly Fails x :=
    fun h e he ↦ .inl (h e he)
  have fails : FailsOnly Fails (read v) := by
    rw [read_of_get entities]
    exact FailsOnly.bind (fun _ ↦ .inr) fun es _ ↦ (wide (isAt_readVersion v)).bind
      fun version _ ↦ wide (isAt_makeModel _ version es)
  rcases fails _ failed with nowhere | there
  · cases nowhere r text _ rfl formal
  · obtain ⟨i, w, first, hw⟩ := readsEach_entities.exists_isFirstRefused there
    rw [Nat.zero_add] at hw
    obtain ⟨rest, hpath, leads⟩ := exists_leadsOn hw formal
    exact ⟨i, w, rest, first, hpath, hw, leads⟩

/-- What an attribute holds in a document. -/
def titleAttribute : Value := .record [("name", .text "title"), ("type", .text "string")]

/-- An attribute of no type. -/
def typelessAttribute : Value := .record [("name", .text "price")]

/-- An entity with an attribute of no type behind one that is as it should be. -/
def typelessEntity : Value :=
  .record [("name", .text "Item"), ("properties", .list
    [.record [("attribute", titleAttribute)], .record [("attribute", typelessAttribute)]])]

/-- Two entities, of which the second one cannot be read. -/
def typelessEntities : List Value := [.record [("name", .text "List")], typelessEntity]

private theorem readAttribute_typelessAttribute (path : String) :
    readAttribute path typelessAttribute =
      (SchemaError.format "'type' is required" (some path)).raise := by
  have named : require path "name" typelessAttribute = .ok (.text "price") :=
    (require_eq_ok _ _ _ _).mpr ⟨by cbv, by cbv⟩
  have untyped : (typelessAttribute.get "type").among [.null, .text ""] = true := by cbv
  have text : "'" ++ "type" ++ "' is required" = "'type' is required" := by decide
  rw [readAttribute, named, require, if_pos untyped, text]
  rfl

/-- The second entity cannot be read since its second property has no type. -/
private theorem readEntity_typelessEntity (path : String) :
    readEntity path typelessEntity = (SchemaError.format "'type' is required"
      (some (memberPath (path ++ ".properties") 1 ++ ".attribute"))).raise := by
  -- The path is a variable in what is evaluated since it would be spelled out otherwise.
  have typed : ∀ path, ∃ a, readAttribute path titleAttribute = .ok a := fun _ ↦ ⟨_, by cbv⟩
  have readsAs : ∀ path inner, readProperty path (.record [("attribute", inner)]) =
      (readAttribute (path ++ ".attribute") inner).map .attr := fun _ _ ↦ rfl
  have mapping : checkMapping path typelessEntity = .ok () := rfl
  have named : require path "name" typelessEntity = .ok (.text "Item") :=
    (require_eq_ok _ _ _ _).mpr ⟨by cbv, by cbv⟩
  have listed : members "properties" typelessEntity = .ok
      [.record [("attribute", titleAttribute)], .record [("attribute", typelessAttribute)]] := by
    cbv
  obtain ⟨a, ha⟩ := typed (memberPath (path ++ ".properties") 0 ++ ".attribute")
  have properties : readProperties path 0
      [.record [("attribute", titleAttribute)], .record [("attribute", typelessAttribute)]] =
      (SchemaError.format "'type' is required"
        (some (memberPath (path ++ ".properties") 1 ++ ".attribute"))).raise := by
    rw [readProperties, readsAs, ha, readProperties, readsAs, readAttribute_typelessAttribute]
    rfl
  simp only [readEntity, bind, Except.bind, mapping, named, listed, Failure.liftM_ok, properties]
  rfl

/-- The path of the error about such a document leads to the second property of the second
entity. -/
theorem exists_isFirstRefused_of_read_typeless : ∃ r,
    (Value.record [("entities", .list typelessEntities)]).get "entities" =
        .list typelessEntities ∧
      read (.record [("entities", .list typelessEntities)]) = .error (.reported r) ∧
      r.error = .format "'type' is required" (some "entities[1].properties[1].attribute") ∧
      ∃ i w rest, IsFirstRefused readEntity typelessEntities i w ∧
        "entities[1].properties[1].attribute" = memberPath "entities" i ++ rest ∧
        readEntity (memberPath "entities" i) w = .error (.reported r) ∧
        LeadsOn r (memberPath "entities" i) w rest := by
  have entities : (Value.record [("entities", .list typelessEntities)]).get "entities" =
      .list typelessEntities := by
    simp [Value.record, Value.get, Value.get?, Value.find?]
  have parts : typelessEntities.map (Value.list typelessEntities).takeOut = typelessEntities :=
    Value.map_takeOut_of_fresh rfl _
  -- The path is a variable here for the same reason.
  have first : ∀ path, ∃ e, readEntity path (.record [("name", .text "List")]) = .ok e :=
    fun _ ↦ ⟨_, by cbv⟩
  have place : memberPath (memberPath "entities" 1 ++ ".properties") 1 ++ ".attribute" =
      "entities[1].properties[1].attribute" := by decide
  have reports : Reports (read (.record [("entities", .list typelessEntities)])) (.format
      "'type' is required" (some "entities[1].properties[1].attribute")) := by
    obtain ⟨e, he⟩ := first (memberPath "entities" 0)
    rw [read_of_get entities, entities, parts, typelessEntities, readEntities, he, readEntities,
      readEntity_typelessEntity, place]
    exact reports_raise rfl
  obtain ⟨said, shown, failed⟩ := reports
  have first := exists_isFirstRefused_of_read entities failed rfl
  rw [entities, parts] at first
  exact ⟨_, entities, failed, rfl, first⟩

end EntityGraph.Document
