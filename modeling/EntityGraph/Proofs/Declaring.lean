import Mathlib.Data.List.Perm.Basic
import EntityGraph.Proofs.Plain
import EntityGraph.Proofs.Sameness
import EntityGraph.Proofs.Success
import EntityGraph.Schema.Declaration

/-!
# When declarations are made

Types and delete rules are read from their tags. Attributes, relationships and entities are declared
exactly if their invariants hold.
-/

namespace EntityGraph

private theorem Number.Numeral.dropZeros_pos (fuel : Nat) {n : Nat} (h : 0 < n) (count : Nat) :
    0 < (dropZeros fuel n count).1 := by
  induction fuel generalizing n count with
  | zero => exact h
  | succ fuel ih =>
    rw [dropZeros]
    split
    · exact ih (by omega) _
    · exact h

/-- A value that is an integer is an atom. -/
theorem Value.exists_eq_of_int? {v : Value} {i : Int} (h : v.int? = some i) :
    ∃ id, v = .atom id (.int i) := by
  unfold int? at h
  split at h
  · obtain rfl := Option.some.inj h
    exact ⟨_, rfl⟩
  · cases h

/-- An integer above zero is not at most zero. -/
theorem Value.atMostZero_of_int? {v : Value} {i : Int} (hv : v.int? = some i) (h : 0 < i) :
    v.atMostZero = .ok false := by
  obtain ⟨id, rfl⟩ := exists_eq_of_int? hv
  have core := Number.Numeral.dropZeros_pos (Nat.toDigits 10 i.natAbs).length
    (Int.natAbs_pos.mpr h.ne') 0
  have positive : (Number.Numeral.ofInt i).nonpositive = false := by
    simpa [Number.Numeral.ofInt, Number.Numeral.of, Number.Numeral.nonpositive, h.ne',
      h.le.not_gt] using core.ne'
  show Except.ok (Number.Numeral.ofInt i).nonpositive = _
  rw [positive]

/-- An integer that is not at most zero is above zero. -/
theorem Value.pos_of_int? {v : Value} {i : Int} (hv : v.int? = some i)
    (h : v.atMostZero = .ok false) : 0 < i := by
  obtain ⟨id, rfl⟩ := exists_eq_of_int? hv
  have compared : (Number.Numeral.ofInt i).nonpositive = false := Except.ok.inj h
  by_contra negative
  rw [Int.not_lt] at negative
  rcases Int.le_iff_eq_or_lt.mp negative with rfl | negative
  · cases compared
  · simp [Number.Numeral.ofInt, Number.Numeral.of, Number.Numeral.nonpositive, negative.ne,
      negative] at compared

private theorem ScalarType.ofTag?_eq_some (s : String) (type : ScalarType) :
    ofTag? s = some type ↔ s = type.tag := by
  constructor
  · intro h
    have found := List.find?_some h
    exact (of_decide_eq_true found).symm
  · rintro rfl
    exact ofTag?_tag type

/-- A value is read as the type whose tag it is. -/
theorem ScalarType.read_eq_ok (v : Value) (type : ScalarType) :
    read v = .ok type ↔ v.text? = some type.tag := by
  have named : v.text?.bind ofTag? = some type ↔ v.text? = some type.tag := by
    simp [Option.bind_eq_some_iff, ofTag?_eq_some]
  rw [← named, read]
  cases v.text?.bind ofTag? with
  | some other => simp
  | none => cases v.display <;> simp [bind, Except.bind, Refusal.raise]

private theorem DeleteRule.ofTag?_eq_some (s : String) (rule : DeleteRule) :
    ofTag? s = some rule ↔ s = rule.tag := by
  constructor
  · intro h
    have found := List.find?_some h
    exact (of_decide_eq_true found).symm
  · rintro rfl
    exact ofTag?_tag rule

/-- A value is read as the rule whose tag it is. -/
theorem DeleteRule.read_eq_ok (v : Value) (rule : DeleteRule) :
    read v = .ok rule ↔ v.text? = some rule.tag := by
  have named : v.text?.bind ofTag? = some rule ↔ v.text? = some rule.tag := by
    simp [Option.bind_eq_some_iff, ofTag?_eq_some]
  rw [← named, read]
  cases v.text?.bind ofTag? with
  | some other => simp
  | none => cases v.display <;> simp [bind, Except.bind, Refusal.raise]

/-- An attribute is declared exactly if it has a name and its default has its type. -/
theorem AttributeDecl.exists_make_eq_ok (name : Value) (type : ScalarType)
    (options : AttributeOptions) :
    (∃ a, make name type options = .ok a) ↔
      name.truthy = true ∧ type.checkDefault name options.default = .ok () := by
  unfold make
  split
  · next named => split <;> simp_all
  · next named => simp [named, Refusal.raise]

/-- An attribute whose name and default are as they should be is declared. -/
theorem AttributeDecl.make_eq_ok {name : Value} {type : ScalarType} (options : AttributeOptions)
    (named : name.truthy = true) (typed : type.checkDefault name options.default = .ok ()) :
    make name type options = .ok ⟨name, type, options.isOptional, options.default,
      options.externalStorage, options.preservedOnDelete, named, typed⟩ := by
  unfold make
  rw [dif_pos named]
  split
  · rfl
  · next refused => cases typed.symm.trans refused

/-- A declared attribute has the name that it is declared by. -/
theorem AttributeDecl.name_of_make {name : Value} {type : ScalarType} {options : AttributeOptions}
    {a : AttributeDecl} (h : make name type options = .ok a) : a.name = name := by
  unfold make at h
  split at h
  · split at h
    · obtain rfl := Except.ok.inj h
      rfl
    · cases h
  · cases h

/-- A declared attribute has the default that it is declared with. -/
theorem AttributeDecl.default_of_make {name : Value} {type : ScalarType}
    {options : AttributeOptions} {a : AttributeDecl} (h : make name type options = .ok a) :
    a.default = options.default := by
  unfold make at h
  split at h
  · split at h
    · obtain rfl := Except.ok.inj h
      rfl
    · cases h
  · cases h

/-- A relationship is declared exactly if it has a name and a destination. -/
theorem RelationshipDecl.exists_make_eq_ok (name destination : Value)
    (options : RelationshipOptions) :
    (∃ r, make name destination options = .ok r) ↔
      name.truthy = true ∧ destination.truthy = true := by
  unfold make
  split
  · next named =>
    split
    · next directed => simp [named, directed]
    · next directed => cases name.display <;> simp [directed, bind, Except.bind, Refusal.raise]
  · next named => simp [named, Refusal.raise]

/-- A relationship whose name and destination are as they should be is declared. -/
theorem RelationshipDecl.make_eq_ok {name destination : Value} (options : RelationshipOptions)
    (named : name.truthy = true) (directed : destination.truthy = true) :
    make name destination options = .ok ⟨name, destination, options.isToMany, options.isOptional,
      options.deleteRule, options.inverse, named, directed⟩ := by
  unfold make
  rw [dif_pos named, dif_pos directed]

/-- A declared relationship has the name that it is declared by. -/
theorem RelationshipDecl.name_of_make {name destination : Value} {options : RelationshipOptions}
    {r : RelationshipDecl} (h : make name destination options = .ok r) : r.name = name := by
  unfold make at h
  split at h
  · split at h
    · obtain rfl := Except.ok.inj h
      rfl
    · cases hn : name.display <;> simp [hn, bind, Except.bind, Refusal.raise] at h
  · cases h

/-- Names pass the check of names exactly if they are distinct. -/
theorem checkDistinct_eq_ok_iff (refuse : Value → SchemaError) (names : List Value) :
    checkDistinct refuse [] names = .ok () ↔ DistinctNames names := by
  rw [checkDistinct_eq_ok]
  exact ⟨fun h ↦ ⟨h.1, h.2.2⟩, fun h ↦ ⟨h.isKey, by simp, h.pairwise⟩⟩

/-- An entity is declared exactly if it has a name and those of its properties are distinct. -/
theorem EntityDecl.exists_make_eq_ok (name : Value) (attributes : List AttributeDecl)
    (relationships : List RelationshipDecl) (isAbstract : Bool) (boundType : Value)
    (unique : List Value) :
    (∃ e, make name attributes relationships isAbstract boundType unique = .ok e) ↔
      name.truthy = true ∧ DistinctNames (propertyNames attributes relationships) := by
  rw [← checkDistinct_eq_ok_iff (.duplicateProperty name)]
  unfold make
  split
  · next named => split <;> simp_all
  · next named => simp [named, Refusal.raise]

/-- An entity whose name and properties are as they should be is declared. -/
theorem EntityDecl.make_eq_ok {name : Value} {attributes : List AttributeDecl}
    {relationships : List RelationshipDecl} (isAbstract : Bool) (boundType : Value)
    (unique : List Value) (named : name.truthy = true)
    (distinct : DistinctNames (propertyNames attributes relationships)) :
    make name attributes relationships isAbstract boundType unique =
      .ok ⟨name, attributes, relationships, isAbstract, boundType, unique, named, distinct⟩ := by
  have checked := (checkDistinct_eq_ok_iff (.duplicateProperty name) _).mpr distinct
  unfold make
  rw [dif_pos named]
  split
  · rfl
  · next refused => cases checked.symm.trans refused

/-- A declared entity has the attributes that it is declared with. -/
theorem EntityDecl.attributes_of_make {name : Value} {attributes : List AttributeDecl}
    {relationships : List RelationshipDecl} {isAbstract : Bool} {boundType : Value}
    {unique : List Value} {e : EntityDecl}
    (h : make name attributes relationships isAbstract boundType unique = .ok e) :
    e.attributes = attributes := by
  unfold make at h
  split at h
  · split at h
    · obtain rfl := Except.ok.inj h
      rfl
    · cases h
  · cases h

/-- Plain names that can be keys are distinct in any order. -/
theorem DistinctNames.perm {names others : List Value} (h : DistinctNames names)
    (perm : names.Perm others) (plain : ∀ n ∈ names, n.IsPlain) : DistinctNames others := by
  have symmetric : ∀ m ∈ names, ∀ n ∈ names, n.same m = m.same n := by
    have atoms : ∀ n ∈ names, ∃ id a, n = .atom id a := by
      intro n hn
      have key := h.isKey n hn
      have hplain := plain n hn
      cases n with
      | atom id a => exact ⟨id, a, rfl⟩
      | seq id kind items =>
        obtain rfl := hplain.1
        cases key
      | dict id entries => cases key
      | loop id kind => cases key
    intro m hm n hn
    obtain ⟨i, a, rfl⟩ := atoms m hm
    obtain ⟨j, b, rfl⟩ := atoms n hn
    exact Value.same_atom_comm j i b a
  constructor
  · intro n hn
    exact h.isKey n (perm.mem_iff.mpr hn)
  · have both : names.Pairwise fun m n ↦ n.same m = false ∧ m.same n = false := by
      apply h.pairwise.imp_of_mem
      intro m n hm hn hs
      exact ⟨hs, symmetric m hm n hn ▸ hs⟩
    exact ((perm.pairwise_iff fun hs ↦ hs.symm).mp both).imp fun hs ↦ hs.1

/-! ### Declarations with other attributes -/

/-- An entity is declared as another is, but for attributes that are related to those of the
other. -/
structure EntityDecl.Alters (R : AttributeDecl → AttributeDecl → Prop)
    (e f : EntityDecl) : Prop where
  name : f.name = e.name
  isAbstract : f.isAbstract = e.isAbstract
  boundType : f.boundType = e.boundType
  relationships : f.relationships = e.relationships
  unique : f.unique = e.unique
  attributes : List.Forall₂ R e.attributes f.attributes

namespace EntityDecl.Alters

variable {R S : AttributeDecl → AttributeDecl → Prop} {e f : EntityDecl}

/-- Attributes that are related in one way may be so in another. -/
theorem imp (h : e.Alters R f) (step : ∀ a b, R a b → S a b) : e.Alters S f :=
  { h with attributes := h.attributes.imp step }

/-- An entity alters one that alters it. -/
theorem flip (h : e.Alters R f) : f.Alters (fun b a ↦ R a b) e :=
  ⟨h.name.symm, h.isAbstract.symm, h.boundType.symm, h.relationships.symm, h.unique.symm,
    h.attributes.flip⟩

end EntityDecl.Alters

end EntityGraph
