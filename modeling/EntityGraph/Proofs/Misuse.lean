import EntityGraph.Proofs.Grammar

/-!
# Misused values

Where a check of a document notices what is wrong, it is reported as an error of form, a repeated
property or a default of another type. The checks do not notice everything: a value that is
iterated, shown, or used as a name or a key may not admit this, and then the failure is about the
misuse of that value. For each check and each declaration, on plain values: when it fails in which
of the two ways.
-/

namespace EntityGraph

/-- An error that is about the form of a document, a repeated property or a default of another
type. -/
def SchemaError.IsOfDocument : SchemaError → Prop
  | format .. | duplicateProperty .. | typeMismatch .. => True
  | _ => False

namespace Failure

/-- A failure that reports an error of a document. -/
def IsReported (f : Failure) : Prop := ∃ r, f = .reported r ∧ r.error.IsOfDocument

/-- A failure that is about a value of the wrong type, or one that cannot be used. -/
def IsMisuse (f : Failure) : Prop := f.kind? = some .type ∨ f.kind? = some .value

/-- A failure that reports an error is not about the misuse of a value. -/
theorem IsReported.not_isMisuse {f : Failure} (h : f.IsReported) : ¬ f.IsMisuse := by
  obtain ⟨r, rfl, -⟩ := h
  rintro (h | h) <;> cases h

end Failure

open Success (First Fails first_nil first_cons_iff)

/-- A computation of a document fails with the misuse of a value exactly under a condition, and
otherwise with a report if at all. -/
abbrev Document.Misuses {α : Type} (E : Prop) (x : Except Failure α) : Prop :=
  Fails Failure.IsReported Failure.IsMisuse E x

/-! ### Values -/

namespace Value

/-- A value that can be shown. -/
def IsShown (v : Value) : Prop := ∃ t, v.inspect = .ok t

mutual

/-- Only an integer that is too long keeps a plain value from being shown. -/
theorem IsPlain.eq_tooLong {v : Value} (plain : v.IsPlain) {f : Fault} (h : v.inspect = .error f) :
    f = .tooLong := by
  cases v with
  | atom id a =>
    cases a with
    | int i =>
      rw [inspect, Atom.inspect, intText] at h
      split at h
      · exact (Except.error.inj h).symm
      · cases h
    | null | bool | text => cases h
    | _ => cases plain
  | seq id kind items =>
    rw [inspect] at h
    cases hi : inspectItems items with
    | ok ts => rw [hi] at h; cases h
    | error g =>
      rw [hi] at h
      obtain rfl := Except.error.inj h
      exact ArePlain.eq_tooLong plain.2 hi
  | dict id entries =>
    rw [inspect] at h
    cases hi : inspectEntries entries with
    | ok ts => rw [hi] at h; cases h
    | error g =>
      rw [hi] at h
      obtain rfl := Except.error.inj h
      exact ArePlainEntries.eq_tooLong plain hi
  | loop id kind => cases plain

/-- Only an integer that is too long keeps plain values from being shown. -/
theorem ArePlain.eq_tooLong {vs : List Value} (plain : ArePlain vs) {f : Fault}
    (h : inspectItems vs = .error f) : f = .tooLong := by
  cases vs with
  | nil => cases h
  | cons v vs =>
    rw [inspectItems] at h
    cases hv : v.inspect with
    | error g =>
      rw [hv] at h
      obtain rfl := Except.error.inj h
      exact IsPlain.eq_tooLong plain.1 hv
    | ok t =>
      cases hvs : inspectItems vs with
      | error g =>
        rw [hv, hvs] at h
        obtain rfl := Except.error.inj h
        exact ArePlain.eq_tooLong plain.2 hvs
      | ok ts =>
        rw [hv, hvs] at h
        cases h

/-- Only an integer that is too long keeps plain entries from being shown. -/
theorem ArePlainEntries.eq_tooLong {es : List (Value × Value)} (plain : ArePlainEntries es)
    {f : Fault} (h : inspectEntries es = .error f) : f = .tooLong := by
  cases es with
  | nil => cases h
  | cons e es =>
    obtain ⟨k, v⟩ := e
    obtain ⟨⟨⟨s, hs⟩, hplain⟩, hrest⟩ := plain
    rw [inspectEntries] at h
    cases hk : k.inspect with
    | error g =>
      rw [hk] at h
      -- The key is a text, which can always be shown.
      obtain ⟨id, rfl⟩ := exists_eq_of_text? hs
      cases hk
    | ok t =>
      cases hv : v.inspect with
      | error g =>
        rw [hk, hv] at h
        obtain rfl := Except.error.inj h
        exact IsPlain.eq_tooLong hplain hv
      | ok u =>
        cases hes : inspectEntries es with
        | error g =>
          rw [hk, hv, hes] at h
          obtain rfl := Except.error.inj h
          exact ArePlainEntries.eq_tooLong hrest hes
        | ok ts =>
          rw [hk, hv, hes] at h
          cases h

end

/-- Only an integer that is too long keeps a plain value from being displayed. -/
theorem IsPlain.eq_tooLong_of_display {v : Value} (plain : v.IsPlain) {f : Fault}
    (h : v.display = .error f) : f = .tooLong := by
  cases v with
  | atom id a =>
    cases a with
    | text s => cases h
    | null | bool | int => exact plain.eq_tooLong h
    | _ => cases plain
  | _ => exact plain.eq_tooLong h

/-- A plain value can be displayed exactly if it can be shown. -/
theorem IsPlain.exists_display_iff {v : Value} (plain : v.IsPlain) :
    (∃ t, v.display = .ok t) ↔ v.IsShown := by
  cases v with
  | atom id a =>
    cases a with
    | text s => exact ⟨fun _ ↦ ⟨_, rfl⟩, fun _ ↦ ⟨s, rfl⟩⟩
    | null | bool | int => exact Iff.rfl
    | _ => cases plain
  | _ => exact Iff.rfl

/-- A plain value that cannot be shown is too long to be displayed. -/
theorem IsPlain.display_eq_error {v : Value} (plain : v.IsPlain) (hidden : ¬ v.IsShown) :
    v.display = .error .tooLong := by
  cases hd : v.display with
  | ok t => exact absurd (plain.exists_display_iff.mp ⟨t, hd⟩) hidden
  | error f => rw [plain.eq_tooLong_of_display hd]

/-- A plain value that cannot be a key is of a type that cannot. -/
theorem IsPlain.kind_of_checkKey {v : Value} (plain : v.IsPlain) {f : Fault}
    (h : v.checkKey = .error f) : f.kind = .type := by
  cases v with
  | atom id a =>
    cases a with
    | null | bool | int | text => cases h
    | _ => cases plain
  | seq id kind items =>
    obtain rfl := plain.1
    obtain rfl := Except.error.inj h
    rfl
  | dict id entries =>
    obtain rfl := Except.error.inj h
    rfl
  | loop id kind => cases plain

/-- A plain value that has no members is of a type that has none. -/
theorem IsPlain.kind_of_items {v : Value} (plain : v.IsPlain) {f : Fault}
    (h : v.items = .error f) : f.kind = .type := by
  cases v with
  | atom id a =>
    cases a with
    | null | bool | int =>
      obtain rfl := Except.error.inj h
      rfl
    | text => cases h
    | _ => cases plain
  | seq id kind items => cases h
  | dict id entries => cases h
  | loop id kind => cases plain

end Value

namespace Document

/-! ### Checks -/

/-- What a value holds under a key is no truth value, and cannot be shown. -/
def FlagEscapes (key : String) (v : Value) : Prop :=
  ∃ w, v.get? key = some w ∧ w.bool? = none ∧ ¬ w.IsShown

/-- A value holds something under a key that is neither absent nor the empty text. -/
def Gives (key : String) (v : Value) : Prop := (v.get key).among [.null, .text ""] = false

/-- Flags of a value, read in order, of which the first one that is no truth value cannot be
shown. -/
def FlagsEscape (keys : List String) (v : Value) : Prop :=
  First (HasFlag · v) (FlagEscapes · v) keys

/-- An error of a document is reported, unless something in its message is too long. -/
theorem misuses_raise {α : Type} {e : SchemaError} (formal : e.IsOfDocument) {shown : Prop}
    (said : shown → ∃ t, e.message = .ok t) (unsaid : ¬ shown → e.message = .error .tooLong) :
    Misuses (¬ shown) (e.raise : Except Failure α) := by
  have failed : Misuses (¬ shown) (.error e.failure : Except Failure α) := by
    unfold SchemaError.failure
    split
    · next t ht =>
      exact .first ⟨_, rfl, formal⟩ fun hidden ↦ nomatch ht.symm.trans (unsaid hidden)
    · next f hf =>
      have hidden : ¬ shown := fun h ↦ by simp [hf] at said; exact said h
      obtain rfl := Except.error.inj (hf.symm.trans (unsaid hidden))
      exact .second (.inr rfl) hidden
  exact failed

/-- An error of form can always be said. -/
theorem isReported_format (text : String) (path : Option String) :
    (SchemaError.format text path).failure.IsReported := by
  obtain ⟨t, ht⟩ : ∃ t, (SchemaError.format text path).message = .ok t := by
    simp only [SchemaError.message]
    split <;> exact ⟨_, rfl⟩
  unfold SchemaError.failure
  split
  · exact ⟨_, rfl, trivial⟩
  · next f hf => cases ht.symm.trans hf

/-- An error of form is reported. -/
theorem misuses_format {α : Type} (text : String) (path : Option String) :
    Misuses False ((SchemaError.format text path).raise : Except Failure α) :=
  .first (isReported_format text path) not_false

/-- What is wrong at a path is reported. -/
theorem misuses_refuse {α : Type} (path text : String) :
    Misuses False (refuse path text : Except Failure α) := misuses_format text (some path)

/-- A use of a value fails with the misuse of it. -/
theorem misuses_liftM {α : Type} {x : Except Fault α}
    (h : ∀ f, x = .error f → f.kind = .type ∨ f.kind = .value) :
    Misuses (¬ ∃ a, x = .ok a) (liftM x : Except Failure α) := by
  cases x with
  | ok a => exact .ok a (not_not.mpr ⟨a, rfl⟩)
  | error f => exact .second ((h f rfl).imp (congrArg some) (congrArg some)) (by simp)

/-- Showing a plain value fails with the misuse of it. -/
theorem misuses_inspect {v : Value} (plain : v.IsPlain) :
    Misuses (¬ v.IsShown) (liftM v.inspect : Except Failure String) :=
  misuses_liftM fun _ hf ↦ .inr (plain.eq_tooLong hf ▸ rfl)

/-- A value that is no mapping is reported. -/
theorem misuses_checkMapping (path : String) (v : Value) : Misuses False (checkMapping path v) := by
  unfold checkMapping
  split
  · exact .ok () not_false
  · exact misuses_refuse _ _

/-- What is required and not there is reported. -/
theorem misuses_require (path key : String) (v : Value) : Misuses False (require path key v) := by
  unfold require
  simp only
  split
  · exact misuses_refuse _ _
  · exact .ok _ not_false

/-- A failure that is located is reported. -/
theorem misuses_located {α : Type} (path : String) {x : Except Failure α}
    (h : ∀ e, x = .error e → e.kind? = some .value) : Misuses False (located path x) := by
  cases x with
  | ok a => exact .ok a not_false
  | error e =>
    rw [located, if_pos (h e rfl)]
    exact misuses_refuse _ _

/-- A flag that is no truth value is reported, if it can be shown. -/
theorem misuses_flag {v : Value} (plain : v.IsPlain) (path key : String) (default : Bool) :
    Misuses (FlagEscapes key v) (flag path key default v) := by
  unfold flag
  split
  · next hw => exact .ok default (by simp [FlagEscapes, hw])
  · next w hw =>
    split
    · next b hb => exact .ok b (by simp [FlagEscapes, hw, hb])
    · next hb =>
      have shown := misuses_inspect (plain.get? hw)
      exact (shown.bind fun _ _ ↦ misuses_refuse _ _).congr (by simp [FlagEscapes, hw, hb])

/-- A tag that names nothing is refused as a value. -/
theorem kind_of_display_raise {α : Type} {v : Value} (plain : v.IsPlain) {refuse : String → Refusal}
    (h : ∀ shown, (refuse shown).kind = .value) {e : Failure}
    (he : (do let shown ← v.display; (refuse shown).raise : Except Failure α) = .error e) :
    e.kind? = some .value := by
  cases hd : v.display with
  | ok t =>
    rw [hd] at he
    obtain rfl := Except.error.inj he
    exact congrArg some (h t)
  | error f =>
    rw [hd, plain.eq_tooLong_of_display hd] at he
    obtain rfl := Except.error.inj he
    rfl

/-- A type that is unknown is reported. -/
theorem misuses_readType {v : Value} (plain : v.IsPlain) (path : String) :
    Misuses False (located path (ScalarType.read v)) := by
  refine misuses_located path fun e he ↦ ?_
  unfold ScalarType.read at he
  split at he
  · cases he
  · exact kind_of_display_raise plain (fun _ ↦ rfl) he

/-- A rule that is unknown is reported. -/
theorem misuses_readRule {v : Value} (plain : v.IsPlain) (path : String) :
    Misuses False (located path (DeleteRule.read v)) := by
  refine misuses_located path fun e he ↦ ?_
  unfold DeleteRule.read at he
  split at he
  · cases he
  · exact kind_of_display_raise plain (fun _ ↦ rfl) he

/-- A default that is not spelled right is reported. -/
theorem misuses_decode (path : String) (type : ScalarType) (v : Value) :
    Misuses False (located path (type.decode v)) := by
  refine misuses_located path fun e he ↦ ?_
  unfold ScalarType.decode at he
  split at he
  · split at he <;> cases he
  · split at he
    · cases he
    · obtain rfl := Except.error.inj he
      rfl
  · cases he

/-! ### Declarations -/

/-- The default of an attribute is not of its type, and cannot be reported: the name of the
attribute cannot be shown, or the default is an integer that cannot. -/
structure DefaultEscapes (name : Value) (type : ScalarType) (default : Value) : Prop where
  refused : type.checkDefault name default ≠ .ok ()
  silent : name.IsShown → ∃ bits i, type.bits? = some bits ∧ default.int? = some i ∧
    Number.Integer.isTooLong i = true

private theorem misuses_mismatch {name : Value} (plain : name.IsPlain)
    (type valueType reason : String) :
    Misuses (¬ name.IsShown)
      ((SchemaError.typeMismatch name type valueType reason).raise : Except Failure Unit) := by
  have formal : (SchemaError.typeMismatch name type valueType reason).IsOfDocument := trivial
  refine misuses_raise formal (fun shown ↦ ?_) fun hidden ↦ ?_
  · obtain ⟨t, ht⟩ := plain.exists_display_iff.mpr shown
    simp only [SchemaError.message, ht]
    exact ⟨_, rfl⟩
  · simp [SchemaError.message, plain.display_eq_error hidden, bind, Except.bind]

private theorem admits_of_bits? {type : ScalarType} {bits : Nat} (h : type.bits? = some bits)
    {v : Value} {i : Int} (hi : v.int? = some i) : type.admits v = true := by
  obtain ⟨id, rfl⟩ := Value.exists_eq_of_int? hi
  cases type <;> first | rfl | cases h

/-- The reason that an integer is out of range can be given, unless the integer is too long. -/
theorem exists_rangeReason_iff (bits : Nat) (i : Int) :
    (∃ t, ScalarType.rangeReason bits i = .ok t) ↔ Number.Integer.isTooLong i = false := by
  cases h : Number.Integer.isTooLong i with
  | true => simp [ScalarType.rangeReason, intText, h, bind, Except.bind]
  | false =>
    simp only [ScalarType.rangeReason, intText, h, iff_true]
    exact ⟨_, rfl⟩

private theorem misuses_rangeReason (bits : Nat) (i : Int) :
    Misuses (Number.Integer.isTooLong i = true)
      (liftM (ScalarType.rangeReason bits i) : Except Failure String) := by
  refine (misuses_liftM fun f hf ↦ .inr ?_).congr ?_
  · simp only [ScalarType.rangeReason, intText] at hf
    split at hf
    · obtain rfl := Except.error.inj hf
      rfl
    · cases hf
  · rw [exists_rangeReason_iff, Bool.not_eq_false]

/-- A default passes, or its type does not admit it, or it is an integer that is out of range, which
is the reason given for the refusal. -/
theorem checkDefault_cases (name : Value) (type : ScalarType) (default : Value) :
    type.checkDefault name default = .ok () ∨
    (type.admits default = false ∧ type.checkDefault name default =
      (SchemaError.typeMismatch name type.tag default.typeName "").raise) ∨
    ∃ bits i, type.bits? = some bits ∧ default.int? = some i ∧
      type.checkDefault name default = (do
        let reason ← ScalarType.rangeReason bits i
        (SchemaError.typeMismatch name type.tag default.typeName reason).raise) := by
  unfold ScalarType.checkDefault
  simp only
  split
  · exact .inl rfl
  · cases hadmits : type.admits default with
    | false => exact .inr (.inl ⟨rfl, rfl⟩)
    | true =>
      simp only [Bool.not_true, Bool.false_eq_true, if_false]
      split
      · next bits i hbits hi =>
        split
        · exact .inr (.inr ⟨bits, i, hbits, hi, rfl⟩)
        · exact .inl rfl
      · exact .inl rfl

/-- A default that is not of its type is reported, if the attribute and the default can be shown. -/
private theorem misuses_checkDefault {name : Value} (plain : name.IsPlain) (type : ScalarType)
    (default : Value) :
    Misuses (DefaultEscapes name type default) (type.checkDefault name default) := by
  have mismatch := fun reason ↦ misuses_mismatch plain type.tag default.typeName reason
  rcases checkDefault_cases name type default with
    passed | ⟨hadmits, failed⟩ | ⟨bits, i, hbits, hi, failed⟩
  · rw [passed]
    exact .ok () fun h ↦ h.refused passed
  · have refused : type.checkDefault name default ≠ .ok () := by simp [failed, SchemaError.raise]
    rw [failed]
    refine (mismatch "").congr ⟨fun hidden ↦ ⟨refused, (absurd · hidden)⟩, ?_⟩
    rintro ⟨-, silent⟩ shown
    obtain ⟨bits, i, hbits, hi, -⟩ := silent shown
    simp [admits_of_bits? hbits hi] at hadmits
  · have refused : type.checkDefault name default ≠ .ok () := by
      rw [failed]
      cases ScalarType.rangeReason bits i <;> rintro ⟨⟩
    rw [failed]
    refine ((misuses_rangeReason bits i).bind fun reason _ ↦ mismatch reason).congr ?_
    constructor
    · rintro (long | ⟨-, -, hidden⟩)
      · exact ⟨refused, fun _ ↦ ⟨bits, i, hbits, hi, long⟩⟩
      · exact ⟨refused, (absurd · hidden)⟩
    · rintro ⟨-, silent⟩
      by_cases long : Number.Integer.isTooLong i = true
      · exact .inl long
      · obtain ⟨t, ht⟩ := (exists_rangeReason_iff bits i).mpr (Bool.not_eq_true _ ▸ long)
        refine .inr ⟨t, (Success.liftM_eq_ok _ _).mpr ht, fun shown ↦ ?_⟩
        obtain ⟨-, j, -, hj, longer⟩ := silent shown
        exact long (Option.some.inj (hi.symm.trans hj) ▸ longer)

/-- An attribute whose name does not count as true is refused in vain. -/
theorem misuses_makeAttribute {name : Value} (plain : name.IsPlain) (type : ScalarType)
    (options : AttributeOptions) :
    Misuses (name.truthy = false ∨ DefaultEscapes name type options.default)
      (AttributeDecl.make name type options) := by
  have checked := misuses_checkDefault plain type options.default
  unfold AttributeDecl.make
  split
  · next named =>
    split
    · next typed =>
      rw [typed] at checked
      cases checked with
      | ok _ h => exact .ok _ (by simp [named, h])
    · next e failed =>
      rw [failed] at checked
      exact checked.cast.congr (by simp [named])
  · next named => exact .second (.inr rfl) (.inl (Bool.not_eq_true _ ▸ named))

/-- A relationship whose name or destination does not count as true is refused in vain. -/
theorem misuses_makeRelationship {name : Value} (plain : name.IsPlain) (destination : Value)
    (options : RelationshipOptions) :
    Misuses (name.truthy = false ∨ destination.truthy = false)
      (RelationshipDecl.make name destination options) := by
  unfold RelationshipDecl.make
  split
  · next named =>
    split
    · next directed => exact .ok _ (by simp [named, directed])
    · next directed =>
      have missing : name.truthy = false ∨ destination.truthy = false :=
        .inr (Bool.not_eq_true _ ▸ directed)
      cases hd : name.display with
      | ok t => exact .second (.inr rfl) missing
      | error f =>
        obtain rfl := plain.eq_tooLong_of_display hd
        exact .second (.inr rfl) missing
  · next named => exact .second (.inr rfl) (.inl (Bool.not_eq_true _ ▸ named))

end Document

end EntityGraph
