import EntityGraph.Document.Yaml
import EntityGraph.Proofs.ReadBack.Relisted
import EntityGraph.Proofs.ReadBack.Yaml.Atoms
import EntityGraph.Proofs.ReadBack.Yaml.Floats
import EntityGraph.Proofs.ReadBack.Yaml.Reading
import EntityGraph.Proofs.ReadBack.Yaml.Timestamps
import EntityGraph.Yaml.Standard

/-!
# YAML documents read back

A library that writes YAML texts knows more kinds of values than one that reads them safely: it has
tags for objects that the reader refuses. So the text of a document is read exactly if the defaults
that are not encoded have no parts of such kinds. Then it declares what the model declares, and its
declarations are equal to those of the model, unless a moment loses its offset from universal time.

This holds of any library that makes a copy of a document from the text that it wrote of it, in
which sets may list their members in other orders. The library at hand makes such copies of
documents whose defaults are built from atoms, lists and mappings, are not too deep and have no long
keys. Left open is what it does with others: in deeper collections lines start where they should
end, so that texts are folded at every blank; keys whose escapes take more room than a key may have
are not found; sets are laid out as mappings of absent values, and byte strings as blocks of lines.
-/

namespace EntityGraph

namespace Yaml

open EntityGraph.Number Form

/-! ### Values with a form -/

/-- An atom that is read back from its scalar: an integer is not too long, a binary number is one,
and the offset of a moment from universal time is a number of minutes. -/
def HasScalar : Atom → Prop
  | .null | .bool _ | .text _ | .date _ => True
  | .int i => Integer.isTooLong i = false
  | .float x => x.Normal ∧ x ≠ .nan
  | .moment m => ∀ o, m.offset = some o → 60000000 ∣ o
  | _ => False

/-- Such an atom is written as a scalar that is read as the atom. -/
theorem HasScalar.exists_isScalar {a : Atom} (h : HasScalar a) :
    ∃ tag text, IsScalar a tag text := by
  cases a with
  | null => exact ⟨_, _, isScalar_null⟩
  | bool b => exact ⟨_, _, isScalar_bool b⟩
  | int i => exact ⟨_, _, isScalar_int h⟩
  | float x => exact ⟨_, _, isScalar_float h.1 h.2⟩
  | text s => exact ⟨_, _, isScalar_text s⟩
  | date d => exact ⟨_, _, isScalar_date d⟩
  | moment m => exact ⟨_, _, isScalar_moment h⟩
  | _ => exact h.elim

/-- A part of a value that has a form: an atom is read back from its scalar or of a kind that is not
known, a sequence is a list or of such a kind, and the keys of a mapping are different atoms of
known kinds, of which the texts are not too long. -/
def HasFormPart : Value → Prop
  | .atom _ a => HasScalar a ∨ a.isUnknown = true
  | .seq _ kind _ => kind = .list ∨ kind.isUnknown = true
  | .dict _ entries =>
    (∀ e ∈ entries, IsKeyAtom e.1 ∧ ∀ s, e.1.text? = some s → IsNear s) ∧
      (entries.map (·.1.anonymous)).Pairwise fun k l ↦ l.same k = false
  | .loop .. => False

/-- Such a part is written. -/
theorem HasFormPart.isWritten {v : Value} (h : HasFormPart v) : IsWritten v := by
  cases v with
  | atom id a => exact h.imp HasScalar.exists_isScalar fun unknown ↦ unknown
  | seq id kind items => exact h
  | dict id entries => exact .inl ⟨fun e he ↦ (h.1 e he).1, h.2⟩
  | loop id kind => exact .inl h

private theorem HasFormPart.hasNearKeys {v : Value} (h : HasFormPart v) : HasNearKeys v := by
  cases v with
  | dict id entries => exact fun e he ↦ (h.1 e he).2
  | _ => trivial

/-- A value has a form if its parts have one, if what is one object in it has one content, and if
there are not too many collections around each other in it. -/
structure HasForm (content : ObjectKey → Value) (levels : Nat) (v : Value) : Prop where
  parts : v.Every HasFormPart
  contents : HasContents content v
  shallow : v.depth ≤ levels

section Forms

variable {content : ObjectKey → Value}

/-- An atom that is read back and is never referred to has a form. -/
theorem hasForm_atom (levels : Nat) {id : Identity} {a : Atom} (h : HasScalar a)
    (unnamed : keyOf (.atom id a) = none) : HasForm content levels (.atom id a) where
  parts := .inl h
  contents k hk := by
    rw [unnamed] at hk
    cases hk
  shallow := by
    obtain ⟨tag, text, scalar⟩ := h.exists_isScalar
    rw [Value.depth, Atom.depth, scalar.isUnknown_eq]
    exact Nat.zero_le levels

private theorem isNear_key {key : String} (h : key ∈ Document.keys) : IsNear key := by
  revert key
  unfold IsNear
  decide

/-- YAML has forms for the values that documents are built from. -/
private theorem areForms : Document.AreForms (HasForm content) where
  null n := hasForm_atom n trivial rfl
  bool n _ := hasForm_atom n trivial rfl
  text n _ := hasForm_atom n trivial rfl
  list n vs h :=
    { parts := ⟨.inl rfl, (Value.everyMember_iff vs).mpr fun v hv ↦ (h v hv).parts⟩
      contents := ⟨nofun, (Value.everyMember_iff vs).mpr fun v hv ↦ (h v hv).contents⟩
      shallow := Nat.succ_le_succ (Value.depthItems_le fun v hv ↦ (h v hv).shallow) }
  record n es distinct known h :=
    { parts := by
        have keys : (es.map fun e ↦ (Value.text e.1, e.2)).map (·.1.anonymous) =
            (es.map (·.1)).map .text := by
          rw [List.map_map, List.map_map]
          rfl
        have texts : ∀ k ∈ (es.map (·.1)).map Value.text, k.IsText :=
          List.forall_mem_map.mpr fun key _ ↦ ⟨key, rfl⟩
        refine ⟨⟨?_, ?_⟩, ?_⟩
        · rw [List.forall_mem_map]
          refine fun e he ↦ ⟨⟨_, _, rfl, rfl⟩, fun s hs ↦ ?_⟩
          obtain rfl := Option.some.inj hs
          exact isNear_key (known e he)
        · rw [keys]
          exact (Value.pairwise_same_iff texts).mpr (Value.nodup_texts distinct)
        · rw [Value.everyEntry_iff, List.forall_mem_map]
          exact fun e he ↦ ⟨.inl trivial, (h e he).parts⟩
      contents := by
        refine ⟨nofun, ?_⟩
        rw [Value.everyEntry_iff, List.forall_mem_map]
        exact fun e he ↦ ⟨(hasForm_atom n (a := .text e.1) trivial rfl).contents, (h e he).contents⟩
      shallow := by
        refine Nat.succ_le_succ (Value.depthEntries_le ?_)
        rw [List.forall_mem_map]
        exact fun e he ↦ (h e he).shallow }

private theorem areForms_of_known :
    Document.AreForms fun _ v ↦ v.Every fun u ↦ isUnknown u = false where
  null _ := rfl
  bool _ _ := rfl
  text _ _ := rfl
  list _ vs h := ⟨rfl, (Value.everyMember_iff vs).mpr h⟩
  record _ es _ _ h := by
    refine ⟨rfl, ?_⟩
    rw [Value.everyEntry_iff, List.forall_mem_map]
    exact fun e he ↦ ⟨rfl, h e he⟩

/-- A value that has a form and is of known kinds can be read back. -/
theorem HasForm.every_isPart {levels : Nat} {v : Value} (h : HasForm content levels v)
    (known : v.Every fun u ↦ isUnknown u = false) : v.Every IsPart :=
  h.parts.combine (fun _ part told ↦ part.isWritten.isPart told) known

end Forms

private theorem IsPart.isTelling {v : Value} (h : IsPart v) : v.IsTelling := by
  cases v with
  | atom id a =>
    obtain ⟨tag, text, scalar⟩ := h
    exact scalar.known
  | seq id kind items => trivial
  | dict id entries => exact h.2
  | loop id kind => exact h.elim

private theorem isKnown_anonymous {v : Value} (h : v.Every IsPart) : v.anonymous.IsKnown :=
  (h.mono fun _ ↦ IsPart.isTelling).isKnown_anonymous

/-- The deepest defaults that are certain to be read back have so many collections around each
other, since six collections of the document are around a default. -/
def defaultLimit : Nat := 33

/-- What a library makes of a text that it wrote of a value: a value of new objects if it knows the
kinds of all parts, and nothing otherwise. The value has the content of what was written, but sets
may list their members in other orders. -/
structure Library.Reads (yaml : Library) (number : Nat) (known : Value → Prop) (v : Value)
    (text : String) : Prop where
  ok : v.Every known →
    ∃ x, yaml.read text = .ok x ∧ v.IsRelisted x ∧ x.Every (Value.IsOfDocument number)
  error : ¬ v.Every known → ∃ e, yaml.read text = .error e

end Yaml

/-- The default of an attribute, if it is not encoded, has no parts of kinds that are not known. -/
def AttributeDecl.IsOfKinds (known : Value → Prop) (a : AttributeDecl) : Prop :=
  a.type.isEncoded = false → a.default.Every known

/-! ### Documents read back -/

private theorem areForms_of_true : Document.AreForms fun _ _ ↦ True :=
  ⟨fun _ ↦ trivial, fun _ _ ↦ trivial, fun _ _ ↦ trivial, fun _ _ _ ↦ trivial,
    fun _ _ _ _ _ ↦ trivial⟩

namespace Model

/-- Whatever library writes and reads the documents, a text of the document of a model is read
exactly if the library knows the kinds of all parts of the defaults that are not encoded. Then the
model that is read has an equal name and version, and its entities are equal to those of the model
exactly if no default loses its offset. Otherwise the text is refused as the library refuses it. -/
theorem exists_readYaml_compareEntities {m : Model} {known : Value → Prop}
    (form : ∀ e ∈ m.entities, e.HasFormIn fun v ↦ v.Every known → v.anonymous.IsKnown) {i : Int}
    (version : m.version.int? = some i) (name : m.name.IsText)
    (plain : Document.AreForms fun _ v ↦ v.Every known) (numbered : m.version.Every known)
    (absent : ∀ id, known (.atom id .null)) {number : Nat}
    (apart : ∀ e ∈ m.entities, ∀ a ∈ e.attributes, a.default.Every (Value.IsApartFrom number))
    {yaml : Yaml.Library} (reads : ∀ d t, m.document = .ok d → yaml.write d = .ok t →
      yaml.Reads number known d t) :
    ∃ d, m.document = .ok d ∧ ∀ t, yaml.write d = .ok t →
      (∀ e ∈ m.entities, ∀ a ∈ e.attributes, a.IsOfKinds known) ∧
          (∃ n b, Document.readYaml yaml t = .ok n ∧ n.name = m.name ∧
            n.version.equals m.version = true ∧ n.compareEntities m = .ok b ∧
            (b = true ↔ ∀ e ∈ m.entities, ∀ a ∈ e.attributes, a.HasLongOffset)) ∨
        (¬ ∀ e ∈ m.entities, ∀ a ∈ e.attributes, a.IsOfKinds known) ∧
          ∃ e, yaml.read t = .error e ∧
            Document.readYaml yaml t = .error (Document.yamlFailure e) := by
  by_cases kinds : ∀ e ∈ m.entities, ∀ a ∈ e.attributes, a.IsOfKinds known
  · have told : ∀ e ∈ m.entities, e.HasFormIn Value.IsTold := fun e he ↦
      (form e he).of_default fun a ha plain ↦
        ((form e he).attributes a ha).form plain (kinds e he a ha plain)
    obtain ⟨es, hd, some, whole, -⟩ := exists_document_anonymous plain (n := 0) numbered name
      fun e he ↦ (told e he).of_default fun a ha plain ↦ kinds e he a ha plain
    refine ⟨_, hd, fun t ht ↦ .inl ⟨kinds, ?_⟩⟩
    obtain ⟨x, hx, relisted, made⟩ := (reads _ t hd ht).ok whole
    obtain ⟨n, b, hn, told⟩ :=
      exists_read_compareEntities version name told hd relisted made apart
    refine ⟨n, b, ?_, told⟩
    have truthy : x.truthy = true := by
      rw [relisted.truthy_eq]
      obtain ⟨e, es, rfl⟩ := List.exists_cons_of_ne_nil some
      rfl
    rw [Document.readYaml, hx]
    simp only [Document.orEmpty, Value.orElse, truthy, if_true]
    exact hn
  · obtain ⟨es, hd, -⟩ := exists_document_anonymous areForms_of_true (n := 0) trivial name
      fun e he ↦ (form e he).of_default fun _ _ _ ↦ trivial
    refine ⟨_, hd, fun t ht ↦ .inr ⟨kinds, ?_⟩⟩
    obtain ⟨e, he⟩ := (reads _ t hd ht).error fun parts ↦
      kinds (every_default absent hd parts)
    refine ⟨e, he, ?_⟩
    rw [Document.readYaml, he]

/-- The library at hand writes the documents of models whose defaults have a form, and reads them if
it knows the kinds of all parts. -/
theorem exists_reads_standard {m : Model} {content : Yaml.ObjectKey → Value}
    (form : ∀ e ∈ m.entities, e.HasFormIn (Yaml.HasForm content Yaml.defaultLimit)) {i : Int}
    (version : m.version.int? = some i) (short : Number.Integer.isTooLong i = false)
    (name : m.name.IsText) (number : Nat) :
    ∃ d t, m.document = .ok d ∧ (Yaml.standard number).write d = .ok t ∧
      (Yaml.standard number).Reads number (fun v ↦ Yaml.isUnknown v = false) d t := by
  have versioned : Yaml.HasForm content (Yaml.defaultLimit + 5) m.version := by
    obtain ⟨id, hid⟩ := Value.exists_eq_of_int? version
    rw [hid]
    exact Yaml.hasForm_atom _ short rfl
  obtain ⟨es, hd, some, whole, -⟩ := exists_document_anonymous Yaml.areForms versioned name form
  have nonempty : es.map (fun e ↦ (Value.text e.1, e.2)) ≠ [] := by simpa using some
  have near := whole.parts.mono fun _ ↦ Yaml.HasFormPart.hasNearKeys
  have written := whole.parts.mono fun _ ↦ Yaml.HasFormPart.isWritten
  obtain ⟨t, ht⟩ : ∃ t, Yaml.text (.record es) = .ok t := by
    obtain ⟨t, _, ht, -⟩ := Yaml.exists_ofChars_text nonempty whole.contents near whole.shallow
      written
    exact ⟨t, ht⟩
  refine ⟨.record es, t, hd, ht, fun told ↦ ?_, fun unknown ↦ ?_⟩
  · obtain ⟨t', x, ht', hx, copy⟩ := Yaml.exists_read_text nonempty whole.contents near
      whole.shallow (whole.every_isPart told) number
    obtain rfl := Except.ok.inj (ht'.symm.trans ht)
    exact ⟨x, congrArg (Except.mapError Yaml.Error.rejection) hx,
      Value.isRelisted_of_anonymous_eq copy.content, copy.made⟩
  · obtain ⟨t', ht', hx⟩ := Yaml.exists_read_text_eq_error nonempty whole.contents near
      whole.shallow written (fun parts ↦ unknown (parts.mono fun _ ↦ Yaml.IsPart.isUnknown_eq))
      number
    obtain rfl := Except.ok.inj (ht'.symm.trans ht)
    exact ⟨_, congrArg (Except.mapError Yaml.Error.rejection) hx⟩

end Model

/-! ### An example -/

namespace Agenda

open EntityGraph.Calendar

/-- What an event spans by default. -/
def span (v : Value) : AttributeDecl :=
  { name := .text "span"
    type := .transformable
    isOptional := true
    default := v
    externalStorage := false
    preservedOnDelete := false
    named := by decide
    typed := ScalarType.checkDefault_transformable _ v }

/-- Events that span something. -/
def spanningEvent (v : Value) : EntityDecl :=
  { name := .text "Event"
    attributes := [span v]
    relationships := []
    isAbstract := false
    boundType := .null
    unique := []
    named := truthy_event
    distinct := by
      refine ⟨?_, ?_⟩ <;> simp [propertyNames, span] }

/-- The third version of a model of such events. -/
def spanningModel (v : Value) : Model :=
  ⟨.text "Agenda", .int 3, [spanningEvent v], isPositive_three⟩

/-- The hours of an event: from a moment on, and on the first day a list of marks. -/
def hours (m : Moment) : Value :=
  .dict .fresh [(.text "from", .atom .fresh (.moment m)), (.int 1, .list [.null, .bool true])]

/-- A pair of hours. -/
def pair : Value := .seq .fresh .tuple [.int 1, .int 2]

/-- Events have a form if what they span has one. -/
theorem hasForm_spanningModel {P : Value → Prop} {v : Value} (ordinary : v.IsOrdinary)
    (number : v.isNaN = false) (form : P v) : ∀ e ∈ (spanningModel v).entities, e.HasFormIn P :=
  List.forall_mem_singleton.mpr
    { textual :=
        { name := ⟨_, rfl⟩
          attributes := List.forall_mem_singleton.mpr ⟨_, rfl⟩
          relationships := List.forall_mem_nil _
          boundType := .inl rfl
          unique := List.forall_mem_nil _ }
      attributes := List.forall_mem_singleton.mpr ⟨ordinary, number, fun _ ↦ form⟩
      inverse := List.forall_mem_nil _
      boundType := .inl rfl }

/-- The hours of an event have a form if the offset of the moment is a number of minutes. -/
private theorem hasForm_hours {m : Moment} (whole : ∀ o, m.offset = some o → 60000000 ∣ o) :
    Yaml.HasForm (fun _ ↦ .null) Yaml.defaultLimit (hours m) where
  parts := by
    have short : Number.Integer.isTooLong 1 = false := by decide +kernel
    have near : Yaml.IsNear "from" := by
      unfold Yaml.IsNear
      decide
    refine ⟨⟨?_, List.pairwise_pair.mpr ?_⟩, ⟨.inl trivial, .inl whole⟩,
      ⟨.inl short, .inl rfl, .inl trivial, .inl trivial, trivial⟩, trivial⟩
    · rw [List.forall_mem_cons, List.forall_mem_singleton]
      exact ⟨⟨⟨_, _, rfl, rfl⟩, fun s hs ↦ Option.some.inj hs ▸ near⟩, ⟨_, _, rfl, rfl⟩, nofun⟩
    · simp [Value.int, Value.text, Value.anonymous, Value.same, Identity.same, Atom.equals,
        Atom.numeral?]
  contents := ⟨nofun, ⟨nofun, nofun⟩, ⟨nofun, nofun, nofun, nofun, trivial⟩, trivial⟩
  shallow := by
    show 2 ≤ 33
    decide

private theorem hasForm_pair : Yaml.HasForm (fun _ ↦ .null) Yaml.defaultLimit pair where
  parts := by
    have one : Number.Integer.isTooLong 1 = false := by decide +kernel
    have two : Number.Integer.isTooLong 2 = false := by decide +kernel
    exact ⟨.inr rfl, .inl one, .inl two, trivial⟩
  contents := ⟨nofun, nofun, nofun, trivial⟩
  shallow := by decide

private theorem isApartFrom_spanningModel {v : Value} {number : Nat}
    (apart : v.Every (Value.IsApartFrom number)) :
    ∀ e ∈ (spanningModel v).entities, ∀ a ∈ e.attributes,
      a.default.Every (Value.IsApartFrom number) :=
  List.forall_mem_singleton.mpr (List.forall_mem_singleton.mpr apart)

/-- The model of events that span an hour of universal time more. -/
def hoursModel : Model := spanningModel (hours (nine 3600000000 (by decide)))

/-- The model of events that span a pair. -/
def pairModel : Model := spanningModel pair

end Agenda

namespace Model

/-- The library at hand reads the example back as an equal model where hours are spanned. -/
theorem exists_readYaml_compareEntities_agenda :
    (∀ e ∈ Agenda.hoursModel.entities, e.HasFormIn fun v ↦
        v.Every (fun u ↦ Yaml.isUnknown u = false) → v.anonymous.IsKnown) ∧
      Agenda.hoursModel.version.int? = some 3 ∧ Agenda.hoursModel.name.IsText ∧
      (∀ e ∈ Agenda.hoursModel.entities, ∀ a ∈ e.attributes,
        a.default.Every (Value.IsApartFrom 0)) ∧
      (∀ d t, Agenda.hoursModel.document = .ok d → (Yaml.standard 0).write d = .ok t →
        (Yaml.standard 0).Reads 0 (fun u ↦ Yaml.isUnknown u = false) d t) ∧
      ∃ d t n, Agenda.hoursModel.document = .ok d ∧ (Yaml.standard 0).write d = .ok t ∧
        Document.readYaml (Yaml.standard 0) t = .ok n ∧
        n.compareEntities Agenda.hoursModel = .ok true := by
  have form := Agenda.hasForm_spanningModel (v := Agenda.hours (Agenda.nine 3600000000 (by decide)))
    trivial rfl (Agenda.hasForm_hours (by rintro o ⟨⟩; decide))
  have told : ∀ e ∈ Agenda.hoursModel.entities, e.HasFormIn fun v ↦
      v.Every (fun u ↦ Yaml.isUnknown u = false) → v.anonymous.IsKnown := fun e he ↦
    (form e he).of_default fun a ha plain whole ↦
      Yaml.isKnown_anonymous ((((form e he).attributes a ha).form plain).every_isPart whole)
  have short : Number.Integer.isTooLong 3 = false := by decide +kernel
  have apart := @Agenda.isApartFrom_spanningModel
    (Agenda.hours (Agenda.nine 3600000000 (by decide))) 0
    ⟨nofun, ⟨nofun, nofun⟩, ⟨nofun, nofun, nofun, nofun, trivial⟩, trivial⟩
  have kinds : ∀ e ∈ Agenda.hoursModel.entities, ∀ a ∈ e.attributes,
      a.IsOfKinds fun u ↦ Yaml.isUnknown u = false :=
    List.forall_mem_singleton.mpr (List.forall_mem_singleton.mpr fun _ ↦
      ⟨rfl, ⟨rfl, rfl⟩, ⟨rfl, rfl, rfl, rfl, trivial⟩, trivial⟩)
  obtain ⟨d, t, hd, ht, reads⟩ :=
    exists_reads_standard (m := Agenda.hoursModel) form (i := 3) rfl short ⟨_, rfl⟩ 0
  have reads' : ∀ d t, Agenda.hoursModel.document = .ok d → (Yaml.standard 0).write d = .ok t →
      (Yaml.standard 0).Reads 0 (fun u ↦ Yaml.isUnknown u = false) d t := by
    intro d' t' hd' ht'
    obtain rfl := Except.ok.inj (hd.symm.trans hd')
    obtain rfl := Except.ok.inj (ht.symm.trans ht')
    exact reads
  obtain ⟨d', hd', whole⟩ := exists_readYaml_compareEntities told (i := 3) rfl ⟨_, rfl⟩
    Yaml.areForms_of_known rfl (fun _ ↦ rfl) apart reads'
  obtain rfl := Except.ok.inj (hd.symm.trans hd')
  obtain ⟨-, n, b, hn, -, -, hb, hiff⟩ | ⟨unknown, -⟩ := whole t ht
  · obtain rfl : b = true := hiff.mpr
      (List.forall_mem_singleton.mpr (List.forall_mem_singleton.mpr nofun))
    exact ⟨told, rfl, ⟨_, rfl⟩, apart, reads', d, t, n, hd, ht, hn, hb⟩
  · exact absurd kinds unknown

/-- The library at hand does not read the example back where a pair is spanned. -/
theorem exists_readYaml_pairModel_eq_error :
    (∀ e ∈ Agenda.pairModel.entities, e.HasFormIn fun v ↦ v.anonymous.IsKnown) ∧
      Agenda.pairModel.version.int? = some 3 ∧ Agenda.pairModel.name.IsText ∧
      ∃ d t, Agenda.pairModel.document = .ok d ∧ (Yaml.standard 0).write d = .ok t ∧
        ∀ n, Document.readYaml (Yaml.standard 0) t ≠ .ok n := by
  have known : Agenda.pair.anonymous.IsKnown := .inr ⟨nofun, nofun, trivial⟩
  have form := Agenda.hasForm_spanningModel (v := Agenda.pair) trivial rfl Agenda.hasForm_pair
  have short : Number.Integer.isTooLong 3 = false := by decide +kernel
  obtain ⟨d, t, hd, ht, reads⟩ :=
    exists_reads_standard (m := Agenda.pairModel) form (i := 3) rfl short ⟨_, rfl⟩ 0
  have unknown : ¬ d.Every fun u ↦ Yaml.isUnknown u = false := fun parts ↦ by
    have kinds := every_default (fun _ ↦ rfl) hd parts
    cases (kinds _ (List.mem_singleton_self _) _ (List.mem_singleton_self _) rfl).1
  obtain ⟨e, he⟩ := reads.error unknown
  refine ⟨Agenda.hasForm_spanningModel trivial rfl known, rfl, ⟨_, rfl⟩, d, t, hd, ht,
    fun n read ↦ ?_⟩
  rw [Document.readYaml, he] at read
  cases read

end Model

end EntityGraph
