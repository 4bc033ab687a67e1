import EntityGraph.Document.Json
import EntityGraph.Proofs.ReadBack.Forms
import EntityGraph.Proofs.ReadBack.Json

/-!
# JSON documents read back

The JSON text of the document of a model is read as the anonymous document, which is the document of
the model with an anonymous version and anonymous defaults. So it declares what the model declares,
and its declarations are equal to those of the model, unless a moment loses its offset from
universal time.
-/

namespace EntityGraph

/-! ### Documents with a form -/

/-- JSON has a form for the default of an attribute: it is encoded in a text, or built from parts
with a form. Besides, it is as callers have it and no number that is none. -/
structure AttributeDecl.HasJsonForm (a : AttributeDecl) : Prop where
  ordinary : a.default.IsOrdinary
  number : a.default.isNaN = false
  form : a.type.isEncoded = false → a.default.Every Json.IsPart

/-- An entity is declared in texts, names no inverse and no bound type by an empty text, and has
defaults that JSON has a form for. -/
structure EntityDecl.HasJsonForm (e : EntityDecl) : Prop where
  textual : e.IsTextual
  attributes : ∀ a ∈ e.attributes, a.HasJsonForm
  inverse : ∀ r ∈ e.relationships, r.inverse.isNull = true ∨ r.inverse.truthy = true
  boundType : e.boundType.isNull = true ∨ e.boundType.truthy = true

private theorem Json.areForms : Document.AreForms fun _ v ↦ v.Every Json.IsPart where
  null _ := every_null
  bool _ := every_bool
  text _ := every_text
  list _ _ := every_list
  record _ _ distinct _ := every_record distinct

/-- JSON has a form for an entity if it has forms for its defaults. -/
theorem EntityDecl.HasJsonForm.hasFormIn {e : EntityDecl} (h : e.HasJsonForm) :
    e.HasFormIn fun v ↦ v.Every Json.IsPart where
  textual := h.textual
  attributes a ha :=
    ⟨(h.attributes a ha).ordinary, (h.attributes a ha).number, (h.attributes a ha).form⟩
  inverse := h.inverse
  boundType := h.boundType

/-! ### Documents read back -/

namespace Model

variable {m : Model} (form : ∀ e ∈ m.entities, e.HasJsonForm)

include form

/-- The entities of a model read from its anonymous document can be compared with those of the
model, and are equal unless a default loses its offset. -/
theorem IsReread.exists_compareEntities_anonymous {n : Model} (h : m.anonymous.IsReread n) :
    ∃ b, n.compareEntities m = .ok b ∧
      (b = true ↔ ∀ e ∈ m.entities, ∀ a ∈ e.attributes, a.HasLongOffset) :=
  h.exists_compareEntities_of_hasForm (fun e he ↦ (form e he).hasFormIn)
    fun _ ↦ Json.isKnown_anonymous

/-- The JSON text of the document of a model is read as what its anonymous document declares. -/
theorem exists_readJson {i : Int} (version : m.version.int? = some i)
    (short : Number.Integer.isTooLong i = false) (name : m.name.IsText) :
    ∃ d t n, m.document = .ok d ∧ Document.jsonText d = .ok t ∧ Document.readJson t = .ok n ∧
      m.anonymous.IsReread n := by
  have forms : ∀ e ∈ m.entities, e.HasFormIn fun v ↦ v.Every Json.IsPart :=
    fun e he ↦ (form e he).hasFormIn
  have number : m.version.Every Json.IsPart := by
    obtain ⟨id, hid⟩ := Value.exists_eq_of_int? version
    rw [hid]
    exact Json.every_int id short
  obtain ⟨es, hd, some, parts, hanonymous⟩ :=
    exists_document_anonymous Json.areForms (n := 0) number name forms
  obtain ⟨t, ht, hread⟩ := Json.exists_read_text Json.isSpaced_document parts
  obtain ⟨c, n, hc, hn, h⟩ := exists_read_anonymous forms version
  obtain rfl : c = (Value.record es).anonymous := Except.ok.inj (hc.symm.trans hanonymous)
  have truthy : (Value.record es).anonymous.truthy = true := by
    obtain ⟨e, es, rfl⟩ := List.exists_cons_of_ne_nil some
    rw [Value.truthy_anonymous]
    rfl
  refine ⟨.record es, t, n, hd, ht, ?_, h⟩
  rw [Document.readJson]
  simp only [hread, Document.orEmpty, Value.orElse, truthy, if_true]
  exact hn

/-- The JSON text of the document of a model is read as a model of an equal name and version. Its
entities are equal to those of the model exactly if no default loses its offset. -/
theorem exists_readJson_compareEntities {i : Int} (version : m.version.int? = some i)
    (short : Number.Integer.isTooLong i = false) (name : m.name.IsText) :
    ∃ d t n b, m.document = .ok d ∧ Document.jsonText d = .ok t ∧ Document.readJson t = .ok n ∧
      n.name = m.name ∧ n.version.equals m.version = true ∧ n.compareEntities m = .ok b ∧
      (b = true ↔ ∀ e ∈ m.entities, ∀ a ∈ e.attributes, a.HasLongOffset) := by
  obtain ⟨d, t, n, hd, ht, hn, h⟩ := exists_readJson form version short name
  obtain ⟨b, hb, hiff⟩ := h.exists_compareEntities_anonymous form
  have equal : n.version.equals m.version = true := by
    obtain ⟨id, hid⟩ := Value.exists_eq_of_int? version
    have content : n.version = m.version.anonymous := h.version
    have self : (Atom.int i).equals (.int i) = true := Atom.equals_self rfl
    rw [content, hid]
    simp [Value.equals, Value.anonymous, Value.same, Value.isNaN, Atom.isNaN, self]
  exact ⟨d, t, n, b, hd, ht, hn, h.name, equal, hb, hiff⟩

end Model

/-! ### An example -/

namespace Agenda

open EntityGraph.Calendar

/-- What is noted about an event: by default where it takes place, and two remarks. -/
def notes : AttributeDecl :=
  { name := .text "notes"
    type := .transformable
    isOptional := true
    default := .record
      [("place", .text "Café \"Zur Linde\""), ("remarks", .list [.int 2, .null, .bool true])]
    externalStorage := false
    preservedOnDelete := false
    named := by decide
    typed := rfl }

/-- Events with notes. -/
def notedEvent (m : Moment) : EntityDecl :=
  { name := .text "Event"
    attributes := [begins m, price, notes]
    relationships := [next]
    isAbstract := false
    boundType := .null
    unique := [.text "begins"]
    named := truthy_event
    distinct := by
      refine ⟨?_, ?_⟩ <;> simp [propertyNames, begins, price, notes, next] }

/-- The third version of a model of events with notes. -/
def notedModel (m : Moment) : Model := ⟨.text "Agenda", .int 3, [notedEvent m], isPositive_three⟩

/-- JSON has a form for the entities of the example. -/
theorem hasJsonForm (m : Moment) : ∀ e ∈ (notedModel m).entities, e.HasJsonForm := by
  have textual : (notedEvent m).IsTextual := by
    have hnext : next.IsTextual := ⟨⟨_, rfl⟩, ⟨_, rfl⟩, .inr ⟨_, rfl⟩⟩
    refine ⟨⟨⟨_, rfl⟩, ?_, ?_, ?_⟩, .inl rfl⟩
    · simp [notedEvent, begins, price, notes, Value.IsText]
    · simpa [notedEvent] using hnext
    · simp [notedEvent, Value.IsText]
  have hbegins : (begins m).HasJsonForm := ⟨trivial, rfl, by rintro ⟨⟩⟩
  have hprice : price.HasJsonForm := by
    refine ⟨?_, rfl, by rintro ⟨⟩⟩
    show Number.Decimal.InRange 150 (-2)
    decide
  have hnotes : notes.HasJsonForm := by
    have remarks : ∀ v ∈ [.int 2, .null, .bool true], Value.Every Json.IsPart v := by
      simp only [List.forall_mem_cons]
      exact ⟨Json.every_int .fresh (by decide +kernel), Json.every_null, Json.every_bool true,
        List.forall_mem_nil _⟩
    refine ⟨trivial, rfl, fun _ ↦ Json.every_record (by simp) ?_⟩
    simp only [List.forall_mem_cons]
    exact ⟨Json.every_text _, Json.every_list remarks, List.forall_mem_nil _⟩
  simp only [notedModel, List.forall_mem_singleton]
  refine ⟨textual, ?_, ?_, .inl rfl⟩
  · simpa [notedEvent] using ⟨hbegins, hprice, hnotes⟩
  · simp [notedEvent, next]

/-- A default of the example loses its offset exactly if the offset is shorter than a second. -/
theorem hasLongOffset_notedModel_iff (m : Moment) :
    (∀ e ∈ (notedModel m).entities, ∀ a ∈ e.attributes, a.HasLongOffset) ↔
      ∀ o, m.offset = some o → o = 0 ∨ 1000000 ≤ o.natAbs := by
  simp [notedModel, notedEvent, begins, price, notes, AttributeDecl.HasLongOffset,
    Value.HasLongOffset]

end Agenda

namespace Model

/-- The example is read back as an equal model where its offset is an hour. -/
theorem exists_readJson_compareEntities_agenda :
    (∀ e ∈ (Agenda.notedModel (Agenda.nine 3600000000 (by decide))).entities, e.HasJsonForm) ∧
      (Agenda.notedModel (Agenda.nine 3600000000 (by decide))).version.int? = some 3 ∧
      Number.Integer.isTooLong 3 = false ∧
      (Agenda.notedModel (Agenda.nine 3600000000 (by decide))).name.IsText ∧
      ∃ d t n, (Agenda.notedModel (Agenda.nine 3600000000 (by decide))).document = .ok d ∧
        Document.jsonText d = .ok t ∧ Document.readJson t = .ok n ∧
        n.compareEntities (Agenda.notedModel (Agenda.nine 3600000000 (by decide))) = .ok true := by
  have form := Agenda.hasJsonForm (Agenda.nine 3600000000 (by decide))
  have short : Number.Integer.isTooLong 3 = false := by decide +kernel
  obtain ⟨d, t, n, b, hd, ht, hn, -, -, hb, hiff⟩ :=
    exists_readJson_compareEntities form rfl short ⟨_, rfl⟩
  rw [Agenda.hasLongOffset_notedModel_iff] at hiff
  obtain rfl : b = true := hiff.mpr (by rintro o ⟨⟩; decide)
  exact ⟨form, rfl, short, ⟨_, rfl⟩, d, t, n, hd, ht, hn, hb⟩

/-- The example is read back as a different model where its offset is a microsecond. -/
theorem exists_readJson_compareEntities_eq_false :
    ∃ m : Model, (∀ e ∈ m.entities, e.HasJsonForm) ∧
      (∃ i, m.version.int? = some i ∧ Number.Integer.isTooLong i = false) ∧ m.name.IsText ∧
      ∃ d t n, m.document = .ok d ∧ Document.jsonText d = .ok t ∧ Document.readJson t = .ok n ∧
        n.compareEntities m = .ok false := by
  have form := Agenda.hasJsonForm (Agenda.nine 1 (by decide))
  have short : Number.Integer.isTooLong 3 = false := by decide +kernel
  obtain ⟨d, t, n, hd, ht, hn, h⟩ := exists_readJson form (i := 3) rfl short ⟨_, rfl⟩
  obtain ⟨b, hb, hiff⟩ := h.exists_compareEntities_anonymous form
  rw [Agenda.hasLongOffset_notedModel_iff] at hiff
  obtain rfl : b = false := by
    rw [← Bool.not_eq_true, hiff]
    intro long
    exact absurd (long 1 rfl) (by decide)
  exact ⟨_, form, ⟨3, rfl, short⟩, ⟨_, rfl⟩, d, t, n, hd, ht, hn, hb⟩

end Model

end EntityGraph
