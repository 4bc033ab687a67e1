import EntityGraph.Proofs.ReadBack.Document

/-!
# Equality of models read back

The document of a model is read as an equal model, unless a moment loses its offset from universal
time.
-/

namespace EntityGraph

/-! ### Lists -/

section Lists

variable {α : Type} {R : α → α → Prop} {same endless : α → α → Bool} {as bs : List α}

/-- Counterparts are equal place by place exactly if each of them is. -/
theorem sameLists_iff {P : α → Prop} (h : List.Forall₂ R as bs)
    (step : ∀ a ∈ as, ∀ b, R a b → (same b a = true ↔ P a)) :
    sameLists same bs as = true ↔ ∀ a ∈ as, P a := by
  induction h with
  | nil => simp [sameLists]
  | cons hab _ ih =>
    rw [List.forall_mem_cons] at step ⊢
    rw [sameLists, Bool.and_eq_true, step.1 _ hab, ih step.2]

private theorem sameLists_map (f : α → α) (h : ∀ a ∈ as, same (f a) a = true) :
    sameLists same (as.map f) as = true := by
  induction as with
  | nil => rfl
  | cons a as ih =>
    rw [List.forall_mem_cons] at h
    rw [List.map_cons, sameLists, h.1, ih h.2]
    rfl

/-- Comparing counterparts place by place ends if it does for each of them. -/
theorem endlessLists_eq_false (h : List.Forall₂ R as bs)
    (step : ∀ a ∈ as, ∀ b, R a b → endless b a = false) :
    endlessLists same endless bs as = false := by
  induction h with
  | nil => rfl
  | cons hab _ ih =>
    rw [List.forall_mem_cons] at step
    rw [endlessLists, step.1 _ hab, ih step.2, Bool.and_false]
    rfl

end Lists

/-! ### Declarations -/

/-- The default of an attribute is as callers have it, is known to be what it is, and is not a
number that is none. -/
structure AttributeDecl.IsRecoverable (a : AttributeDecl) : Prop where
  ordinary : a.default.IsOrdinary
  known : a.default.IsKnown
  number : a.default.isNaN = false

/-- An entity is declared in texts, names no inverse and no bound type by an empty text, and has
defaults that can be recovered. -/
structure EntityDecl.IsRecoverable (e : EntityDecl) : Prop where
  textual : e.IsTextual
  attributes : ∀ a ∈ e.attributes, a.IsRecoverable
  inverse : ∀ r ∈ e.relationships, r.inverse.isNull = true ∨ r.inverse.truthy = true
  boundType : e.boundType.isNull = true ∨ e.boundType.truthy = true

private theorem Value.null_same {v : Value} (h : v.isNull = true) : null.same v = true := by
  unfold isNull at h
  split at h
  · simp [null, same, Atom.equals, Atom.numeral?]
  · cases h

/-- A text that is not empty, or an absent value, is written and read as the same value. -/
theorem Value.orElse_null_same {v : Value} (text : v.isNull = true ∨ v.IsText)
    (some : v.isNull = true ∨ v.truthy = true) : (v.orElse .null).same v = true := by
  cases absent : v.isNull with
  | true =>
    rw [orElse, truthy_of_isNull absent]
    exact null_same absent
  | false =>
    have truthy := some.resolve_left (by simp [absent])
    have text := text.resolve_left (by simp [absent])
    rw [orElse, truthy, if_pos rfl]
    exact (text.same_iff text).mpr rfl

namespace AttributeDecl

variable {a b : AttributeDecl} (h : a.IsReread b) (recoverable : a.IsRecoverable)

include h recoverable

private theorem same_iff (text : a.name.IsText) : b.same a = true ↔ a.HasLongOffset := by
  obtain ⟨code, hd⟩ := h.default
  have name : a.name.same a.name = true := (text.same_iff text).mpr rfl
  rw [HasLongOffset, ← hd.same_iff recoverable.known recoverable.number]
  simp [same, h.name, h.type, h.isOptional, h.externalStorage, h.preservedOnDelete, name]

private theorem endless_eq_false : b.endless a = false := by
  obtain ⟨code, hd⟩ := h.default
  rw [endless, hd.endless_eq_false recoverable.known, Bool.and_false]

end AttributeDecl

private theorem RelationshipDecl.reread_same {r : RelationshipDecl} (texts : r.IsTextual)
    (inverse : r.inverse.isNull = true ∨ r.inverse.truthy = true) : r.reread.same r = true := by
  have name : r.name.same r.name = true := (texts.name.same_iff texts.name).mpr rfl
  have destination : r.destination.same r.destination = true :=
    (texts.destination.same_iff texts.destination).mpr rfl
  have inverse := Value.orElse_null_same texts.inverse inverse
  simp [same, reread, name, destination, inverse]

namespace EntityDecl

variable {e f : EntityDecl} (h : e.IsReread f) (recoverable : e.IsRecoverable)

include h recoverable

/-- An entity is read back as an equal one unless one of its defaults loses its offset. -/
private theorem same_iff : f.same e = true ↔ ∀ a ∈ e.attributes, a.HasLongOffset := by
  have texts := recoverable.textual
  have name : e.name.same e.name = true := (texts.name.same_iff texts.name).mpr rfl
  have attributes : sameLists AttributeDecl.same f.attributes e.attributes = true ↔
      ∀ a ∈ e.attributes, a.HasLongOffset := sameLists_iff h.attributes fun a ha _ hab ↦
    AttributeDecl.same_iff hab (recoverable.attributes a ha) (texts.attributes a ha)
  have relationships : sameLists RelationshipDecl.same f.relationships e.relationships = true := by
    rw [h.relationships]
    exact sameLists_map _ fun r hr ↦
      RelationshipDecl.reread_same (texts.relationships r hr) (recoverable.inverse r hr)
  have boundType : f.boundType.same e.boundType = true := by
    rw [h.boundType]
    exact Value.orElse_null_same texts.boundType recoverable.boundType
  have unique : sameLists Value.same (e.unique.map id) e.unique = true :=
    sameLists_map id fun n hn ↦ ((texts.unique n hn).same_iff (texts.unique n hn)).mpr rfl
  rw [List.map_id] at unique
  rw [← attributes]
  simp [same, h.name, h.isAbstract, h.unique, name, relationships, boundType, unique]

private theorem endless_eq_false : f.endless e = false := by
  obtain ⟨s, hs⟩ := recoverable.textual.name
  have name : f.name.endless e.name = false := by
    rw [h.name, hs]
    exact Value.endless_self (Value.isKnown_text s)
  have attributes : endlessLists AttributeDecl.same AttributeDecl.endless f.attributes
      e.attributes = false := endlessLists_eq_false h.attributes fun a ha _ hab ↦
    AttributeDecl.endless_eq_false hab (recoverable.attributes a ha)
  rw [endless, name, attributes, Bool.and_false]
  rfl

end EntityDecl

/-! ### Models -/

namespace Model

/-- The entities of a model read back can be compared with those of the model, and are equal unless
a default loses its offset. -/
theorem IsReread.exists_compareEntities {m n : Model} (h : m.IsReread n)
    (recoverable : ∀ e ∈ m.entities, e.IsRecoverable) : ∃ b, n.compareEntities m = .ok b ∧
      (b = true ↔ ∀ e ∈ m.entities, ∀ a ∈ e.attributes, a.HasLongOffset) := by
  have ends : n.endlessEntities m = false := by
    have entities : endlessLists EntityDecl.same EntityDecl.endless n.entities m.entities = false :=
      endlessLists_eq_false h.entities fun e he _ hef ↦
        EntityDecl.endless_eq_false hef (recoverable e he)
    rw [endlessEntities, entities, Bool.and_false]
  refine ⟨n.sameEntities m, ?_, sameLists_iff h.entities fun e he _ hef ↦
    EntityDecl.same_iff hef (recoverable e he)⟩
  rw [compareEntities, ends]
  rfl

/-- The document of a model is read as a model of the same name and version. Its entities are equal
to those of the model exactly if no default loses its offset. -/
theorem exists_read_document_compareEntities (m : Model) {i : Int}
    (version : m.version.int? = some i) (recoverable : ∀ e ∈ m.entities, e.IsRecoverable) :
    ∃ d n b, m.document = .ok d ∧ Document.read d = .ok n ∧ n.name = m.name ∧
      n.version = m.version ∧ n.compareEntities m = .ok b ∧
      (b = true ↔ ∀ e ∈ m.entities, ∀ a ∈ e.attributes, a.HasLongOffset) := by
  obtain ⟨d, n, hd, hn, h⟩ := m.exists_read_document version fun e he a ha ↦
    ((recoverable e he).attributes a ha).ordinary
  obtain ⟨b, hb, hiff⟩ := h.exists_compareEntities recoverable
  exact ⟨d, n, b, hd, hn, h.name, h.version, hb, hiff⟩

end Model

/-! ### An example -/

namespace Agenda

open EntityGraph.Calendar

/-- Nine o'clock on a day in May, at an offset from universal time. -/
def nine (offset : Int) (h : offset.natAbs < dayMicroseconds) : Moment :=
  ⟨⟨2024, 5, 1, by decide⟩, 9, 0, 0, 0, some offset, by decide, h⟩

/-- When an event begins. -/
def begins (m : Moment) : AttributeDecl :=
  { name := .text "begins"
    type := .date
    isOptional := false
    default := .atom .fresh (.moment m)
    externalStorage := false
    preservedOnDelete := true
    named := by decide
    typed := rfl }

/-- What an event costs: by default one and a half, written with two places. -/
def price : AttributeDecl :=
  { name := .text "price"
    type := .decimal
    isOptional := true
    default := .atom .fresh (.decimal (.finite false 150 (-2)))
    externalStorage := false
    preservedOnDelete := false
    named := by decide
    typed := rfl }

/-- Events have a name. -/
theorem truthy_event : (Value.text "Event").truthy = true := by decide

/-- The third version is positive. -/
theorem isPositive_three : (Value.int 3).atMostZero = .ok false := by decide +kernel

/-- The event that follows an event, which it follows in return. -/
def next : RelationshipDecl :=
  { name := .text "next"
    destination := .text "Event"
    isToMany := false
    isOptional := true
    deleteRule := .cascade
    inverse := .text "next"
    named := by decide
    directed := truthy_event }

/-- Events, no two of which begin at one time. -/
def event (m : Moment) : EntityDecl :=
  { name := .text "Event"
    attributes := [begins m, price]
    relationships := [next]
    isAbstract := false
    boundType := .null
    unique := [.text "begins"]
    named := truthy_event
    distinct := by
      refine ⟨?_, ?_⟩ <;> simp [propertyNames, begins, price, next] }

/-- The third version of a model of events. -/
def model (m : Moment) : Model := ⟨.text "Agenda", .int 3, [event m], isPositive_three⟩

/-- The entities of the example are recoverable. -/
theorem isRecoverable (m : Moment) : ∀ e ∈ (model m).entities, e.IsRecoverable := by
  have textual : (event m).IsTextual := by
    have hnext : next.IsTextual := ⟨⟨_, rfl⟩, ⟨_, rfl⟩, .inr ⟨_, rfl⟩⟩
    refine ⟨⟨⟨_, rfl⟩, ?_, ?_, ?_⟩, .inl rfl⟩
    · simp [event, begins, price, Value.IsText]
    · simpa [event] using hnext
    · simp [event, Value.IsText]
  have hbegins : (begins m).IsRecoverable := by
    refine ⟨trivial, ?_, rfl⟩
    simp [begins, Value.IsKnown, Atom.isElusive, Atom.isNaN]
  have hprice : price.IsRecoverable := by
    refine ⟨?_, ?_, rfl⟩
    · show Number.Decimal.InRange 150 (-2)
      decide
    · simp [price, Value.IsKnown, Atom.isElusive, Atom.isNaN]
  simp only [model, List.forall_mem_singleton]
  refine ⟨textual, ?_, ?_, .inl rfl⟩
  · simpa [event] using ⟨hbegins, hprice⟩
  · simp [event, next]

/-- A default of the example loses its offset exactly if the offset is shorter than a second. -/
theorem hasLongOffset_iff (m : Moment) :
    (∀ e ∈ (model m).entities, ∀ a ∈ e.attributes, a.HasLongOffset) ↔
      ∀ o, m.offset = some o → o = 0 ∨ 1000000 ≤ o.natAbs := by
  simp [model, event, begins, price, AttributeDecl.HasLongOffset, Value.HasLongOffset]

end Agenda

namespace Model

/-- The example is read back as an equal model where its offset is an hour. -/
theorem exists_read_document_compareEntities_agenda :
    (Agenda.model (Agenda.nine 3600000000 (by decide))).version.int? = some 3 ∧
      (∀ e ∈ (Agenda.model (Agenda.nine 3600000000 (by decide))).entities, e.IsRecoverable) ∧
      ∃ d n, (Agenda.model (Agenda.nine 3600000000 (by decide))).document = .ok d ∧
        Document.read d = .ok n ∧
        n.compareEntities (Agenda.model (Agenda.nine 3600000000 (by decide))) = .ok true := by
  have recoverable := Agenda.isRecoverable (Agenda.nine 3600000000 (by decide))
  obtain ⟨d, n, b, hd, hn, -, -, hb, hiff⟩ :=
    exists_read_document_compareEntities _ (i := 3) rfl recoverable
  rw [Agenda.hasLongOffset_iff] at hiff
  obtain rfl : b = true := hiff.mpr (by rintro o ⟨⟩; decide)
  exact ⟨rfl, recoverable, d, n, hd, hn, hb⟩

/-- The example is read back as a different model where its offset is a microsecond. -/
theorem exists_read_document_compareEntities_eq_false :
    ∃ m : Model, (∃ i, m.version.int? = some i) ∧ (∀ e ∈ m.entities, e.IsRecoverable) ∧
      ∃ d n, m.document = .ok d ∧ Document.read d = .ok n ∧ n.compareEntities m = .ok false := by
  have recoverable := Agenda.isRecoverable (Agenda.nine 1 (by decide))
  obtain ⟨d, n, hd, hn, h⟩ := (Agenda.model (Agenda.nine 1 (by decide))).exists_read_document
    (i := 3) rfl fun e he a ha ↦ ((recoverable e he).attributes a ha).ordinary
  obtain ⟨b, hb, hiff⟩ := h.exists_compareEntities recoverable
  rw [Agenda.hasLongOffset_iff] at hiff
  obtain rfl : b = false := by
    rw [← Bool.not_eq_true, hiff]
    intro long
    exact absurd (long 1 rfl) (by decide)
  exact ⟨_, ⟨3, rfl⟩, recoverable, d, n, hd, hn, hb⟩

end Model

end EntityGraph
