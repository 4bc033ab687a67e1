import EntityGraph.Proofs.Reading
import EntityGraph.Proofs.ReadBack.Equality

/-!
# Documents written again

A document that is read is written in a normal form: what this form is read as is written as the
same form again. The one exception are moments whose offset from universal time is shorter than a
second: they lose the offset when the normal form is read.
-/

namespace EntityGraph

open EntityGraph.Number

/-! ### Defaults that documents hold -/

/-- The defaults of an entity are as callers have them. -/
def EntityDecl.HasOrdinaryDefaults (e : EntityDecl) : Prop :=
  ∀ a ∈ e.attributes, a.default.IsOrdinary

private theorem Value.isOrdinary_byte (b : UInt8) : (int b.toNat).IsOrdinary := by
  show Integer.isTooLong b.toNat = false
  rw [Integer.isTooLong, decide_eq_false_iff_not, Nat.not_le]
  have below : ∀ width, 3 ≤ width → b.toNat < Nat.pow 10 width := by
    intro width wide
    calc b.toNat < 256 := b.toNat_lt
      _ ≤ 10 ^ 3 := by decide
      _ ≤ 10 ^ width := Nat.pow_le_pow_right (by decide) wide
  exact below _ (by decide)

private theorem ScalarType.isInRange_decimalOfFloat (x : Binary64) :
    (decimalOfFloat x).IsInRange := by
  rw [decimalOfFloat]
  split
  · next d hd => exact Decimal.isInRange_of_read hd
  · trivial

/-- What a text spells is ordinary. -/
private theorem ScalarType.isOrdinary_of_decodeText {type : ScalarType} {v w : Value} {s : String}
    (hv : v.IsOrdinary) (h : type.decodeText v s = .ok w) : w.IsOrdinary := by
  cases type <;> simp only [decodeText] at h
  case date =>
    split at h <;> split at h <;> cases h <;> trivial
  case binary | uuid =>
    split at h <;> cases h
    trivial
  case decimal =>
    split at h
    · next d hd =>
      obtain rfl := Except.ok.inj h
      exact Decimal.isInRange_of_read hd
    · cases h
  all_goals
    obtain rfl := Except.ok.inj h
    exact hv

/-- What an ordinary value is decoded as is ordinary. -/
private theorem ScalarType.isOrdinary_of_decode {type : ScalarType} {v w : Value}
    (hv : v.IsOrdinary) (h : type.decode v = .ok w) : w.IsOrdinary := by
  unfold decode at h
  split at h
  · next x =>
    split at h
    · obtain rfl := Except.ok.inj h
      exact isInRange_decimalOfFloat x
    · obtain rfl := Except.ok.inj h
      trivial
  · next s =>
    split at h
    · next u hu =>
      obtain rfl := Except.ok.inj h
      exact isOrdinary_of_decodeText hv hu
    · cases h
  · obtain rfl := Except.ok.inj h
    exact hv

/-- What is taken out of a value of ordinary parts has ordinary parts. -/
theorem Value.survives_isOrdinary : Survives IsOrdinary := survives_of_collections fun v hv ↦ by
  cases v with
  | atom => cases hv
  | _ => trivial

namespace Document

private theorem carries_isOrdinary : Carries Value.IsOrdinary Value.IsOrdinary where
  survives := Value.survives_isOrdinary
  null := rfl
  text _ := trivial
  byte := Value.isOrdinary_byte
  decode h := ScalarType.isOrdinary_of_decode h.self

/-- A model that is read has an integer as its version and ordinary defaults. -/
theorem hasOrdinaryDefaults_of_read {v : Value} (h : v.Every Value.IsOrdinary) {m : Model}
    (hm : read v = .ok m) :
    (∃ i, m.version.int? = some i) ∧ ∀ e ∈ m.entities, e.HasOrdinaryDefaults := by
  have ordinary := carries_isOrdinary.default_of_read h hm
  simp only [read, Success.bind_eq_ok, Success.liftM_eq_ok, readVersion_eq_ok] at hm
  obtain ⟨_, -, vs, -, es, -, version, ⟨⟨i, hi, positive⟩, -⟩, hm⟩ := hm
  rw [make_eq_ok _ es (Value.atMostZero_of_int? hi positive)] at hm
  obtain rfl := Except.ok.inj hm
  exact ⟨⟨i, hi⟩, ordinary⟩

end Document

/-! ### Writing what is read -/

/-- Two computations for related members give the same values exactly if they do for every pair. -/
theorem Success.exists_mapM_eq_iff {ε α β γ : Type} {R : α → β → Prop} {P : α → Prop}
    {f : α → Except ε γ} {g : β → Except ε γ} {as : List α} {bs : List β}
    (h : List.Forall₂ R as bs)
    (step : ∀ a b, R a b → ∃ c d, f a = .ok c ∧ g b = .ok d ∧ (d = c ↔ P a)) :
    ∃ cs ds, as.mapM f = .ok cs ∧ bs.mapM g = .ok ds ∧ (ds = cs ↔ ∀ a ∈ as, P a) := by
  induction h with
  | nil => exact ⟨[], [], rfl, rfl, by simp⟩
  | cons hab _ ih =>
    obtain ⟨c, d, hc, hd, hiff⟩ := step _ _ hab
    obtain ⟨cs, ds, hcs, hds, hiffs⟩ := ih
    refine ⟨c :: cs, d :: ds, ?_, ?_, ?_⟩
    · rw [List.mapM_cons, hc, hcs]
      rfl
    · rw [List.mapM_cons, hd, hds]
      rfl
    · rw [List.cons.injEq, List.forall_mem_cons, hiff, hiffs]

/-- What a default is read as is encoded as the default is, unless a moment loses its offset. -/
private theorem ScalarType.Rereads.exists_encode_eq {type : ScalarType} {v code w : Value}
    (h : type.Rereads v code w) : ∃ again, type.encode w = .ok again ∧
      (again = code ↔ (type = .date → v.HasLongOffset)) := by
  cases h with
  | absent => exact ⟨_, rfl, by simp [Value.HasLongOffset, Value.null]⟩
  | kept _ _ some plain =>
    have other : type ≠ .date := by
      rintro rfl
      cases plain
    exact ⟨_, (Rereads.kept type v some plain).encode_eq, by simp [other]⟩
  | date id d => exact ⟨_, rfl, by simp [Value.HasLongOffset]⟩
  | moment id m =>
    refine ⟨_, rfl, ?_⟩
    simpa [Value.text, Value.HasLongOffset] using m.reread_text_eq_iff
  | bytes id growable content => exact ⟨_, rfl, by simp⟩
  | uuid id u => exact ⟨_, rfl, by simp⟩
  | decimal id d range => exact ⟨_, rfl, by simp⟩
  | int id i short => exact ⟨_, rfl, by simp⟩

private theorem ScalarType.Rereads.isNull_eq {type : ScalarType} {v code w : Value}
    (h : type.Rereads v code w) : w.isNull = v.isNull := by
  cases h with
  | kept => rfl
  | _ => rfl

/-- Two records are one exactly if their entries are. -/
theorem Value.record_inj {es fs : List (String × Value)} : record es = record fs ↔ es = fs := by
  have injective : Function.Injective fun (e : String × Value) ↦ (text e.1, e.2) := by
    rintro ⟨k, v⟩ ⟨l, w⟩ h
    simpa [text] using h
  rw [record, record, dict.injEq, List.map_inj_right injective]
  simp

/-- What an attribute is read back as is written as the attribute is, unless its default loses its
offset. -/
private theorem AttributeDecl.IsReread.exists_document {a b : AttributeDecl} (h : a.IsReread b) :
    ∃ d again, a.document = .ok d ∧ b.document = .ok again ∧ (again = d ↔ a.HasLongOffset) := by
  obtain ⟨code, hcode⟩ := h.default
  obtain ⟨again, hagain, hiff⟩ := hcode.exists_encode_eq
  refine ⟨.record (a.entries code), .record (b.entries again), ?_, ?_, ?_⟩
  · rw [document, hcode.encode_eq]
    rfl
  · rw [document, h.type, hagain, ← h.type]
    rfl
  · rw [Value.record_inj, HasLongOffset, ← hiff]
    simp only [entries, h.name, h.type, h.isOptional, h.externalStorage, h.preservedOnDelete,
      hcode.isNull_eq, List.append_cancel_right_eq, List.append_cancel_left_eq]
    cases absent : a.default.isNull with
    | true =>
      have kept : again = code := by
        refine hiff.mpr fun _ ↦ ?_
        unfold Value.isNull at absent
        split at absent
        · next he => rw [he]; trivial
        · cases absent
      simp [Value.entryIf, kept]
    | false => simp [Value.entryIf]

private theorem RelationshipDecl.document_reread (r : RelationshipDecl) :
    r.reread.document = r.document := by
  cases hi : r.inverse.truthy <;> simp [document, reread, Value.orElse, hi, Value.entryIf]

/-- What an entity is read back as is written as the entity is, unless one of its defaults loses its
offset. -/
private theorem EntityDecl.IsReread.exists_document {e f : EntityDecl} (h : e.IsReread f) :
    ∃ d again, e.document = .ok d ∧ f.document = .ok again ∧
      (again = d ↔ ∀ a ∈ e.attributes, a.HasLongOffset) := by
  obtain ⟨ds, again, hds, hagain, hiff⟩ :=
    Success.exists_mapM_eq_iff h.attributes fun _ _ hab ↦ hab.exists_document
  refine ⟨e.documentOf ds, f.documentOf again, ?_, ?_, ?_⟩
  · exact (Success.bind_eq_ok _ _ _).mpr ⟨ds, hds, rfl⟩
  · exact (Success.bind_eq_ok _ _ _).mpr ⟨again, hagain, rfl⟩
  · rw [← hiff, documentOf, documentOf, Value.record_inj, h.name, h.isAbstract, h.boundType,
      h.unique, h.relationships]
    have boundType : Value.entryIf (e.boundType.orElse .null).truthy "bound_type"
        (e.boundType.orElse .null) = Value.entryIf e.boundType.truthy "bound_type" e.boundType := by
      cases hb : e.boundType.truthy <;> simp [Value.orElse, hb, Value.entryIf]
    have attributes : Function.Injective fun d ↦ Value.record [("attribute", d)] := by
      intro d d' hd
      simpa [Value.record_inj] using hd
    simp [boundType, Value.list, Function.comp_def, RelationshipDecl.document_reread,
      List.map_inj_right attributes]

private theorem Model.IsReread.exists_document {m n : Model} (h : m.IsReread n) :
    ∃ d again, m.document = .ok d ∧ n.document = .ok again ∧
      (again = d ↔ ∀ e ∈ m.entities, ∀ a ∈ e.attributes, a.HasLongOffset) := by
  obtain ⟨ds, again, hds, hagain, hiff⟩ :=
    Success.exists_mapM_eq_iff h.entities fun _ _ hef ↦ hef.exists_document
  refine ⟨_, _, (Success.bind_eq_ok _ _ _).mpr ⟨ds, hds, rfl⟩,
    (Success.bind_eq_ok _ _ _).mpr ⟨again, hagain, rfl⟩, ?_⟩
  rw [← hiff, Value.record_inj, h.name, h.version]
  simp [Value.list]

/-- A model of ordinary defaults is written as a document that is read and written again. It is
written as the same document exactly if no default loses its offset. -/
theorem Model.exists_document_read_document (m : Model) {i : Int}
    (version : m.version.int? = some i)
    (ordinary : ∀ e ∈ m.entities, e.HasOrdinaryDefaults) :
    ∃ d n again, m.document = .ok d ∧ Document.read d = .ok n ∧ n.document = .ok again ∧
      (again = d ↔ ∀ e ∈ m.entities, ∀ a ∈ e.attributes, a.HasLongOffset) := by
  obtain ⟨d, n, hd, hn, h⟩ := m.exists_read_document version ordinary
  obtain ⟨d', again, hd', hagain, hiff⟩ := h.exists_document
  obtain rfl := Except.ok.inj (hd.symm.trans hd')
  exact ⟨d, n, again, hd, hn, hagain, hiff⟩

/-- A value that is read as a model is written as a document that is read and written again. It is
written as the same document exactly if no default of the model loses its offset. -/
theorem Document.exists_document_of_read {v : Value} (ordinary : v.Every Value.IsOrdinary)
    {m : Model} (hm : read v = .ok m) :
    ∃ d n again, m.document = .ok d ∧ read d = .ok n ∧ n.document = .ok again ∧
      (again = d ↔ ∀ e ∈ m.entities, ∀ a ∈ e.attributes, a.HasLongOffset) := by
  obtain ⟨⟨i, hversion⟩, hdefaults⟩ := hasOrdinaryDefaults_of_read ordinary hm
  exact m.exists_document_read_document hversion hdefaults

/-! ### An example -/

namespace Agenda

open EntityGraph.Calendar

/-- A document of events whose beginning is given as a moment instead of a text. -/
def typedDocument (m : Moment) : Value :=
  .record
    [("name", .text "Agenda"), ("version", .int 3), ("entities", .list
      [.record
        [("name", .text "Event"), ("properties", .list
          [.record [("attribute", .record
            [("name", .text "begins"), ("type", .text "date"), ("optional", .bool false),
              ("preserve_on_delete", .bool true), ("default", .atom .fresh (.moment m))])]])]])]

/-- The event that the document declares. -/
def typedEvent (m : Moment) : EntityDecl :=
  { name := .text "Event"
    attributes := [begins m]
    relationships := []
    isAbstract := false
    boundType := .null
    unique := []
    named := truthy_event
    distinct := ⟨by simp [propertyNames, begins], by simp [propertyNames]⟩ }

/-- The document is read as a model of the event. -/
theorem read_typedDocument (m : Moment) : Document.read (typedDocument m) =
    .ok ⟨.text "Agenda", .int 3, [typedEvent m], isPositive_three⟩ := by
  with_unfolding_all rfl

/-- The parts of the document are as callers have them. -/
theorem every_typedDocument (m : Moment) : (typedDocument m).Every Value.IsOrdinary := by
  have three : (Value.int 3).IsOrdinary := by
    show Integer.isTooLong 3 = false
    decide +kernel
  have three' : Value.IsOrdinary (.atom .fresh (.int 3)) := three
  simp [typedDocument, Value.record, Value.list, Value.text, Value.int, Value.bool, Value.Every,
    Value.EveryMember, Value.EveryEntry, three']
  simp [Value.IsOrdinary]

/-- The default of the document loses its offset exactly if the offset is shorter than a second. -/
theorem hasLongOffset_typedEvent_iff (m : Moment) :
    (∀ e ∈ [typedEvent m], ∀ a ∈ e.attributes, a.HasLongOffset) ↔
      ∀ o, m.offset = some o → o = 0 ∨ 1000000 ≤ o.natAbs := by
  simp [typedEvent, begins, AttributeDecl.HasLongOffset, Value.HasLongOffset]

end Agenda

namespace Document

/-- The example is written as one document and no other where its offset is an hour. -/
theorem exists_document_of_read_agenda :
    (Agenda.typedDocument (Agenda.nine 3600000000 (by decide))).Every Value.IsOrdinary ∧
      ∃ m d n, read (Agenda.typedDocument (Agenda.nine 3600000000 (by decide))) = .ok m ∧
        m.document = .ok d ∧ read d = .ok n ∧ n.document = .ok d := by
  have ordinary := Agenda.every_typedDocument (Agenda.nine 3600000000 (by decide))
  have hm := Agenda.read_typedDocument (Agenda.nine 3600000000 (by decide))
  obtain ⟨d, n, again, hd, hn, hagain, hiff⟩ := exists_document_of_read ordinary hm
  rw [Agenda.hasLongOffset_typedEvent_iff] at hiff
  obtain rfl : again = d := hiff.mpr (by rintro o ⟨⟩; decide)
  exact ⟨ordinary, _, again, n, hm, hd, hn, hagain⟩

/-- The example is written as two different documents where its offset is a microsecond. -/
theorem exists_document_of_read_ne : ∃ v m d n again,
    v.Every Value.IsOrdinary ∧ read v = .ok m ∧ m.document = .ok d ∧ read d = .ok n ∧
      n.document = .ok again ∧ again ≠ d := by
  have ordinary := Agenda.every_typedDocument (Agenda.nine 1 (by decide))
  have hm := Agenda.read_typedDocument (Agenda.nine 1 (by decide))
  obtain ⟨⟨i, hversion⟩, hdefaults⟩ := hasOrdinaryDefaults_of_read ordinary hm
  obtain ⟨d, n, again, hd, hn, hagain, hiff⟩ :=
    Model.exists_document_read_document _ hversion hdefaults
  rw [Agenda.hasLongOffset_typedEvent_iff] at hiff
  refine ⟨_, _, d, n, again, ordinary, hm, hd, hn, hagain, fun same ↦ ?_⟩
  exact absurd (hiff.mp same 1 rfl) (by decide)

end Document

end EntityGraph
