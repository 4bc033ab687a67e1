import EntityGraph.Proofs.ReadBack.JsonDocument
import EntityGraph.Proofs.Relisting

/-!
# JSON of schemas read back

The view of a schema is built from plain atoms, lists, and mappings of distinct texts, if no default
holds a binary number: an opaque default stands in it in canonical form, any other one as it is or
as a text. So its JSON text is read as an equal value, whatever it is indented by.
-/

namespace EntityGraph

open EntityGraph.Number

/-! ### Indentations -/

namespace Json.Indent

/-- An indentation is none, or a number of spaces that is a size and that there is memory for. -/
def Fits : Indent → Prop
  | none => True
  | width n => -Value.sizeBound ≤ n ∧ n ≤ Value.memoryBound
  | unit _ => False

/-- Lines indented by spaces are laid out with nothing but blanks, and so is one line. -/
private theorem Fits.exists_unit? {indent : Indent} (h : indent.Fits) :
    ∃ unit, indent.unit? = .ok unit ∧ (unit.elim Style.line Style.indented).IsSpaced := by
  cases indent with
  | none => exact ⟨.none, rfl, isSpaced_line⟩
  | width n =>
    obtain ⟨low, high⟩ := h
    have bounds : (Value.memoryBound : Int) < Value.sizeBound := by decide
    have size : ¬ (n < -Value.sizeBound ∨ Value.sizeBound ≤ n) := by omega
    have spaced : spaces n = .ok (String.ofList (List.replicate n.toNat ' ')) := by
      rw [spaces, if_neg size, if_neg (by omega)]
    refine ⟨some _, by rw [unit?, spaced]; rfl, isSpaced_indented ?_⟩
    rw [String.toList_ofList]
    intro c hc
    rw [List.eq_of_mem_replicate hc]
    rfl
  | unit text => cases h

/-- A number of spaces that is no size is refused. -/
theorem unit?_eq_error {n : Int} (h : n < -Value.sizeBound ∨ Value.sizeBound ≤ n) :
    (width n).unit? = .error .hugeSize := by
  rw [unit?, spaces, if_pos h]
  rfl

end Json.Indent

/-! ### Defaults in a view -/

/-- A part of a default that JSON can write as it is read: no binary number, and no integer that has
too many digits. -/
def Value.IsExact : Value → Prop
  | .atom _ (.float _) => False
  | .atom _ (.int i) => Integer.isTooLong i = false
  | _ => True

namespace Json

/-- An atom that is its own canonical form has a form if it is exact. -/
theorem isPart_of_isFormalAtom (id : Identity) {a : Atom} (formal : Value.isFormalAtom a = true)
    (writable : (Value.atom id a).IsExact) : IsPart (.atom id a) := by
  cases a with
  | float x => cases writable
  | int i =>
    refine ⟨rfl, ?_⟩
    rintro _ ⟨⟩
    exact writable
  | null | bool | text => exact ⟨rfl, nofun⟩
  | _ => cases formal

private theorem isKeptByForms : Value.IsKeptByForms Value.IsExact IsPart where
  atoms id _ := isPart_of_isFormalAtom id
  texts := every_text
  lists _ := rfl
  mappings es texts distinct := by
    obtain ⟨ps, rfl⟩ := Value.exists_pairs texts
    rw [List.map_map] at distinct
    refine ⟨ps.map (·.1), ?_, List.Nodup.of_map Value.text ?_⟩
    · rw [List.map_map, List.map_map]
      rfl
    · rwa [List.map_map]

end Json

namespace ScalarType

variable {type : ScalarType} {name v code : Value}

/-- A default that is there is encoded as a text, or as itself where its type encodes nothing. -/
private theorem eq_text_or_of_encode (some : v.isNull = false) (h : type.encode v = .ok code) :
    (∃ s, code = .text s) ∨ type.isEncoded = false ∧ code = v := by
  unfold encode at h
  split at h
  · next absent => cases some.symm.trans absent
  · split at h
    · exact .inl ⟨_, (Except.ok.inj h).symm⟩
    · exact .inl ⟨_, (Except.ok.inj h).symm⟩
    · cases h
    · obtain ⟨content, -, rfl⟩ := (Success.map_eq_ok _ _ _).mp h
      exact .inl ⟨_, rfl⟩
    · obtain ⟨t, -, rfl⟩ := (Success.map_eq_ok _ _ _).mp h
      exact .inl ⟨t, rfl⟩
    · obtain ⟨t, -, rfl⟩ := (Success.map_eq_ok _ _ _).mp h
      exact .inl ⟨t, rfl⟩
    · refine .inr ⟨?_, (Except.ok.inj h).symm⟩
      cases type <;> first | rfl | contradiction

private theorem exists_isFormalAtom (admitted : type.admits v = true)
    (shown : type.isOpaque = false)
    (plain : type.isEncoded = false) : ∃ id a, v = .atom id a ∧ Value.isFormalAtom a = true := by
  cases v with
  | atom id a =>
    refine ⟨id, a, rfl, ?_⟩
    cases a with
    | null | bool | int | float | text => rfl
    | _ => cases type <;> simp [admits, admitsAtom, isOpaque, isEncoded] at admitted shown plain
  | _ => cases shown.symm.trans admitted

private theorem every_encode (typed : type.checkDefault name v = .ok ())
    (writable : v.Every Value.IsExact)
    (shown : type.isOpaque = false) (h : type.encode v = .ok code) : code.Every Json.IsPart := by
  cases absent : v.isNull with
  | true =>
    have written : type.encode v = .ok .null := if_pos absent
    obtain rfl := Except.ok.inj (written.symm.trans h)
    exact Json.every_null
  | false =>
    rcases eq_text_or_of_encode absent h with ⟨s, rfl⟩ | ⟨plain, rfl⟩
    · exact Json.every_text s
    · obtain ⟨id, a, rfl, formal⟩ :=
        exists_isFormalAtom (admits_of_checkDefault typed absent) shown plain
      exact Json.isPart_of_isFormalAtom id formal writable

private theorem every_viewOf (typed : type.isOpaque = false → type.checkDefault name v = .ok ())
    (writable : v.Every Value.IsExact) (h : type.viewOf v = .ok code) : code.Every Json.IsPart := by
  rw [viewOf] at h
  cases hidden : type.isOpaque with
  | true =>
    rw [if_pos hidden] at h
    exact Value.every_form_of_canonical Json.isKeptByForms writable h
  | false =>
    rw [if_neg (by simp [hidden])] at h
    exact every_encode (typed hidden) writable hidden h

end ScalarType

/-! ### Views -/

private theorem Attribute.every_view {a : Attribute} (text : a.name.IsText)
    (typed : a.type.isOpaque = false → a.type.checkDefault a.name a.default = .ok ())
    (writable : a.default.Every Value.IsExact) {v : Value} (hv : a.view = .ok v) :
    v.Every Json.IsPart := by
  obtain ⟨form, hform, hv⟩ := (Success.bind_eq_ok _ _ _).mp hv
  obtain rfl := Except.ok.inj hv
  apply Json.every_record (by simp)
  simp only [List.forall_mem_cons, List.not_mem_nil, false_implies, implies_true, and_true]
  exact ⟨Json.every_text _, Json.every_of_isText text, Json.every_text _, Json.every_bool _,
    ScalarType.every_viewOf typed writable hform, Json.every_bool _, Json.every_bool _⟩

/-- The view of a relationship of texts has a form. -/
private theorem Relationship.every_view {r : Relationship} (text : r.name.IsText)
    (destination : r.destination.IsText) (inverse : ∀ k, r.inverse = some k → k.name.IsText) :
    r.view.Every Json.IsPart := by
  have count : ∀ n : Nat, n ≤ 1 → (Value.int n).Every Json.IsPart := fun n hn ↦
    Json.every_int .fresh (Integer.isTooLong_of_le_one hn)
  rw [view]
  apply Json.every_record
  · cases r.inverse <;> simp
  · rw [List.forall_mem_append]
    constructor
    · simp only [List.forall_mem_cons, List.not_mem_nil, false_implies, implies_true, and_true]
      exact ⟨Json.every_text _, Json.every_of_isText text, Json.every_of_isText destination,
        count _ r.maxCount_le_one, count _ r.minCount_le_one, Json.every_text _⟩
    · cases hr : r.inverse with
      | none => exact List.forall_mem_nil _
      | some k => exact List.forall_mem_singleton.mpr (Json.every_of_isText (inverse k hr))

/-- The view of a textual entity has a form if the views of its attributes have. -/
private theorem Entity.every_view {e : Entity} (texts : e.IsTextual)
    (attributes : ∀ a ∈ e.attributes, ∀ v, a.view = .ok v → v.Every Json.IsPart) {v : Value}
    (hv : e.view = .ok v) : v.Every Json.IsPart := by
  obtain ⟨vs, hvs, hv⟩ := (Success.bind_eq_ok _ _ _).mp hv
  obtain rfl := Except.ok.inj hv
  have properties : (Value.list (vs ++ e.relationships.map (·.view))).Every Json.IsPart := by
    apply Json.every_list
    rw [List.forall_mem_append, List.forall_mem_map]
    constructor
    · intro v hv
      obtain ⟨a, ha, hav⟩ :=
        Success.exists_of_forall₂ ((Success.mapM_eq_ok _ _ _).mp hvs).flip hv
      exact attributes a ha v hav
    · intro r hr
      exact Relationship.every_view (texts.names r hr) (texts.destinations r hr)
        (texts.inverses r hr)
  apply Json.every_record
  · split <;> simp
  · rw [List.forall_mem_append]
    constructor
    · simp only [List.forall_mem_cons, List.not_mem_nil, false_implies, implies_true, and_true]
      exact ⟨Json.every_of_isText texts.name, Json.every_bool _,
        Json.every_of_isText texts.boundType, properties⟩
    · split
      · exact List.forall_mem_nil _
      · exact List.forall_mem_singleton.mpr
          (Json.every_list fun n hn ↦ Json.every_of_isText (texts.unique n hn))

private theorem Graph.every_view {g : Graph} (name : g.name.Every Json.IsPart)
    (version : g.version.Every Json.IsPart)
    (entities : ∀ e ∈ g.entities, ∀ v, e.view = .ok v → v.Every Json.IsPart) {v : Value}
    (hv : g.view = .ok v) : v.Every Json.IsPart := by
  obtain ⟨vs, hvs, hv⟩ := (Success.bind_eq_ok _ _ _).mp hv
  obtain rfl := Except.ok.inj hv
  apply Json.every_record (by simp)
  simp only [List.forall_mem_cons, List.not_mem_nil, false_implies, implies_true, and_true]
  refine ⟨name, version, Json.every_list fun v hv ↦ ?_⟩
  obtain ⟨e, he, hev⟩ := Success.exists_of_forall₂ ((Success.mapM_eq_ok _ _ _).mp hvs).flip hv
  exact entities e he v hev

/-! ### Reading -/

private theorem Json.every_of_int? {v : Value} {i : Int} (numbered : v.int? = some i)
    (h : HasText v) :
    v.Every IsPart := by
  unfold Value.int? at numbered
  split at numbered
  · next id j => exact every_int id ((hasText_int_iff j).mp h)
  · cases numbered

private theorem Json.anonymous_equals {v : Value} (h : v.Every IsPart) :
    v.anonymous.endless v = false ∧ v.anonymous.equals v = true := by
  have known := isKnown_anonymous h
  have number : v.isNaN = false := by
    cases v with
    | atom id a =>
      have plain : a.isPlain = true := h.1
      cases a <;> cases plain <;> rfl
    | _ => rfl
  constructor
  · rw [← Value.endless_anonymous]
    exact Value.endless_self known
  · rw [Value.equals, Value.isNaN_anonymous, number, ← Value.same_anonymous,
      Value.same_self known]
    rfl

private theorem AttributeDecl.every_isExact_copied {host : Host} {owner : Value} {a : AttributeDecl}
    (isCopied : a.IsCopied) (writable : a.default.Every Value.IsExact) :
    (a.copied host owner).Every Value.IsExact := by
  have copy : a.copyDefault host owner = .ok (a.copied host owner) :=
    (copyDefault_eq_ok _).mpr ⟨isCopied, rfl⟩
  rw [copyDefault] at copy
  split at copy
  · refine Value.every_of_deepCopy (fun _ _ ↦ trivial) (fun v collection ↦ ?_) writable copy
    cases v with
    | atom => cases collection
    | _ => trivial
  · exact Except.ok.inj copy ▸ writable

namespace Schema

variable {host : Host} {config : CompilerConfig} {entities : List EntityDecl}
  {name version : Value} {s : Schema} {i : Int}

/-- The view of a schema has a form if its names are texts, its version is an integer and no default
holds a binary number or an integer with too many digits. -/
private theorem exists_view_of_compile (texts : ∀ e ∈ entities, e.IsTextual)
    (writable : ∀ e ∈ entities, ∀ a ∈ e.attributes, a.default.Every Value.IsExact)
    (named : name.IsText) (numbered : version.int? = some i)
    (h : (compile host config entities name version).result = .ok s) :
    ∃ v, s.graph.view = .ok v ∧ v.Every Json.IsPart := by
  have namedEntities := EntityDecl.isNamed texts
  obtain ⟨l, records, -, hgraph, -⟩ := exists_links_of_compile namedEntities h
  obtain ⟨-, parts, -⟩ := (compile_eq_ok namedEntities host config name version s).mp h
  have written := (Graph.exists_fingerprint_iff s.graph).mp ⟨_, s.fingerprint_eq⟩
  have counted : Json.HasText s.graph.version := ((Graph.isWritten_view_iff s.graph).mp written).2.1
  obtain ⟨v, hv, -⟩ := written
  refine ⟨v, hv, Graph.every_view ?_ ?_ ?_ hv⟩
  · rw [hgraph]
    exact Json.every_of_isText named
  · rw [hgraph] at counted ⊢
    exact Json.every_of_int? numbered counted
  · rw [hgraph]
    refine List.forall_mem_map.mpr fun e he v hv ↦ ?_
    refine Entity.every_view (isTextual_linked texts records host config he) ?_ hv
    refine List.forall_mem_map.mpr fun a ha w hw ↦ ?_
    have typed : a.type.isOpaque = false →
        a.type.checkDefault a.name (a.copied host e.name) = .ok () :=
      fun shown ↦ by rw [AttributeDecl.copied_of_typed shown, a.typed]
    exact Attribute.every_view ((texts e he).attributes a ha) typed
      (AttributeDecl.every_isExact_copied ((parts e he).1 a ha) (writable e he a ha)) hw

/-- The JSON text of a schema is read as a value that equals its view, on one line and with every
number of spaces that fits, if its names are texts, its version is an integer and no default holds
a binary number or an integer with too many digits. A number of spaces that is no size is refused,
even a negative one, which stands for no spaces otherwise. -/
theorem exists_read_json (texts : ∀ e ∈ entities, e.IsTextual)
    (writable : ∀ e ∈ entities, ∀ a ∈ e.attributes, a.default.Every Value.IsExact)
    (named : name.IsText) (numbered : version.int? = some i)
    (h : (compile host config entities name version).result = .ok s) :
    (∀ indent : Json.Indent, indent.Fits →
      ∃ t v w, s.json indent = .ok t ∧ s.graph.view = .ok v ∧
        Json.read t.toList = .ok w ∧ w.endless v = false ∧ w.equals v = true) ∧
    ∀ n : Int, n < -Value.sizeBound ∨ Value.sizeBound ≤ n →
      s.json (.width n) = .error .hugeSize := by
  obtain ⟨v, hv, form⟩ := exists_view_of_compile texts writable named numbered h
  constructor
  · intro indent fits
    obtain ⟨unit, hunit, spaced⟩ := fits.exists_unit?
    obtain ⟨t, ht, hread⟩ := Json.exists_read_text spaced form
    obtain ⟨ends, equal⟩ := Json.anonymous_equals form
    refine ⟨t, v, v.anonymous, ?_, hv, hread, ends, equal⟩
    rw [json, hv, hunit]
    exact ht
  · intro n huge
    rw [json, hv, Json.Indent.unit?_eq_error huge]
    rfl

end Schema

/-! ### An example -/

namespace Blobs

/-- A blob with a price, which holds a set of a text, a byte string and a tuple. -/
def pricedParcel : EntityDecl :=
  { blob parcel with
    attributes := [Agenda.price, data parcel]
    distinct := by refine ⟨?_, ?_⟩ <;> simp [propertyNames, blob, data, Agenda.price] }

/-- All names in the example are texts. -/
theorem isTextual_pricedParcel : ∀ e ∈ [pricedParcel], e.IsTextual := by
  rw [List.forall_mem_singleton]
  exact ⟨⟨⟨_, rfl⟩, by simp [pricedParcel, data, Agenda.price, Value.IsText],
    by simp [pricedParcel, blob], by simp [pricedParcel, blob]⟩, .inl rfl⟩

private theorem isExact_pricedParcel :
    ∀ e ∈ [pricedParcel], ∀ a ∈ e.attributes, a.default.Every Value.IsExact := by
  have price : Agenda.price.default.Every Value.IsExact := trivial
  have held : (data parcel).default.Every Value.IsExact :=
    ⟨trivial, trivial, trivial, ⟨trivial, ⟨trivial, trivial, trivial, trivial⟩, trivial⟩, trivial⟩
  simpa [pricedParcel] using ⟨price, held⟩

/-- The example has a schema. -/
private theorem exists_compile_pricedParcel :
    ∃ s, (Schema.compile default default [pricedParcel] (.text "Blobs")
      (.int 1)).result = .ok s := by
  have coherent : Coherent [pricedParcel] := by
    refine ⟨?_, ?_, ?_, ?_, ?_⟩
    · simp
    · simp [pricedParcel, blob, EntityDecl.NamesUnique]
    · simp [pricedParcel, blob]
    · simp [pricedParcel, blob]
    · simp [Links.OneToOne, Links.Joined, Links.Declares, Links.declared, pricedParcel, blob]
  have price : Agenda.price.IsPortable default (.text "Blob") :=
    ⟨by rintro ⟨⟩, _, rfl, Json.hasText_text _⟩
  have held : (data parcel).IsPortable default (.text "Blob") :=
    isPortable (deepCopy_parcel _) every_isTellable_parcel
  refine (Schema.exists_compile_eq_ok isTextual_pricedParcel rfl).mpr ⟨coherent, ?_, ?_, ?_⟩
  · simpa [pricedParcel] using ⟨price, held⟩
  · exact Value.isShowable_text "Blobs"
  · exact (Value.isShowable_int_iff 1).mpr (Integer.isTooLong_of_le_one le_rfl)

end Blobs

/-- The schema of the example is read back from lines that are indented by less than nothing. -/
theorem Schema.exists_read_json_pricedParcel :
    (∀ e ∈ [Blobs.pricedParcel], e.IsTextual) ∧
      (∀ e ∈ [Blobs.pricedParcel], ∀ a ∈ e.attributes, a.default.Every Value.IsExact) ∧
      (Value.text "Blobs").IsText ∧ (Value.int 1).int? = some 1 ∧
      ∃ s t v w, (compile default default [Blobs.pricedParcel] (.text "Blobs")
          (.int 1)).result = .ok s ∧
        s.json (.width (-1)) = .ok t ∧ s.graph.view = .ok v ∧
        Json.read t.toList = .ok w ∧ w.endless v = false ∧ w.equals v = true := by
  obtain ⟨s, hs⟩ := Blobs.exists_compile_pricedParcel
  have texts := Blobs.isTextual_pricedParcel
  have writable := Blobs.isExact_pricedParcel
  have fits : (Json.Indent.width (-1)).Fits := ⟨by decide, by decide⟩
  obtain ⟨reads, -⟩ := exists_read_json texts writable ⟨_, rfl⟩ (i := 1) rfl hs
  obtain ⟨t, v, w, ht, hv, hw, ends, equal⟩ := reads _ fits
  exact ⟨texts, writable, ⟨_, rfl⟩, rfl, s, t, v, w, hs, ht, hv, hw, ends, equal⟩

/-- The schema of a company has no text that is indented by a number below all sizes. -/
theorem Schema.json_company_eq_error : (∀ e ∈ [Staff.company], e.IsTextual) ∧
    ∃ s, (compile default default [Staff.company] (.text "Model") (.int 1)).result = .ok s ∧
      s.json (.width (-9223372036854775809)) = .error .hugeSize := by
  have texts : ∀ e ∈ [Staff.company], e.IsTextual :=
    List.forall_mem_singleton.mpr (Staff.isTextual _ (by simp [Staff.entities]))
  have coherent : Coherent [Staff.company] := by
    refine ⟨?_, ?_, ?_, ?_, ?_⟩
    · simp
    · simp [Staff.company, EntityDecl.NamesUnique]
    · simp [Staff.company]
    · simp [Staff.company]
    · simp [Links.OneToOne, Links.Joined, Links.Declares, Links.declared, Staff.company]
  obtain ⟨s, hs⟩ : ∃ s, (compile default default [Staff.company] (.text "Model")
      (.int 1)).result = .ok s :=
    (exists_compile_eq_ok texts rfl).mpr ⟨coherent, by simp [Staff.company],
      Value.isShowable_text "Model",
      (Value.isShowable_int_iff 1).mpr (Integer.isTooLong_of_le_one le_rfl)⟩
  obtain ⟨v, hv, -⟩ := (Graph.exists_fingerprint_iff s.graph).mp ⟨_, s.fingerprint_eq⟩
  refine ⟨texts, s, hs, ?_⟩
  rw [json, hv, Json.Indent.unit?_eq_error (.inl (by decide))]
  rfl

end EntityGraph
