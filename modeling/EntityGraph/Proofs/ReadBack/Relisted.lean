import EntityGraph.Proofs.ReadBack.Forms

/-!
# Relisted documents

A document that is written and read may come back with sets that list their members in other orders.
What comes back is the document of a model that is declared as the first one is, but for such sets
in its defaults. So nothing that is said of documents read back depends on these orders.
-/

namespace EntityGraph

namespace Value

/-! ### Relisted lists and mappings -/

private theorem exists_of_isRelisted_list {vs : List Value} {x : Value}
    (h : (list vs).IsRelisted x) :
    ∃ ws : List Value, x.anonymous = list (ws.map anonymous) ∧ List.Forall₂ IsRelisted vs ws := by
  obtain ⟨j, us, ws, rfl, members, order⟩ := h
  obtain rfl : ws = us := order
  refine ⟨ws, ?_, (areRelisted_iff vs ws).mp members⟩
  rw [anonymous, anonymousItems_eq_map]
  rfl

/-- Entries under the keys of others, with their values relisted. -/
def RelistsEntries (es fs : List (String × Value)) : Prop :=
  List.Forall₂ (fun e f ↦ f.1 = e.1 ∧ e.2.IsRelisted f.2) es fs

private theorem exists_of_haveRelisted {es : List (String × Value)} {gs : List (Value × Value)}
    (h : HaveRelisted (es.map fun e ↦ (text e.1, e.2)) gs) : ∃ fs, RelistsEntries es fs ∧
      anonymousEntries gs = (fs.map fun f ↦ (f.1, f.2.anonymous)).map fun f ↦ (text f.1, f.2) := by
  induction es generalizing gs with
  | nil =>
    obtain rfl := h
    exact ⟨[], .nil, rfl⟩
  | cons e es ih =>
    obtain ⟨l, w, rest, rfl, key, hw, hrest⟩ := h
    obtain ⟨fs, hfs, content⟩ := ih hrest
    refine ⟨(e.1, w) :: fs, .cons ⟨rfl, hw⟩ hfs, ?_⟩
    rw [anonymousEntries, content, key]
    rfl

private theorem exists_of_isRelisted_record {es : List (String × Value)} {x : Value}
    (h : (record es).IsRelisted x) : ∃ fs, RelistsEntries es fs ∧
      x.anonymous = record (fs.map fun f ↦ (f.1, f.2.anonymous)) := by
  obtain ⟨j, gs, rfl, values⟩ := h
  obtain ⟨fs, hfs, content⟩ := exists_of_haveRelisted values
  refine ⟨fs, hfs, ?_⟩
  rw [anonymous, content]
  rfl

/-! ### Values in a fixed order -/

/-- A value has the same content, however the members of sets are listed. -/
def IsOrdered (v : Value) : Prop := ∀ w, v.IsRelisted w → w.anonymous = v.anonymous

private theorem isOrdered_atom (id : Identity) (a : Atom) : (atom id a).IsOrdered := by
  rintro w ⟨j, rfl⟩
  rfl

private theorem IsText.isOrdered {v : Value} (h : v.IsText) : v.IsOrdered := by
  obtain ⟨s, rfl⟩ := h
  exact isOrdered_atom _ _

private theorem map_anonymous_of_relistsEntries {es fs : List (String × Value)}
    (h : RelistsEntries es fs) (ordered : ∀ e ∈ es, e.2.IsOrdered) :
    fs.map (fun f ↦ (f.1, f.2.anonymous)) = es.map fun e ↦ (e.1, e.2.anonymous) := by
  induction h with
  | nil => rfl
  | cons hef _ ih =>
    rw [List.forall_mem_cons] at ordered
    rw [List.map_cons, List.map_cons, hef.1, ordered.1 _ hef.2, ih ordered.2]

private theorem map_anonymous_eq_of_isOrdered {vs ws : List Value}
    (h : List.Forall₂ IsRelisted vs ws) (ordered : ∀ v ∈ vs, v.IsOrdered) :
    ws.map anonymous = vs.map anonymous := by
  induction h with
  | nil => rfl
  | cons hvw _ ih =>
    rw [List.forall_mem_cons] at ordered
    rw [List.map_cons, List.map_cons, ordered.1 _ hvw, ih ordered.2]

/-- Documents are in a fixed order if they hold no defaults that are not. -/
private theorem areForms_isOrdered : Document.AreForms fun _ ↦ IsOrdered where
  null _ := isOrdered_atom _ _
  bool _ _ := isOrdered_atom _ _
  text _ _ := isOrdered_atom _ _
  list _ vs h := by
    intro x hx
    obtain ⟨ws, content, members⟩ := exists_of_isRelisted_list hx
    rw [content, anonymous_list, map_anonymous_eq_of_isOrdered members h]
  record _ es _ _ h := by
    intro x hx
    obtain ⟨fs, entries, content⟩ := exists_of_isRelisted_record hx
    rw [content, anonymous_record, map_anonymous_of_relistsEntries entries h]

/-! ### Relisted entries -/

private theorem exists_entryIf_relisted {condition : Bool} {key : String} {v : Value}
    {fs : List (String × Value)} (h : RelistsEntries (entryIf condition key v) fs) :
    ∃ w, v.IsRelisted w ∧
      fs.map (fun f ↦ (f.1, f.2.anonymous)) = entryIf condition key w.anonymous := by
  cases condition with
  | false =>
    obtain rfl := List.forall₂_nil_left_iff.mp h
    exact ⟨v, isRelisted_of_anonymous_eq rfl, rfl⟩
  | true =>
    obtain ⟨⟨k, w⟩, rest, ⟨rfl, hw⟩, hrest, rfl⟩ := List.forall₂_cons_left_iff.mp h
    obtain rfl := List.forall₂_nil_left_iff.mp hrest
    exact ⟨w, hw, rfl⟩

private theorem isOrdered_of_mem_entryIf {condition : Bool} {key : String} {v : Value}
    (h : v.IsOrdered) : ∀ e ∈ entryIf condition key v, e.2.IsOrdered := by
  cases condition with
  | false => exact List.forall_mem_nil _
  | true => exact List.forall_mem_singleton.mpr h

/-! ### Relisted defaults -/

namespace IsRelisted

variable {v w : Value} (h : v.IsRelisted w)

include h

private theorem isNull_eq : w.isNull = v.isNull := by
  refine h.shape (fun _ _ a ↦ ?_) ?_ ?_ ?_
  · cases a <;> rfl
  all_goals
    intros
    rfl

private theorem isNaN_eq : w.isNaN = v.isNaN := by
  refine h.shape ?_ ?_ ?_ ?_
  all_goals
    intros
    rfl

private theorem checkDefault_eq (name : Value) (type : ScalarType) :
    type.checkDefault name w = type.checkDefault name v := by
  refine h.shape (fun id jd a ↦ ?_) ?_ ?_ ?_
  · rw [← checkDefault_anonymous, ← checkDefault_anonymous name type (.atom id a)]
    rfl
  all_goals
    intros
    rfl

private theorem isOrdinary (some : v.isNull = false) (ordinary : v.IsOrdinary) : w.IsOrdinary := by
  revert some ordinary
  refine h.shape (fun _ _ a ↦ ?_) ?_ ?_ ?_
  · cases a with
    | null => exact fun some ↦ nomatch some
    | _ => exact fun _ ordinary ↦ ordinary
  all_goals
    intros
    trivial

/-- A relisted value counts as true if the value does. -/
theorem truthy_eq : w.truthy = v.truthy := by
  refine h.shape ?_ (fun _ _ _ vs ws counted ↦ ?_) (fun _ _ es fs counted ↦ ?_) ?_
  · intros
    rfl
  · cases vs <;> cases ws <;> first | rfl | cases counted
  · cases es <;> cases fs <;> first | rfl | cases counted
  · intros
    rfl

end IsRelisted

end Value

/-! ### Relisted declarations -/

/-- What can be told from its content, and so compared where its members are relisted. -/
def Value.IsTold (v : Value) : Prop := v.anonymous.IsKnown

private theorem ScalarType.Rereads.isOrdered_code {type : ScalarType} {v code w : Value}
    (h : type.Rereads v code w) : code.IsOrdered ∨
      v.isNull = false ∧ type.isEncoded = false ∧ code = v := by
  cases h with
  | kept _ _ some plain => exact .inr ⟨some, plain, rfl⟩
  | _ => exact .inl (Value.isOrdered_atom _ _)

namespace AttributeDecl

variable {a : AttributeDecl} (name : a.name.IsText)

include name

private theorem exists_entries_relisted {code : Value} {fs : List (String × Value)}
    (h : Value.RelistsEntries (a.entries code) fs) : ∃ u, code.IsRelisted u ∧
      fs.map (fun f ↦ (f.1, f.2.anonymous)) = a.anonymous.entries u.anonymous := by
  rw [entries] at h
  obtain ⟨fs, kept, rfl, h, hkept⟩ := Success.exists_append_of_forall₂ h
  obtain ⟨fs, stored, rfl, h, hstored⟩ := Success.exists_append_of_forall₂ h
  obtain ⟨front, default, rfl, hfront, hdefault⟩ := Success.exists_append_of_forall₂ h
  obtain ⟨u, hu, default⟩ := Value.exists_entryIf_relisted hdefault
  have flag (condition : Bool) (key : String) (b : Bool) :
      ∀ e ∈ Value.entryIf condition key (.bool b), e.2.IsOrdered :=
    Value.isOrdered_of_mem_entryIf (Value.isOrdered_atom _ _)
  have front := Value.map_anonymous_of_relistsEntries hfront <| by
    simp only [List.forall_mem_append, List.forall_mem_cons]
    exact ⟨⟨name.isOrdered, Value.isOrdered_atom _ _, List.forall_mem_nil _⟩, flag _ _ _⟩
  have stored := Value.map_anonymous_of_relistsEntries hstored (flag _ _ _)
  have kept := Value.map_anonymous_of_relistsEntries hkept (flag _ _ _)
  refine ⟨u, hu, ?_⟩
  rw [← entries_anonymous name, entries]
  simp only [List.map_append, front, default, stored, kept, Value.map_entryIf]

/-- A relisted document of an attribute is that of an attribute with a relisted default. -/
private theorem exists_relists (h : a.HasFormIn Value.IsTold) {d x : Value}
    (hd : a.document = .ok d) (hx : d.IsRelisted x) :
    ∃ b, a.Relists b ∧ b.HasFormIn Value.IsTold ∧ b.anonymous.document = .ok x.anonymous := by
  obtain ⟨code, w, reread⟩ := ScalarType.exists_rereads a.typed h.ordinary
  obtain rfl : Value.record (a.entries code) = d := by
    rw [document, reread.encode_eq] at hd
    exact Except.ok.inj hd
  obtain ⟨fs, hfs, content⟩ := Value.exists_of_isRelisted_record hx
  obtain ⟨u, hu, relisted⟩ := exists_entries_relisted name hfs
  rw [content, relisted]
  obtain ordered | ⟨some, plain, rfl⟩ := reread.isOrdered_code
  · refine ⟨a, ⟨rfl, rfl, rfl, Value.isRelisted_of_anonymous_eq rfl, rfl, rfl⟩, h, ?_⟩
    have written : a.anonymous.type.encode a.anonymous.default = .ok code.anonymous :=
      reread.anonymous.encode_eq
    rw [document, written, ordered u hu]
    rfl
  · let b : AttributeDecl :=
      { a with default := u, typed := (hu.checkDefault_eq a.name a.type).trans a.typed }
    have null : b.anonymous.default.isNull = a.anonymous.default.isNull :=
      (Value.isNull_anonymous u).trans (hu.isNull_eq.trans (Value.isNull_anonymous _).symm)
    have written : b.anonymous.type.encode b.anonymous.default = .ok u.anonymous :=
      (ScalarType.Rereads.kept a.type u.anonymous
        ((Value.isNull_anonymous u).trans (hu.isNull_eq.trans some)) plain).encode_eq
    have same : b.anonymous.entries u.anonymous = a.anonymous.entries u.anonymous := by
      rw [entries, entries, null]
      rfl
    refine ⟨b, ⟨rfl, rfl, rfl, hu, rfl, rfl⟩, ⟨hu.isOrdinary some h.ordinary,
      hu.isNaN_eq.trans h.number, fun _ ↦ hu.isKnown_anonymous (h.form plain)⟩, ?_⟩
    rw [document, written, ← same]
    rfl

end AttributeDecl

private theorem Document.exists_mapM_relists {α : Type} {R : α → α → Prop} {P : α → Prop}
    {document : α → Except Fault Value} {anonymous : α → α} {as : List α} {ds xs : List Value}
    (hds : as.mapM document = .ok ds) (hxs : List.Forall₂ Value.IsRelisted ds xs)
    (step : ∀ a ∈ as, ∀ d x, document a = .ok d → d.IsRelisted x →
      ∃ b, R a b ∧ P b ∧ document (anonymous b) = .ok x.anonymous) :
    ∃ bs, List.Forall₂ R as bs ∧ (∀ b ∈ bs, P b) ∧
      (bs.map anonymous).mapM document = .ok (xs.map (·.anonymous)) := by
  rw [Success.mapM_eq_ok] at hds
  induction hds generalizing xs with
  | nil =>
    obtain rfl := List.forall₂_nil_left_iff.mp hxs
    exact ⟨[], .nil, List.forall_mem_nil _, rfl⟩
  | cons had _ ih =>
    rw [List.forall_mem_cons] at step
    obtain ⟨x, rest, hx, hrest, rfl⟩ := List.forall₂_cons_left_iff.mp hxs
    obtain ⟨b, hab, hb, written⟩ := step.1 _ x had hx
    obtain ⟨bs, habs, hbs, others⟩ := ih hrest step.2
    refine ⟨b :: bs, .cons hab habs, List.forall_mem_cons.mpr ⟨hb, hbs⟩, ?_⟩
    rw [List.map_cons, List.mapM_cons, written, others]
    rfl

namespace Value

private theorem exists_of_isRelisted_wrapped {key : String} {ds ws : List Value}
    (h : List.Forall₂ IsRelisted (ds.map fun d ↦ record [(key, d)]) ws) :
    ∃ xs, List.Forall₂ IsRelisted ds xs ∧
      ws.map anonymous = (xs.map fun x ↦ record [(key, x)]).map anonymous := by
  induction ds generalizing ws with
  | nil =>
    obtain rfl := List.forall₂_nil_left_iff.mp h
    exact ⟨[], .nil, rfl⟩
  | cons d ds ih =>
    obtain ⟨w, rest, hw, hrest, rfl⟩ := List.forall₂_cons_left_iff.mp h
    obtain ⟨fs, hfs, content⟩ := exists_of_isRelisted_record hw
    obtain ⟨⟨k, x⟩, none, ⟨rfl, hx⟩, hnone, rfl⟩ := List.forall₂_cons_left_iff.mp hfs
    obtain rfl := List.forall₂_nil_left_iff.mp hnone
    obtain ⟨xs, hxs, contents⟩ := ih hrest
    refine ⟨x :: xs, .cons hx hxs, ?_⟩
    rw [List.map_cons, List.map_cons, List.map_cons, content, contents, anonymous_record]

/-- A list under the last key of a mapping, behind entries in a fixed order. -/
private theorem exists_of_isRelisted_last {front : List (String × Value)} {key : String}
    {ds : List Value} {x : Value} (ordered : ∀ e ∈ front, e.2.IsOrdered)
    (h : (record (front ++ [(key, list ds)])).IsRelisted x) :
    ∃ ws, List.Forall₂ IsRelisted ds ws ∧
      x.anonymous = (record (front ++ [(key, list ws)])).anonymous := by
  obtain ⟨fs, hfs, content⟩ := exists_of_isRelisted_record h
  obtain ⟨before, last, rfl, hbefore, hlast⟩ := Success.exists_append_of_forall₂ hfs
  obtain ⟨⟨k, p⟩, none, ⟨rfl, hp⟩, hnone, rfl⟩ := List.forall₂_cons_left_iff.mp hlast
  obtain rfl := List.forall₂_nil_left_iff.mp hnone
  obtain ⟨ws, listed, members⟩ := exists_of_isRelisted_list hp
  refine ⟨ws, members, ?_⟩
  rw [content, anonymous_record, List.map_append, List.map_append,
    map_anonymous_of_relistsEntries hbefore ordered, List.map_singleton, List.map_singleton, listed,
    anonymous_list]

end Value

namespace EntityDecl

variable {e : EntityDecl} (texts : e.IsTextual)

include texts

private theorem exists_documentOf_relisted {ds : List Value} {x : Value}
    (h : (e.documentOf ds).IsRelisted x) :
    ∃ xs, List.Forall₂ Value.IsRelisted ds xs ∧ x.anonymous = (e.documentOf xs).anonymous := by
  have boundType : e.boundType.IsOrdered := by
    obtain null | text := texts.boundType
    · cases hb : e.boundType with
      | atom => exact Value.isOrdered_atom _ _
      | _ =>
        rw [hb] at null
        cases null
    · exact text.isOrdered
  have unique : (Value.list e.unique).IsOrdered :=
    Value.areForms_isOrdered.list 0 _ fun u hu ↦ (texts.unique u hu).isOrdered
  have known : "relationship" ∈ Document.keys := by decide
  rw [documentOf] at h
  obtain ⟨ws, members, content⟩ := Value.exists_of_isRelisted_last (by
    simp only [List.forall_mem_append, List.forall_mem_singleton]
    exact ⟨⟨⟨texts.name.isOrdered, Value.isOrdered_of_mem_entryIf (Value.isOrdered_atom _ _)⟩,
      Value.isOrdered_of_mem_entryIf boundType⟩, Value.isOrdered_of_mem_entryIf unique⟩) h
  obtain ⟨attributes, relationships, rfl, hattributes, hrelationships⟩ :=
    Success.exists_append_of_forall₂ members
  obtain ⟨xs, hxs, wrapped⟩ := Value.exists_of_isRelisted_wrapped hattributes
  have settled := Value.map_anonymous_eq_of_isOrdered hrelationships <|
    List.forall_mem_map.mpr fun r hr ↦ Value.areForms_isOrdered.record 1 _
      (List.nodup_singleton _) (List.forall_mem_singleton.mpr known)
      (List.forall_mem_singleton.mpr
        (RelationshipDecl.hasForm_document Value.areForms_isOrdered 0 (texts.relationships r hr)))
  refine ⟨xs, hxs, ?_⟩
  rw [content, documentOf]
  simp only [Value.anonymous_record, Value.anonymous_list, List.map_append, List.map_singleton,
    wrapped, settled]

/-- A relisted document of an entity is that of an entity with relisted defaults. -/
private theorem exists_relists (h : e.HasFormIn Value.IsTold) {d x : Value}
    (hd : e.document = .ok d) (hx : d.IsRelisted x) :
    ∃ f, e.Alters AttributeDecl.Relists f ∧ f.HasFormIn Value.IsTold ∧
      f.anonymous.document = .ok x.anonymous := by
  obtain ⟨ds, hds, written⟩ := (Success.bind_eq_ok _ _ _).mp hd
  obtain rfl : e.documentOf ds = d := Except.ok.inj written
  obtain ⟨xs, hxs, content⟩ := exists_documentOf_relisted texts hx
  obtain ⟨bs, hbs, forms, others⟩ := Document.exists_mapM_relists hds hxs fun a ha d x hd hx ↦
    AttributeDecl.exists_relists (texts.attributes a ha) (h.attributes a ha) hd hx
  have names : bs.map (·.name) = e.attributes.map (·.name) :=
    Success.map_eq_of_forall₂ hbs fun _ _ hab ↦ hab.name
  have textual : ∀ b ∈ bs, b.name.IsText := by
    intro b hb
    obtain ⟨a, ha, hab⟩ := Success.exists_of_forall₂ hbs.flip hb
    exact hab.name ▸ texts.attributes a ha
  let f : EntityDecl :=
    { e with
      attributes := bs
      distinct := by
        rw [propertyNames, names]
        exact e.distinct }
  have told : f.HasFormIn Value.IsTold :=
    { textual := { texts with attributes := textual }
      attributes := forms
      inverse := h.inverse
      boundType := h.boundType }
  refine ⟨f, ⟨rfl, rfl, rfl, rfl, rfl, hbs⟩, told, ?_⟩
  have same : f.documentOf xs = e.documentOf xs := rfl
  rw [content, ← same, ← f.documentOf_anonymous told.textual, document]
  show (List.mapM AttributeDecl.document (bs.map AttributeDecl.anonymous) >>= _) = _
  rw [others]
  rfl

end EntityDecl

/-! ### Relisted models -/

namespace Model

variable {m : Model} {i : Int} (version : m.version.int? = some i) (name : m.name.IsText)
  (form : ∀ e ∈ m.entities, e.HasFormIn Value.IsTold) {d x : Value} (hd : m.document = .ok d)
  (hx : d.IsRelisted x)

include version name form hd hx

/-- A relisted document of a model is that of a model with relisted defaults. -/
private theorem exists_relists : ∃ m' : Model, m'.name = m.name ∧ m'.version = m.version ∧
    List.Forall₂ (EntityDecl.Alters AttributeDecl.Relists) m.entities m'.entities ∧
    (∀ e ∈ m'.entities, e.HasFormIn Value.IsTold) ∧ m'.anonymous.document = .ok x.anonymous := by
  obtain ⟨ds, hds, written⟩ := (Success.bind_eq_ok _ _ _).mp hd
  obtain rfl := Except.ok.inj written
  have number : m.version.IsOrdered := by
    obtain ⟨id, hid⟩ := Value.exists_eq_of_int? version
    rw [hid]
    exact Value.isOrdered_atom _ _
  have ordered : ∀ e ∈ [("name", m.name), ("version", m.version)], e.2.IsOrdered :=
    List.forall_mem_cons.mpr ⟨name.isOrdered, List.forall_mem_singleton.mpr number⟩
  obtain ⟨xs, hxs, content⟩ := Value.exists_of_isRelisted_last ordered hx
  obtain ⟨fs, hfs, forms, others⟩ := Document.exists_mapM_relists hds hxs fun e he d x hd hx ↦
    EntityDecl.exists_relists (form e he).textual (form e he) hd hx
  refine ⟨{ m with entities := fs }, rfl, rfl, hfs, forms, ?_⟩
  rw [content, document]
  show (List.mapM EntityDecl.document (fs.map EntityDecl.anonymous) >>= _) = _
  rw [others, Value.anonymous_record]
  simp only [List.map_cons, List.map_nil, List.cons_append, List.nil_append, name.anonymous_eq,
    Value.anonymous_list]
  rfl

/-- Objects of which a relisted document of a model is made are read as a model with an equal name
and version, whose entities are equal exactly if no default loses its offset. -/
theorem exists_read_compareEntities {number : Nat} (made : x.Every (Value.IsOfDocument number))
    (apart : ∀ e ∈ m.entities, ∀ a ∈ e.attributes, a.default.Every (Value.IsApartFrom number)) :
    ∃ n b, Document.read x = .ok n ∧ n.name = m.name ∧ n.version.equals m.version = true ∧
      n.compareEntities m = .ok b ∧
      (b = true ↔ ∀ e ∈ m.entities, ∀ a ∈ e.attributes, a.HasLongOffset) := by
  obtain ⟨m', hname, hversion, relists, forms, hdocument⟩ := exists_relists version name form hd hx
  obtain ⟨c, n, hc, hn, h⟩ := exists_read_anonymous forms (hversion ▸ version)
  obtain rfl : x.anonymous = c := Except.ok.inj (hdocument.symm.trans hc)
  have texts : ∀ f ∈ n.entities, f.IsTextual := by
    intro f hf
    obtain ⟨e, he, hef⟩ := Success.exists_of_forall₂ h.entities.flip hf
    obtain ⟨e, member, rfl⟩ := List.mem_map.mp he
    exact hef.isTextual (e.isTextual_anonymous (forms e member).textual)
  have named : n.name = m.name := h.name.trans hname
  obtain ⟨k, hk, same⟩ := Document.exists_read_of_anonymous hn made (named ▸ name) texts
  obtain ⟨b, hb, hiff⟩ := h.exists_compareEntities_of_hasForm forms fun _ told ↦ told
  rw [compareEntities_relists relists h.default_anonymous, ← same.anonymous,
    anonymous_compareEntities same.defaults apart] at hb
  refine ⟨k, b, hk, ?_, ?_, hb, hiff.trans (hasLongOffset_relists relists)⟩
  · exact (congrArg Model.name same.anonymous).trans named
  · refine Value.equals_of_int? ?_ version
    rw [← Value.int?_anonymous]
    have versions : k.version.anonymous = m'.version.anonymous :=
      (congrArg Model.version same.anonymous).trans h.version
    rw [versions, Value.int?_anonymous, hversion]
    exact version

end Model

end EntityGraph
