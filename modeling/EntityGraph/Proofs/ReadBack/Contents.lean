import EntityGraph.Proofs.Grammar
import EntityGraph.Proofs.ReadBack.Objects

/-!
# Documents read by their contents

What a document declares depends on its content; only of which objects its defaults are made depends
on the objects that it is made of. So a document whose content declares something in texts is read,
and what it declares has the content of what its content declares.
-/

namespace EntityGraph

/-! ### Anonymous declarations -/

/-- An attribute of the same content, whose default is anonymous. -/
def AttributeDecl.anonymous (a : AttributeDecl) : AttributeDecl :=
  { a with
    default := a.default.anonymous
    typed := (Value.checkDefault_anonymous a.name a.type a.default).trans a.typed }

/-- Attributes keep their names. -/
theorem AttributeDecl.names_anonymous (as : List AttributeDecl) :
    (as.map (·.anonymous)).map (·.name) = as.map (·.name) := by
  rw [List.map_map]
  rfl

/-- An entity of the same content, whose defaults are anonymous. -/
def EntityDecl.anonymous (e : EntityDecl) : EntityDecl :=
  { e with
    attributes := e.attributes.map (·.anonymous)
    distinct := by
      rw [propertyNames, AttributeDecl.names_anonymous]
      exact e.distinct }

/-- A model of the same content, whose version and defaults are anonymous. -/
def Model.anonymous (m : Model) : Model :=
  { m with
    version := m.version.anonymous
    entities := m.entities.map (·.anonymous)
    isPositive := m.version.atMostZero_anonymous.trans m.isPositive }

/-! ### Reading -/

namespace Document

open Value

variable {number : Nat} {v : Value} (path : String)

/-- Whether a value is a mapping depends on its content. -/
theorem checkMapping_anonymous (v : Value) :
    checkMapping path v.anonymous = .ok () ↔ checkMapping path v = .ok () := by
  cases v <;> rfl

/-- A flag is read from the content of a document without loops. -/
theorem flag_anonymous (key : String) (default : Bool) {v : Value}
    (closed : v.Every (·.isLoop = false)) :
    flag path key default v.anonymous = flag path key default v := by
  rw [flag, flag, get?_anonymous key closed]
  cases v.get? key with
  | none => rfl
  | some w => simp only [Option.map_some, bool?_anonymous, inspect_anonymous]

end Document

namespace ScalarType

open Value

private theorem exists_atom_of_decode {type : ScalarType} {s : String} {w : Value}
    (h : type.decode (.text s) = .ok w) : ∃ a, w = .atom .fresh a := by
  have decoded : type.decodeText (.text s) s = .ok w := by
    simp only [text, decode] at h
    split at h
    · next x read => exact read.trans (congrArg _ (Except.ok.inj h))
    · cases h
  cases type <;> simp only [decodeText] at decoded <;> first
    | exact ⟨_, (Except.ok.inj decoded).symm⟩
    | (repeat' split at decoded) <;> first
      | exact ⟨_, (Except.ok.inj decoded).symm⟩
      | cases decoded

/-- What an encoded default stands for has the content of what its content stands for, and is made
of objects of the document. -/
private theorem exists_decode_of_anonymous {number : Nat} {type : ScalarType} {v w : Value}
    (h : v.Every (Value.IsOfDocument number)) (decoded : type.decode v.anonymous = .ok w) :
    ∃ x, type.decode v = .ok x ∧ x.anonymous = w ∧ x.Every (Value.IsOfDocument number) := by
  cases v with
  | atom id a =>
    cases a with
    | text s =>
      rw [h.self.eq_of_isText (.inr ⟨s, rfl⟩)] at decoded
      rw [← h.self.eq_of_isText (.inr ⟨s, rfl⟩)] at decoded ⊢
      obtain ⟨a, rfl⟩ := exists_atom_of_decode decoded
      exact ⟨_, decoded, rfl, isOfDocument_fresh a⟩
    | float x =>
      simp only [anonymous, decode] at decoded ⊢
      split at decoded
      · next decimal =>
        obtain rfl := Except.ok.inj decoded
        exact ⟨_, if_pos decimal, rfl, isOfDocument_fresh _⟩
      · next other =>
        obtain rfl := Except.ok.inj decoded
        exact ⟨_, if_neg other, rfl, h⟩
    | _ =>
      obtain rfl := Except.ok.inj decoded
      exact ⟨_, rfl, rfl, h⟩
  | _ =>
    obtain rfl := Except.ok.inj decoded
    exact ⟨_, rfl, rfl, h⟩

end ScalarType

/-- An attribute has the content of another, and its default is made of objects of a document. -/
structure AttributeDecl.IsOf (number : Nat) (b a : AttributeDecl) : Prop where
  anonymous : a.anonymous = b
  default : a.default.Every (Value.IsOfDocument number)

namespace Document

open Value

variable {number : Nat} {v : Value} {path : String}

/-- What the content of a document declares as an attribute, the document declares as one of this
content. -/
private theorem exists_readAttribute_of_anonymous {b : AttributeDecl}
    (h : readAttribute path v.anonymous = .ok b) (parts : v.Every (IsOfDocument number))
    (text : b.name.IsText) : ∃ a, readAttribute path v = .ok a ∧ b.IsOf number a := by
  have name := name_of_readAttribute h
  rw [get_anonymous _ parts.noLoops] at name
  have bare := (parts.getOfDocument "name").self.eq_of_isText (.inr (name ▸ text))
  simp only [readAttribute, Success.bind_eq_ok, require_eq_ok, located_eq_ok,
    ScalarType.read_eq_ok, get_anonymous _ parts.noLoops, flag_anonymous _ _ _ parts.noLoops] at h ⊢
  obtain ⟨_, mapping, _, ⟨named, rfl⟩, _, ⟨typed, rfl⟩, type, tagged, w, decoded, optional,
    hoptional, external, hexternal, preserved, hpreserved, made⟩ := h
  obtain ⟨x, hx, rfl, made'⟩ := ScalarType.exists_decode_of_anonymous
    (parts.getOfDocument "default") decoded
  obtain ⟨truthy, checked⟩ := (AttributeDecl.exists_make_eq_ok _ _ _).mp ⟨b, made⟩
  rw [bare] at truthy checked made
  rw [AttributeDecl.make_eq_ok _ truthy checked] at made
  rw [checkDefault_anonymous] at checked
  obtain rfl := Except.ok.inj made
  refine ⟨_, ⟨(), (checkMapping_anonymous path v).mp mapping, _, ⟨?_, rfl⟩, _, ⟨?_, rfl⟩, type, ?_,
    x, hx, optional, hoptional, external, hexternal, preserved, hpreserved,
    AttributeDecl.make_eq_ok _ truthy checked⟩, rfl, made'⟩
  · rwa [← among_empty_anonymous]
  · rwa [← among_empty_anonymous]
  · rwa [← text?_anonymous]

/-- A relationship that the content of a document declares in texts is declared by the document. -/
private theorem readRelationship_of_anonymous {r : RelationshipDecl}
    (h : readRelationship path v.anonymous = .ok r) (parts : v.Every (IsOfDocument number))
    (texts : r.IsTextual) : readRelationship path v = .ok r := by
  have bare (key : String) : (v.get key).IsOfDocument number :=
    (parts.getOfDocument key).self
  have rule : ((v.get? "delete_rule").map anonymous).getD (.text DeleteRule.nullify.tag) =
      ((v.get? "delete_rule").getD (.text DeleteRule.nullify.tag)).anonymous :=
    Option.getD_map anonymous (.text DeleteRule.nullify.tag) _
  simp only [readRelationship, Success.bind_eq_ok, require_eq_ok, located_eq_ok,
    DeleteRule.read_eq_ok, get_anonymous _ parts.noLoops, get?_anonymous _ parts.noLoops, rule,
    text?_anonymous, flag_anonymous _ _ _ parts.noLoops] at h ⊢
  obtain ⟨_, mapping, deleteRule, ruled, _, ⟨named, rfl⟩, _, ⟨directed, rfl⟩, toMany, htoMany,
    optional, hoptional, made⟩ := h
  obtain ⟨truthy, truthy'⟩ := (RelationshipDecl.exists_make_eq_ok _ _ _).mp ⟨r, made⟩
  have texts' := Except.ok.inj
    (made.symm.trans (RelationshipDecl.make_eq_ok _ truthy truthy')) ▸ texts
  have name := (bare "name").eq_of_isText (.inr texts'.name)
  have destination := (bare "destination").eq_of_isText (.inr texts'.destination)
  have inverse := (bare "inverse").eq_of_isText texts'.inverse
  rw [name, destination, inverse] at made
  rw [name] at named
  rw [destination] at directed
  exact ⟨(), (checkMapping_anonymous path v).mp mapping, deleteRule, ruled, _, ⟨named, rfl⟩, _,
    ⟨directed, rfl⟩, toMany, htoMany, optional, hoptional, made⟩

/-- The attributes that the contents of documents declare, and the relationships that they declare
in texts, are declared by the documents. -/
private theorem exists_readProperties_of_anonymous {p : Properties} (i : Nat) {vs : List Value}
    (h : readProperties path i (vs.map anonymous) = .ok p)
    (parts : ∀ v ∈ vs, v.Every (IsOfDocument number)) (names : ∀ a ∈ p.attributes, a.name.IsText)
    (texts : ∀ r ∈ p.relationships, r.IsTextual) :
    ∃ as, readProperties path i vs = .ok ⟨as, p.relationships⟩ ∧
      List.Forall₂ (AttributeDecl.IsOf number) p.attributes as := by
  induction vs generalizing i p with
  | nil =>
    obtain rfl := Except.ok.inj h
    exact ⟨[], rfl, .nil⟩
  | cons v vs ih =>
    rw [List.forall_mem_cons] at parts
    simp only [List.map_cons, readProperties, Success.bind_eq_ok, readProperty_eq_ok] at h ⊢
    obtain ⟨c, ⟨id, key, inner, single, declared⟩, q, hq, rest⟩ := h
    obtain ⟨jd, k, w, rfl, rfl, rfl⟩ : ∃ jd k w, v = .dict jd [(k, w)] ∧ k.anonymous = key ∧
        w.anonymous = inner := by
      cases v with
      | dict jd entries =>
        rw [anonymous, anonymousEntries_eq_map] at single
        obtain ⟨⟨k, w⟩, rfl, same⟩ := List.map_eq_singleton_iff.mp (Value.dict.inj single).2
        obtain ⟨rfl, rfl⟩ := Prod.mk.inj same
        exact ⟨jd, k, w, rfl, rfl, rfl⟩
      | _ => cases single
    rw [text?_anonymous] at declared
    have inside : w.Every (IsOfDocument number) := parts.1.2.1.2
    have alone : (Value.dict jd [(k, w)]).takeOut w = w := takeOut_of_no_loops _ inside.noLoops
    have alone' : (Value.dict jd [(k, w)]).anonymous.takeOut w.anonymous = w.anonymous :=
      takeOut_of_fresh rfl _
    rw [alone'] at declared
    rcases declared with ⟨hkey, b, hb, rfl⟩ | ⟨hkey, r, hr, rfl⟩
    · obtain rfl := Except.ok.inj rest
      rw [List.forall_mem_cons] at names
      obtain ⟨a, ha, hab⟩ := exists_readAttribute_of_anonymous hb inside names.1
      obtain ⟨as, has, h⟩ := ih (i + 1) hq parts.2 names.2 texts
      exact ⟨a :: as, ⟨.attr a, ⟨jd, k, w, rfl, .inl ⟨hkey, a, alone.symm ▸ ha, rfl⟩⟩, _, has, rfl⟩,
        .cons hab h⟩
    · obtain rfl := Except.ok.inj rest
      rw [List.forall_mem_cons] at texts
      have hr' := readRelationship_of_anonymous hr inside texts.1
      obtain ⟨as, has, h⟩ := ih (i + 1) hq parts.2 names texts.2
      exact ⟨as, ⟨.rel r, ⟨jd, k, w, rfl, .inr ⟨hkey, r, alone.symm ▸ hr', rfl⟩⟩, _, has, rfl⟩, h⟩

/-- The members that the content of a document holds under a text are the contents of those that the
document holds. -/
theorem exists_members_of_anonymous {key : String} {ms : List Value}
    (h : members key v.anonymous = .ok ms) (parts : v.Every (IsOfDocument number)) :
    ∃ ws, members key v = .ok ws ∧ ws.map anonymous = ms ∧
      ∀ w ∈ ws, w.Every (IsOfDocument number) := by
  have inside := parts.getOfDocument key
  rw [members, get_anonymous _ parts.noLoops, truthy_anonymous, items_anonymous inside.noLoops] at h
  rw [members]
  split at h
  · next some =>
    rw [if_pos some]
    obtain ⟨ws, hws, rfl⟩ := (Success.map_eq_ok _ _ _).mp h
    exact ⟨ws, hws, rfl, inside.items (survives_isOfDocument number)
      (fun _ ↦ isOfDocument_fresh _) (fun _ ↦ isOfDocument_fresh _) hws⟩
  · next none =>
    rw [if_neg none]
    obtain rfl := Except.ok.inj h
    exact ⟨[], rfl, rfl, List.forall_mem_nil _⟩

end Document

/-- An entity has the content of another, and its defaults are made of objects of a document. -/
structure EntityDecl.IsOf (number : Nat) (f e : EntityDecl) : Prop where
  anonymous : e.anonymous = f
  defaults : ∀ a ∈ e.attributes, a.default.Every (Value.IsOfDocument number)

private theorem AttributeDecl.map_anonymous_of_isOf {number : Nat} {bs as : List AttributeDecl}
    (h : List.Forall₂ (IsOf number) bs as) :
    as.map (·.anonymous) = bs ∧ ∀ a ∈ as, a.default.Every (Value.IsOfDocument number) := by
  induction h with
  | nil => exact ⟨rfl, List.forall_mem_nil _⟩
  | cons hab _ ih =>
    exact ⟨List.cons_eq_cons.mpr ⟨hab.anonymous, ih.1⟩,
      List.forall_mem_cons.mpr ⟨hab.default, ih.2⟩⟩

namespace Document

open Value

variable {number : Nat} {v : Value} {path : String}

/-- What the content of a document declares in texts as an entity, the document declares as one of
this content. -/
private theorem exists_readEntity_of_anonymous {f : EntityDecl}
    (h : readEntity path v.anonymous = .ok f)
    (parts : v.Every (IsOfDocument number)) (texts : f.IsTextual) :
    ∃ e, readEntity path v = .ok e ∧ f.IsOf number e := by
  have bare (key : String) : (v.get key).IsOfDocument number :=
    (parts.getOfDocument key).self
  simp only [readEntity, Success.bind_eq_ok, Success.liftM_eq_ok, require_eq_ok,
    get_anonymous _ parts.noLoops, flag_anonymous _ _ _ parts.noLoops] at h ⊢
  obtain ⟨_, mapping, _, ⟨named, rfl⟩, ms, hms, p, hp, isAbstract, habstract, unique, hunique,
    made⟩ := h
  obtain ⟨truthy, distinct⟩ := (EntityDecl.exists_make_eq_ok _ _ _ _ _ _).mp ⟨f, made⟩
  have texts' := Except.ok.inj
    (made.symm.trans (EntityDecl.make_eq_ok _ _ _ truthy distinct)) ▸ texts
  have name := (bare "name").eq_of_isText (.inr texts'.name)
  have boundType := (bare "bound_type").eq_of_isText texts'.boundType
  obtain ⟨ws, hws, rfl, inside⟩ := exists_members_of_anonymous hms parts
  obtain ⟨us, hus, rfl, uniques⟩ := exists_members_of_anonymous hunique parts
  have same := map_anonymous_of_isText (fun u hu ↦ (uniques u hu).self) texts'.unique
  obtain ⟨as, has, hab⟩ := exists_readProperties_of_anonymous 0 hp inside texts'.attributes
    texts'.relationships
  obtain ⟨same', defaults⟩ := AttributeDecl.map_anonymous_of_isOf hab
  have names : propertyNames as p.relationships = propertyNames p.attributes p.relationships := by
    rw [propertyNames, propertyNames, ← same', AttributeDecl.names_anonymous]
  have whole := (EntityDecl.make_eq_ok isAbstract (v.get "bound_type") us
    (name ▸ truthy) (names ▸ distinct))
  rw [name] at named
  refine ⟨_, ⟨(), (checkMapping_anonymous path v).mp mapping, _, ⟨named, rfl⟩, ws, hws, _, has,
    isAbstract, habstract, us, hus, whole⟩, ?_, defaults⟩
  rw [EntityDecl.make_eq_ok _ _ _ truthy distinct] at made
  obtain rfl := Except.ok.inj made
  simp only [EntityDecl.anonymous, name, boundType, same, same']

/-- What the contents of documents declare in texts as entities, the documents declare as entities
of these contents. -/
private theorem exists_readEntities_of_anonymous {fs : List EntityDecl} (i : Nat) {vs : List Value}
    (h : readEntities i (vs.map anonymous) = .ok fs)
    (parts : ∀ v ∈ vs, v.Every (IsOfDocument number)) (texts : ∀ f ∈ fs, f.IsTextual) :
    ∃ es, readEntities i vs = .ok es ∧ List.Forall₂ (EntityDecl.IsOf number) fs es := by
  induction vs generalizing i fs with
  | nil =>
    obtain rfl := Except.ok.inj h
    exact ⟨[], rfl, .nil⟩
  | cons v vs ih =>
    rw [List.forall_mem_cons] at parts
    simp only [List.map_cons, readEntities, Success.bind_eq_ok] at h ⊢
    obtain ⟨f, hf, gs, hgs, rest⟩ := h
    obtain rfl := Except.ok.inj rest
    rw [List.forall_mem_cons] at texts
    obtain ⟨e, he, hef⟩ := exists_readEntity_of_anonymous hf parts.1 texts.1
    obtain ⟨es, hes, h⟩ := ih (i + 1) hgs parts.2 texts.2
    exact ⟨e :: es, ⟨e, he, es, hes, rfl⟩, .cons hef h⟩

end Document

/-- A model has the content of another, and its defaults are made of objects of a document. -/
structure Model.IsOf (number : Nat) (n m : Model) : Prop where
  anonymous : m.anonymous = n
  defaults : ∀ e ∈ m.entities, ∀ a ∈ e.attributes, a.default.Every (Value.IsOfDocument number)

private theorem EntityDecl.map_anonymous_of_isOf {number : Nat} {fs es : List EntityDecl}
    (h : List.Forall₂ (IsOf number) fs es) : es.map (·.anonymous) = fs ∧
      ∀ e ∈ es, ∀ a ∈ e.attributes, a.default.Every (Value.IsOfDocument number) := by
  induction h with
  | nil => exact ⟨rfl, List.forall_mem_nil _⟩
  | cons hef _ ih =>
    exact ⟨List.cons_eq_cons.mpr ⟨hef.anonymous, ih.1⟩,
      List.forall_mem_cons.mpr ⟨hef.defaults, ih.2⟩⟩

namespace Document

open Value

variable {number : Nat} {v : Value}

/-- What the content of a document declares in texts, the document declares as a model of this
content. -/
theorem exists_read_of_anonymous {n : Model} (h : read v.anonymous = .ok n)
    (parts : v.Every (IsOfDocument number)) (name : n.name.IsText)
    (texts : ∀ e ∈ n.entities, e.IsTextual) : ∃ m, read v = .ok m ∧ n.IsOf number m := by
  have held (key : String) {w : Value} (hw : w.anonymous = w) :
      ((v.get? key).map Value.anonymous).getD w = ((v.get? key).getD w).anonymous := by
    conv_lhs => rw [← hw]
    exact Option.getD_map Value.anonymous w _
  have named := held "name" (w := Model.defaultName) rfl
  have versioned := held "version" (w := Model.defaultVersion) rfl
  simp only [read, Success.bind_eq_ok, Success.liftM_eq_ok, readVersion_eq_ok,
    get?_anonymous _ parts.noLoops, named, versioned] at h ⊢
  obtain ⟨_, mapping, ms, hms, fs, hfs, _, ⟨positive, rfl⟩, made⟩ := h
  rw [int?_anonymous] at positive
  obtain ⟨i, hi, above⟩ := positive
  have zero := Value.atMostZero_of_int? hi above
  have zero' : ((v.get? "version").getD Model.defaultVersion).anonymous.atMostZero = .ok false :=
    (atMostZero_anonymous _).trans zero
  rw [make_eq_ok _ fs zero'] at made
  obtain rfl := Except.ok.inj made
  obtain ⟨ws, hws, rfl, inside⟩ := exists_members_of_anonymous hms parts
  obtain ⟨es, hes, hef⟩ := exists_readEntities_of_anonymous 0 hfs inside texts
  obtain ⟨same, defaults⟩ := EntityDecl.map_anonymous_of_isOf hef
  have bare : ((v.get? "name").getD Model.defaultName).anonymous =
      (v.get? "name").getD Model.defaultName := by
    refine @IsOfDocument.eq_of_isText number _ ?_ (.inr name)
    cases held : v.get? "name" with
    | none => exact isOfDocument_fresh _
    | some w => exact (parts.get? (survives_isOfDocument number) held).self
  refine ⟨_, ⟨(), (checkMapping_anonymous _ v).mp mapping, ws, hws, es, hes, _,
    ⟨⟨i, hi, above⟩, rfl⟩, make_eq_ok _ es zero⟩, ?_, defaults⟩
  simp only [Model.anonymous, bare, same]

end Document

/-! ### Comparisons of declarations -/

/-- Lists are compared with others as what their members become, if it is so for each member. -/
theorem compareLists_map_left {α : Type} (same endless : α → α → Bool) (f : α → α) {as bs : List α}
    (h : ∀ b ∈ bs, ∀ a ∈ as, same (f b) a = same b a ∧ endless (f b) a = endless b a) :
    sameLists same (bs.map f) as = sameLists same bs as ∧
      endlessLists same endless (bs.map f) as = endlessLists same endless bs as := by
  induction bs generalizing as with
  | nil => cases as <;> exact ⟨rfl, rfl⟩
  | cons b bs ih =>
    cases as with
    | nil => exact ⟨rfl, rfl⟩
    | cons a as =>
      obtain ⟨first, first'⟩ := h b List.mem_cons_self a List.mem_cons_self
      obtain ⟨rest, rest'⟩ := @ih as fun b hb a ha ↦
        h b (List.mem_cons_of_mem _ hb) a (List.mem_cons_of_mem _ ha)
      simp only [List.map_cons, sameLists, endlessLists, first, first', rest, rest', and_self]

section Comparisons

variable {number : Nat}

private theorem AttributeDecl.anonymous_compare {b a : AttributeDecl}
    (h : b.default.Every (Value.IsOfDocument number))
    (apart : a.default.Every (Value.IsApartFrom number)) :
    b.anonymous.same a = b.same a ∧ b.anonymous.endless a = b.endless a := by
  constructor
  · rw [AttributeDecl.same, AttributeDecl.same, ← Value.anonymous_same _ _ h apart]
    rfl
  · rw [AttributeDecl.endless, AttributeDecl.endless, ← Value.anonymous_endless _ _ h apart]
    rfl

private theorem EntityDecl.anonymous_compare {f e : EntityDecl}
    (h : ∀ b ∈ f.attributes, b.default.Every (Value.IsOfDocument number))
    (apart : ∀ a ∈ e.attributes, a.default.Every (Value.IsApartFrom number)) :
    f.anonymous.same e = f.same e ∧ f.anonymous.endless e = f.endless e := by
  obtain ⟨same, endless⟩ := compareLists_map_left AttributeDecl.same AttributeDecl.endless
    AttributeDecl.anonymous fun b hb a ha ↦
      AttributeDecl.anonymous_compare (h b hb) (apart a ha)
  constructor
  · rw [EntityDecl.same, EntityDecl.same, ← same]
    rfl
  · rw [EntityDecl.endless, EntityDecl.endless, ← endless, EntityDecl.anonymous, List.length_map]

/-- The entities of a model of a document are compared by their contents with those of a model that
is apart from it. -/
theorem Model.anonymous_compareEntities {n m : Model}
    (h : ∀ f ∈ n.entities, ∀ b ∈ f.attributes, b.default.Every (Value.IsOfDocument number))
    (apart : ∀ e ∈ m.entities, ∀ a ∈ e.attributes, a.default.Every (Value.IsApartFrom number)) :
    n.anonymous.compareEntities m = n.compareEntities m := by
  obtain ⟨same, endless⟩ := compareLists_map_left EntityDecl.same EntityDecl.endless
    EntityDecl.anonymous fun f hf e he ↦ EntityDecl.anonymous_compare (h f hf) (apart e he)
  rw [compareEntities, compareEntities, sameEntities, sameEntities, endlessEntities,
    endlessEntities, ← same, ← endless, anonymous, List.length_map]

end Comparisons

end EntityGraph
