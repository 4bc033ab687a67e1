import Mathlib.Data.List.Find
import Mathlib.Data.List.Nodup
import EntityGraph.Schema.Link

/-!
# Texts as names

Names may be any values, which are compared by a relation coarser than equality. Where all names
are texts the two agree, every name can be a key and has a text, and looking a name up finds the
one member that has it.
-/

namespace EntityGraph

namespace Value

/-- A value that is a text. -/
def IsText (v : Value) : Prop := ∃ s, v = text s

/-- A value that is a text is an atom. -/
theorem exists_eq_of_text? {v : Value} {s : String} (h : v.text? = some s) :
    ∃ id, v = .atom id (.text s) := by
  unfold text? at h
  split at h
  · obtain rfl := Option.some.inj h
    exact ⟨_, rfl⟩
  · cases h

/-- A text is the same as exactly those values that are this text. -/
theorem text_same_iff (s : String) (v : Value) : (text s).same v = true ↔ v.text? = some s := by
  cases v with
  | atom id a =>
    cases a <;> simp [text, text?, same, Identity.same, Atom.equals, Atom.numeral?, eq_comm]
  | seq id kind items => simp [text, text?, same]
  | dict id entries => simp [text, text?, same]
  | loop id kind => simp [text, text?, same]

/-- A text equals whatever it is the same as. -/
theorem text_equals (s : String) (v : Value) : (text s).equals v = (text s).same v := rfl

namespace IsText

/-- Two texts are the same exactly if they are one value. -/
theorem same_iff {v w : Value} (hv : v.IsText) (hw : w.IsText) : v.same w = true ↔ v = w := by
  obtain ⟨s, rfl⟩ := hv
  obtain ⟨t, rfl⟩ := hw
  rw [same_text, decide_eq_true_eq]
  simp [text]

/-- Two texts are told apart exactly if they are two values. -/
theorem same_eq_false_iff {v w : Value} (hv : v.IsText) (hw : w.IsText) :
    v.same w = false ↔ v ≠ w := by
  rw [← Bool.not_eq_true, same_iff hv hw]

/-- Two texts are equal exactly if they are one value. -/
theorem equals_iff {v w : Value} (hv : v.IsText) (hw : w.IsText) :
    v.equals w = true ↔ v = w := by
  obtain ⟨s, rfl⟩ := hv
  rw [text_equals, same_iff ⟨s, rfl⟩ hw]

/-- What one text is the same as, no other text is the same as. -/
theorem eq_of_same {v w x : Value} (hv : v.IsText) (hw : w.IsText) (h : v.same x = true)
    (h' : w.same x = true) : v = w := by
  obtain ⟨s, rfl⟩ := hv
  obtain ⟨t, rfl⟩ := hw
  rw [text_same_iff] at h h'
  rw [Option.some.inj (h.symm.trans h')]

/-- A text can be a key. -/
theorem checkKey {v : Value} (hv : v.IsText) : v.checkKey = .ok () := by
  obtain ⟨s, rfl⟩ := hv
  rfl

/-- A text can be shown. -/
theorem exists_display {v : Value} (hv : v.IsText) : ∃ s, v.display = .ok s := by
  obtain ⟨s, rfl⟩ := hv
  exact ⟨s, rfl⟩

end IsText

/-- An absent value does not count as true. -/
theorem truthy_of_isNull {v : Value} (h : v.isNull = true) : v.truthy = false := by
  unfold isNull at h
  split at h
  · rfl
  · cases h

/-- A text that is not empty counts as true. -/
theorem truthy_of_ne {s : String} (h : s ≠ "") : (text s).truthy = true := decide_eq_true h

/-- A text is among texts exactly if it is a member. -/
theorem among_iff_mem {v : Value} {vs : List Value} (hv : v.IsText) (hvs : ∀ w ∈ vs, w.IsText) :
    v.among vs = true ↔ v ∈ vs := by
  rw [among, List.any_eq_true]
  constructor
  · rintro ⟨w, hw, h⟩
    rwa [(hv.same_iff (hvs w hw)).mp h]
  · intro h
    exact ⟨v, h, (hv.same_iff hv).mpr rfl⟩

/-- Texts are told apart pairwise exactly if none occurs twice. -/
theorem pairwise_same_iff {vs : List Value} (hvs : ∀ v ∈ vs, v.IsText) :
    vs.Pairwise (fun v w ↦ w.same v = false) ↔ vs.Nodup := by
  apply List.Pairwise.iff_of_mem
  intro v w hv hw
  rw [(hvs w hw).same_eq_false_iff (hvs v hv), ne_comm]

/-- Distinct texts are distinct values. -/
theorem nodup_texts {texts : List String} (distinct : texts.Nodup) :
    (texts.map Value.text).Nodup := by
  apply distinct.map
  intro s t h
  simpa [Value.text] using h

end Value

section Lookup

variable {α : Type} {name : α → Value} {as : List α}

private theorem eq_of_name_same (texts : ∀ a ∈ as, (name a).IsText) (distinct : (as.map name).Nodup)
    {v : Value} {a b : α} (ha : a ∈ as) (hb : b ∈ as) (h : (name a).same v = true)
    (h' : (name b).same v = true) : a = b :=
  List.inj_on_of_nodup_map distinct ha hb ((texts a ha).eq_of_same (texts b hb) h h')

/-- The member found by a value is the one whose name is the same as the value. -/
theorem find?_name_eq_some (texts : ∀ a ∈ as, (name a).IsText) (distinct : (as.map name).Nodup)
    (v : Value) (a : α) :
    as.find? (fun x ↦ (name x).same v) = some a ↔ a ∈ as ∧ (name a).same v = true := by
  constructor
  · intro h
    exact ⟨List.mem_of_find?_eq_some h, List.find?_some (p := fun x ↦ (name x).same v) h⟩
  · rintro ⟨ha, h⟩
    have found : (as.find? fun x ↦ (name x).same v).isSome := List.find?_isSome.mpr ⟨a, ha, h⟩
    obtain ⟨b, hb⟩ := Option.isSome_iff_exists.mp found
    have hn : (name b).same v = true := List.find?_some (p := fun x ↦ (name x).same v) hb
    rw [hb, eq_of_name_same texts distinct (List.mem_of_find?_eq_some hb) ha hn h]

end Lookup

/-! ### Entries under names -/

namespace Value

variable {α : Type}

private theorem insert_eq_append {key : Value} (a : α) {es : List (Value × α)}
    (unused : ∀ e ∈ es, key.same e.1 = false) : insert key a es = es ++ [(key, a)] := by
  induction es with
  | nil => rfl
  | cons e es ih =>
    obtain ⟨he, hes⟩ := List.forall_mem_cons.mp unused
    rw [insert, he, List.cons_append, ← ih hes]
    rfl

private theorem foldl_insert_append (before es : List (Value × α))
    (distinct : (before ++ es).Pairwise fun e f ↦ f.1.same e.1 = false) :
    es.foldl (fun es e ↦ insert e.1 e.2 es) before = before ++ es := by
  induction es generalizing before with
  | nil => simp
  | cons e es ih =>
    have split : before ++ e :: es = (before ++ [e]) ++ es := by simp
    have unused : ∀ x ∈ before, e.1.same x.1 = false := fun x hx ↦
      (List.pairwise_append.mp distinct).2.2 x hx e List.mem_cons_self
    rw [split] at distinct
    rw [List.foldl_cons, insert_eq_append e.2 unused, ih (before ++ [e]) distinct, split]

/-- Entries under keys that are told apart stay, in order. -/
theorem foldl_insert_of_pairwise (es : List (Value × α))
    (distinct : es.Pairwise fun e f ↦ f.1.same e.1 = false) :
    es.foldl (fun es e ↦ insert e.1 e.2 es) [] = es :=
  foldl_insert_append [] es distinct

/-- Entries under distinct textual keys stay, in order. -/
theorem foldl_insert_eq (es : List (Value × α)) (texts : ∀ e ∈ es, e.1.IsText)
    (distinct : (es.map (·.1)).Nodup) :
    es.foldl (fun es e ↦ insert e.1 e.2 es) [] = es :=
  foldl_insert_of_pairwise es (List.pairwise_map.mp
    ((pairwise_same_iff (List.forall_mem_map.mpr texts)).mpr distinct))

end Value

namespace Key

/-- A key of two texts. -/
structure IsText (k : Key) : Prop where
  entity : k.entity.IsText
  name : k.name.IsText

namespace IsText

/-- Two keys of texts are the same exactly if they are one key. -/
theorem same_iff {k l : Key} (hk : k.IsText) (hl : l.IsText) : k.same l = true ↔ k = l := by
  obtain ⟨e, n⟩ := k
  obtain ⟨f, m⟩ := l
  rw [same, Bool.and_eq_true, hk.entity.same_iff hl.entity, hk.name.same_iff hl.name]
  simp

/-- A key of texts has a text. -/
theorem exists_text {k : Key} (hk : k.IsText) : ∃ s, k.text = .ok s := by
  obtain ⟨s, hs⟩ := hk.entity.exists_display
  obtain ⟨t, ht⟩ := hk.name.exists_display
  exact ⟨s ++ "." ++ t, by rw [text, SchemaError.memberText, hs, ht]; rfl⟩

end IsText

end Key

/-- A relationship is declared in texts: its name, its destination, and its inverse if it names
one. -/
structure RelationshipDecl.IsTextual (r : RelationshipDecl) : Prop where
  name : r.name.IsText
  destination : r.destination.IsText
  inverse : r.inverse.isNull = true ∨ r.inverse.IsText

/-- The names in the declaration of an entity are texts: its own, those of its properties and all
names in them. -/
structure EntityDecl.IsNamed (e : EntityDecl) : Prop where
  name : e.name.IsText
  attributes : ∀ a ∈ e.attributes, a.name.IsText
  relationships : ∀ r ∈ e.relationships, r.IsTextual
  unique : ∀ n ∈ e.unique, n.IsText

/-- An entity is declared in texts: its names, and its bound type if it has one. -/
structure EntityDecl.IsTextual (e : EntityDecl) : Prop extends e.IsNamed where
  boundType : e.boundType.isNull = true ∨ e.boundType.IsText

/-- Entities that are declared in texts are named by texts. -/
theorem EntityDecl.isNamed {entities : List EntityDecl} (texts : ∀ e ∈ entities, e.IsTextual) :
    ∀ e ∈ entities, e.IsNamed := fun e he ↦ (texts e he).toIsNamed

namespace EntityDecl.IsNamed

/-- No two properties of a named entity have one name. -/
theorem nodup_properties {e : EntityDecl} (h : e.IsNamed) : e.properties.Nodup := by
  have texts : ∀ n ∈ e.properties, n.IsText := by
    intro n hn
    rcases List.mem_append.mp hn with hn | hn
    · obtain ⟨a, ha, rfl⟩ := List.mem_map.mp hn
      exact h.attributes a ha
    · obtain ⟨r, hr, rfl⟩ := List.mem_map.mp hn
      exact (h.relationships r hr).name
  exact (Value.pairwise_same_iff texts).mp e.distinct.pairwise

/-- No two relationships of a named entity have one name. -/
theorem nodup_relationships {e : EntityDecl} (h : e.IsNamed) :
    (e.relationships.map (·.name)).Nodup :=
  (List.nodup_append.mp h.nodup_properties).2.1

end EntityDecl.IsNamed

end EntityGraph
