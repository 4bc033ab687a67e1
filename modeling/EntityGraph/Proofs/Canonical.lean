import Mathlib.Data.List.Forall2
import Mathlib.Data.List.Perm.Subperm
import EntityGraph.Proofs.Parts
import EntityGraph.Proofs.Writing
import EntityGraph.Value.Canonical

/-!
# Canonical forms

Every value whose parts can be told by a text has a canonical form, which can be written in every
style. Of a mapping, the form has as many entries as the mapping exactly if no two of its keys
become one text.
-/

namespace EntityGraph

open Json

namespace Value

/-! ### Values that can be told -/

/-- A part of a value that has a text and does not hold itself. -/
def IsTellable : Value → Prop
  | .atom _ a => ∃ s, a.inspect = .ok s
  | .loop .. => False
  | _ => True

mutual

/-- A value of tellable parts has a text. -/
theorem exists_inspect {v : Value} (h : v.Every IsTellable) : ∃ s, v.inspect = .ok s := by
  cases v with
  | atom id a => exact h
  | seq id kind items =>
    obtain ⟨ts, hts⟩ := exists_inspectItems h.2
    exact ⟨_, by rw [inspect, hts]; rfl⟩
  | dict id entries =>
    obtain ⟨ts, hts⟩ := exists_inspectEntries h.2
    exact ⟨_, by rw [inspect, hts]; rfl⟩
  | loop id kind => cases h

/-- Values of tellable parts have texts. -/
theorem exists_inspectItems {vs : List Value} (h : EveryMember IsTellable vs) :
    ∃ ts, inspectItems vs = .ok ts := by
  cases vs with
  | nil => exact ⟨[], rfl⟩
  | cons v vs =>
    obtain ⟨t, ht⟩ := exists_inspect h.1
    obtain ⟨ts, hts⟩ := exists_inspectItems h.2
    exact ⟨t :: ts, by rw [inspectItems, ht, hts]; rfl⟩

/-- Entries of tellable parts have texts. -/
theorem exists_inspectEntries {es : List (Value × Value)} (h : EveryEntry IsTellable es) :
    ∃ ts, inspectEntries es = .ok ts := by
  cases es with
  | nil => exact ⟨[], rfl⟩
  | cons e es =>
    obtain ⟨k, v⟩ := e
    obtain ⟨s, hs⟩ := exists_inspect h.1.1
    obtain ⟨t, ht⟩ := exists_inspect h.1.2
    obtain ⟨ts, hts⟩ := exists_inspectEntries h.2
    exact ⟨(s ++ ": " ++ t) :: ts, by rw [inspectEntries, hs, ht, hts]; rfl⟩

end

private theorem exists_canonicalKey {k : Value} (h : k.Every IsTellable) :
    ∃ s, k.canonicalKey = .ok s := by
  obtain ⟨t, ht⟩ := exists_inspect h
  unfold canonicalKey
  cases k.text? with
  | some s => exact ⟨s, rfl⟩
  | none => exact ⟨_, by rw [ht]; rfl⟩

/-! ### Forms -/

/-- A part of a canonical form: an absent value, a truth value, a number that can be written, a
text, a list, or a mapping of distinct texts. -/
def IsFormPart : Value → Prop
  | .atom _ .null | .atom _ (.bool _) | .atom _ (.float _) | .atom _ (.text _) => True
  | .atom _ (.int i) => Number.Integer.isTooLong i = false
  | .seq id kind _ => id = .fresh ∧ kind = .list
  | .dict id es => id = .fresh ∧ (∀ e ∈ es, e.1.IsText) ∧ (es.map (·.1)).Nodup
  | _ => False

/-- A value that is made of nothing but what canonical forms are made of. -/
def IsForm (v : Value) : Prop := v.Every IsFormPart

/-- A text is a form. -/
theorem isForm_text (s : String) : (text s).IsForm := trivial

private theorem isForm_list {vs : List Value} (h : ∀ v ∈ vs, v.IsForm) : (list vs).IsForm :=
  ⟨⟨rfl, rfl⟩, (everyMember_iff vs).mpr h⟩

private theorem isForm_dict {es : List (Value × Value)} (texts : ∀ e ∈ es, e.1.IsText)
    (distinct : (es.map (·.1)).Nodup) (h : ∀ e ∈ es, e.2.IsForm) :
    (Value.dict .fresh es).IsForm := by
  refine ⟨⟨rfl, texts, distinct⟩, (everyEntry_iff es).mpr fun e he ↦ ⟨?_, h e he⟩⟩
  obtain ⟨s, hs⟩ := texts e he
  rw [hs]
  exact isForm_text s

mutual

/-- A form can be written in every style, at every level. -/
theorem IsForm.exists_write {v : Value} (h : v.IsForm) (style : Style) (level : Nat) :
    ∃ t, write style level v = .ok t := by
  cases v with
  | atom id a =>
    cases a with
    | null | bool | float | text => exact ⟨_, rfl⟩
    | int i =>
      have short : Number.Integer.isTooLong i = false := h
      exact ⟨_, by rw [write, atomText?, intText, short]; rfl⟩
    | _ => cases h
  | seq id kind items =>
    obtain ⟨⟨rfl, rfl⟩, members⟩ := h
    obtain ⟨ts, hts⟩ := IsForm.exists_writeItems members style (level + 1)
    exact ⟨_, by rw [write, hts]; rfl⟩
  | dict id entries =>
    obtain ⟨⟨rfl, texts, -⟩, values⟩ := h
    have written := IsForm.exists_writeEntries values style (level + 1)
    have keys : ∀ e ∈ writeEntries style (level + 1) entries, e.1.IsText := by
      rw [writeEntries_eq_map, List.forall_mem_map]
      exact texts
    have ordered : ∃ es, orderEntries style (writeEntries style (level + 1) entries) = .ok es := by
      unfold orderEntries
      split
      · rw [checkOrders_of_isText _ (List.forall_mem_map.mpr keys)]
        exact ⟨_, rfl⟩
      · exact ⟨_, rfl⟩
    obtain ⟨es, hes⟩ := ordered
    obtain ⟨ts, hts⟩ := (exists_objectMembers_eq_ok style es).mpr fun e he ↦ by
      have he := mem_of_orderEntries hes he
      obtain ⟨s, hs⟩ := keys e he
      exact ⟨⟨s, by rw [hs]; rfl⟩, written e he⟩
    exact ⟨_, by rw [write, hes]; simp only [bind, Except.bind, hts]; rfl⟩
  | loop id kind => cases h

/-- Members that are forms can be written. -/
theorem IsForm.exists_writeItems {vs : List Value} (h : EveryMember IsFormPart vs) (style : Style)
    (level : Nat) : ∃ ts, writeItems style level vs = .ok ts := by
  cases vs with
  | nil => exact ⟨[], rfl⟩
  | cons v vs =>
    obtain ⟨t, ht⟩ := IsForm.exists_write h.1 style level
    obtain ⟨ts, hts⟩ := IsForm.exists_writeItems h.2 style level
    exact ⟨t :: ts, by rw [writeItems, ht, hts]; rfl⟩

/-- The values of entries can be written if they are forms. -/
theorem IsForm.exists_writeEntries {es : List (Value × Value)} (h : EveryEntry IsFormPart es)
    (style : Style) (level : Nat) : ∀ e ∈ writeEntries style level es, ∃ t, e.2 = .ok t := by
  cases es with
  | nil => simp [writeEntries]
  | cons e es =>
    obtain ⟨k, v⟩ := e
    rw [writeEntries, List.forall_mem_cons]
    exact ⟨IsForm.exists_write h.1.2 style level, IsForm.exists_writeEntries h.2 style level⟩

end

/-! ### Sets -/

private theorem exists_withSortTexts {vs : List Value} (h : ∀ v ∈ vs, ∃ t, v.sortText = .ok t) :
    ∃ ps, withSortTexts vs = .ok ps := by
  induction vs with
  | nil => exact ⟨[], rfl⟩
  | cons v vs ih =>
    obtain ⟨⟨t, ht⟩, hvs⟩ := List.forall_mem_cons.mp h
    obtain ⟨ps, hps⟩ := ih hvs
    exact ⟨(t, v) :: ps, by rw [withSortTexts, ht, hps]; rfl⟩

/-- Members are paired with their own texts, in order. -/
theorem forall₂_of_withSortTexts {vs : List Value} {ps : List (String × Value)}
    (h : withSortTexts vs = .ok ps) :
    List.Forall₂ (fun v p ↦ p.2 = v ∧ p.2.sortText = .ok p.1) vs ps := by
  induction vs generalizing ps with
  | nil =>
    obtain rfl := Except.ok.inj h
    exact .nil
  | cons v vs ih =>
    obtain ⟨t, ht, h⟩ := (Success.bind_eq_ok _ _ _).mp h
    obtain ⟨rest, hrest, h⟩ := (Success.bind_eq_ok _ _ _).mp h
    obtain rfl := Except.ok.inj h
    exact .cons ⟨rfl, ht⟩ (ih hrest)

/-- Members stay what they are when they are paired with their texts. -/
theorem map_snd_of_withSortTexts {vs : List Value} {ps : List (String × Value)}
    (h : withSortTexts vs = .ok ps) : ps.map (·.2) = vs := by
  have members : ps.map (·.2) = vs.map id :=
    Success.map_eq_of_forall₂ (forall₂_of_withSortTexts h) fun _ _ hp ↦ hp.1
  rwa [List.map_id] at members

/-- Members that can be written are put in order. -/
theorem exists_sortMembers {vs : List Value} (h : ∀ v ∈ vs, ∃ t, v.sortText = .ok t) :
    ∃ ws, sortMembers vs = .ok ws := by
  obtain ⟨ps, hps⟩ := exists_withSortTexts h
  exact ⟨_, by rw [sortMembers, hps]; rfl⟩

/-- Putting members in order loses none of them. -/
theorem perm_of_sortMembers {vs ws : List Value} (h : sortMembers vs = .ok ws) : ws.Perm vs := by
  obtain ⟨ps, hps, h⟩ := (Success.bind_eq_ok _ _ _).mp h
  obtain rfl := Except.ok.inj h
  rw [← map_snd_of_withSortTexts hps]
  exact (List.mergeSort_perm _ _).map _

/-! ### Entries under texts -/

section Entries

variable {α : Type} {es : List (Value × α)}

/-- Under a key that some entry has, the keys stay as they are; any other key comes last. -/
private theorem keys_insert {key : Value} (text : key.IsText) (a : α)
    (texts : ∀ e ∈ es, e.1.IsText) :
    key ∈ es.map (·.1) ∧ (insert key a es).map (·.1) = es.map (·.1) ∨
      key ∉ es.map (·.1) ∧ (insert key a es).map (·.1) = es.map (·.1) ++ [key] := by
  induction es with
  | nil => exact .inr ⟨List.not_mem_nil, rfl⟩
  | cons e es ih =>
    obtain ⟨k, b⟩ := e
    obtain ⟨hk, hes⟩ := List.forall_mem_cons.mp texts
    rw [insert]
    by_cases h : key = k
    · rw [(text.same_iff hk).mpr h, if_pos rfl]
      exact .inl ⟨by simp [h], rfl⟩
    · rw [(text.same_eq_false_iff hk).mpr h, if_neg Bool.false_ne_true, List.map_cons,
        List.map_cons, List.mem_cons, or_iff_right h]
      exact (ih hes).imp (.imp_right (congrArg _)) (.imp_right (congrArg _))

/-- Entries added one after the other to entries of distinct textual keys have distinct textual
keys: those that were there and those that were added. -/
theorem keys_foldl_insert (es before : List (Value × α)) (texts : ∀ e ∈ es, e.1.IsText)
    (texts' : ∀ e ∈ before, e.1.IsText) (distinct : (before.map (·.1)).Nodup) :
    ((es.foldl (fun fs e ↦ insert e.1 e.2 fs) before).map (·.1)).Nodup ∧
      ∀ k, k ∈ (es.foldl (fun fs e ↦ insert e.1 e.2 fs) before).map (·.1) ↔
        k ∈ before.map (·.1) ∨ k ∈ es.map (·.1) := by
  induction es generalizing before with
  | nil => simpa using distinct
  | cons e es ih =>
    obtain ⟨he, hes⟩ := List.forall_mem_cons.mp texts
    obtain ⟨member, unique⟩ : (∀ k, k ∈ (insert e.1 e.2 before).map (·.1) ↔
        k ∈ before.map (·.1) ∨ k = e.1) ∧ ((insert e.1 e.2 before).map (·.1)).Nodup := by
      rcases keys_insert he e.2 texts' with ⟨h, keys⟩ | ⟨h, keys⟩
      · rw [keys]
        exact ⟨fun k ↦ ⟨.inl, fun hk ↦ hk.elim id fun hk ↦ hk ▸ h⟩, distinct⟩
      · rw [keys]
        exact ⟨by simp, List.nodup_append.mpr ⟨distinct, by simp, by
          rintro k hk _ hk' rfl
          exact h (List.mem_singleton.mp hk' ▸ hk)⟩⟩
    have named : ∀ f ∈ insert e.1 e.2 before, f.1.IsText := by
      intro f hf
      rcases (member f.1).mp (List.mem_map_of_mem hf) with h | h
      · obtain ⟨f', hf', h⟩ := List.mem_map.mp h
        exact h ▸ texts' f' hf'
      · exact h ▸ he
    obtain ⟨hnodup, hmem⟩ := ih (insert e.1 e.2 before) hes named unique
    refine ⟨hnodup, fun k ↦ ?_⟩
    rw [List.foldl_cons, hmem, member, List.map_cons, List.mem_cons, or_assoc]

/-- Entries added one after the other under textual keys have textual keys. -/
theorem isText_of_mem_foldl_insert (texts : ∀ e ∈ es, e.1.IsText) :
    ∀ f ∈ es.foldl (fun fs e ↦ insert e.1 e.2 fs) [], f.1.IsText := by
  intro f hf
  obtain ⟨-, keys⟩ := keys_foldl_insert es [] texts (by simp) (by simp)
  have key := ((keys f.1).mp (List.mem_map_of_mem hf)).resolve_left List.not_mem_nil
  obtain ⟨e, he, h⟩ := List.mem_map.mp key
  exact h ▸ texts e he

private theorem length_foldl_insert_iff (texts : ∀ e ∈ es, e.1.IsText) :
    (es.foldl (fun fs e ↦ insert e.1 e.2 fs) []).length = es.length ↔ (es.map (·.1)).Nodup := by
  constructor
  · intro h
    obtain ⟨hnodup, hmem⟩ := keys_foldl_insert es [] texts (by simp) (by simp)
    have among := hnodup.subperm fun k hk ↦ ((hmem k).mp hk).resolve_left (by simp)
    exact (among.perm_of_length_le (by simp [h])).nodup hnodup
  · intro distinct
    rw [foldl_insert_eq es texts distinct]

/-- An inserted value is one of those that were there, or the new one. -/
private theorem mem_values_insert {key : Value} {a : α} {f : Value × α} (h : f ∈ insert key a es) :
    f.2 = a ∨ ∃ e ∈ es, f.2 = e.2 := by
  induction es with
  | nil =>
    obtain rfl := List.mem_singleton.mp h
    exact .inl rfl
  | cons e es ih =>
    rw [insert] at h
    split at h
    · rcases List.mem_cons.mp h with rfl | h
      · exact .inl rfl
      · exact .inr ⟨f, List.mem_cons_of_mem _ h, rfl⟩
    · rcases List.mem_cons.mp h with rfl | h
      · exact .inr ⟨_, List.mem_cons_self, rfl⟩
      · rcases ih h with hf | ⟨e, he, hf⟩
        · exact .inl hf
        · exact .inr ⟨e, List.mem_cons_of_mem _ he, hf⟩

/-- What all values have that are added one after the other, and all that were there, all have at
the end. -/
theorem forall_values_foldl_insert {P : α → Prop} {before : List (Value × α)}
    (h : ∀ e ∈ es, P e.2) (h' : ∀ e ∈ before, P e.2) :
    ∀ f ∈ es.foldl (fun fs e ↦ insert e.1 e.2 fs) before, P f.2 := by
  induction es generalizing before with
  | nil => exact h'
  | cons e es ih =>
    obtain ⟨he, hes⟩ := List.forall_mem_cons.mp h
    refine ih hes fun f hf ↦ ?_
    rcases mem_values_insert hf with heq | ⟨f', hf', heq⟩
    · exact heq ▸ he
    · exact heq ▸ h' f' hf'

section Related

variable {β : Type} {R : α → β → Prop}

private theorem forall₂_insert {key : Value} {a : α} {b : β} (hab : R a b) {fs : List (Value × β)}
    (h : List.Forall₂ (fun e f ↦ f.1 = e.1 ∧ R e.2 f.2) es fs) :
    List.Forall₂ (fun e f ↦ f.1 = e.1 ∧ R e.2 f.2) (insert key a es) (insert key b fs) := by
  induction h with
  | nil => exact .cons ⟨rfl, hab⟩ .nil
  | @cons e f es fs hef rest ih =>
    rw [insert, insert, hef.1]
    split
    · exact .cons ⟨rfl, hab⟩ rest
    · exact .cons ⟨rfl, hef.2⟩ ih

/-- Entries with the same keys and related values are so after being added one after the other. -/
theorem forall₂_foldl_insert {before : List (Value × α)} {fs before' : List (Value × β)}
    (h : List.Forall₂ (fun e f ↦ f.1 = e.1 ∧ R e.2 f.2) es fs)
    (h' : List.Forall₂ (fun e f ↦ f.1 = e.1 ∧ R e.2 f.2) before before') :
    List.Forall₂ (fun e f ↦ f.1 = e.1 ∧ R e.2 f.2)
      (es.foldl (fun es e ↦ insert e.1 e.2 es) before)
      (fs.foldl (fun fs f ↦ insert f.1 f.2 fs) before') := by
  induction h generalizing before before' with
  | nil => exact h'
  | cons hef _ ih =>
    rw [List.foldl_cons, List.foldl_cons, hef.1]
    exact ih (forall₂_insert hef.2 h')

end Related

end Entries

/-! ### Forms of values -/

/-- An entry becomes one under the text that its key becomes, with the form of its value. -/
def EntryBecomes (e f : Value × Value) : Prop :=
  ∃ s, e.1.canonicalKey = .ok s ∧ f.1 = text s ∧ e.2.canonical = .ok f.2

/-- The forms of members are those of each of them. -/
theorem canonicalItems_eq_mapM (vs : List Value) : canonicalItems vs = vs.mapM canonical := by
  induction vs with
  | nil => rfl
  | cons v vs ih => rw [canonicalItems, List.mapM_cons, ih]

/-- The forms of entries are those of each of them. -/
theorem canonicalEntries_eq_ok (es fs : List (Value × Value)) :
    canonicalEntries es = .ok fs ↔ List.Forall₂ EntryBecomes es fs := by
  induction es generalizing fs with
  | nil => simp [canonicalEntries, eq_comm]
  | cons e es ih =>
    obtain ⟨k, v⟩ := e
    rw [canonicalEntries, List.forall₂_cons_left_iff]
    simp only [Success.bind_eq_ok, pure, Except.pure, Except.ok.injEq]
    constructor
    · rintro ⟨s, hs, form, hform, rest, hrest, rfl⟩
      exact ⟨_, rest, ⟨s, hs, rfl, hform⟩, (ih rest).mp hrest, rfl⟩
    · rintro ⟨⟨_, form⟩, rest, ⟨s, hs, rfl, hform⟩, hrest, rfl⟩
      exact ⟨s, hs, form, hform, rest, (ih rest).mpr hrest, rfl⟩

/-- No two keys of some entries become one text. -/
def KeysApart (es : List (Value × Value)) : Prop := (es.map (·.1.canonicalKey)).Nodup

private theorem exists_keys {es fs : List (Value × Value)} (h : List.Forall₂ EntryBecomes es fs) :
    ∃ ss : List String, es.map (·.1.canonicalKey) = ss.map .ok ∧ fs.map (·.1) = ss.map text := by
  induction h with
  | nil => exact ⟨[], rfl, rfl⟩
  | cons hef _ ih =>
    obtain ⟨s, hs, hf, -⟩ := hef
    obtain ⟨ss, hes, hfs⟩ := ih
    exact ⟨s :: ss, by rw [List.map_cons, hs, hes]; rfl, by rw [List.map_cons, hf, hfs]; rfl⟩

/-- The keys that entries become are distinct exactly if the entries are apart. -/
theorem keysApart_iff {es fs : List (Value × Value)} (h : List.Forall₂ EntryBecomes es fs) :
    KeysApart es ↔ (fs.map (·.1)).Nodup := by
  obtain ⟨ss, hes, hfs⟩ := exists_keys h
  have texts : Function.Injective text := by
    intro s t hst
    simpa [text] using hst
  rw [KeysApart, hes, hfs, List.nodup_map_iff texts, List.nodup_map_iff fun _ _ ↦ Except.ok.inj]

/-- The keys that entries become are texts. -/
theorem isText_of_entryBecomes {es fs : List (Value × Value)}
    (h : List.Forall₂ EntryBecomes es fs) :
    ∀ f ∈ fs, f.1.IsText := by
  intro f hf
  obtain ⟨e, -, s, -, hs, -⟩ := Success.exists_of_forall₂ h.flip hf
  exact ⟨s, hs⟩

private theorem isForm_ofEntries {es fs : List (Value × Value)}
    (h : List.Forall₂ EntryBecomes es fs)
    (forms : ∀ f ∈ fs, f.2.IsForm) : (ofEntries .fresh fs).IsForm := by
  have texts := isText_of_entryBecomes h
  have distinct := (keys_foldl_insert fs [] texts (by simp) (by simp)).1
  exact isForm_dict (isText_of_mem_foldl_insert texts) distinct
    (forall_values_foldl_insert forms (by simp))

mutual

/-- A value of tellable parts has a canonical form. -/
theorem exists_canonical {v : Value} (h : v.Every IsTellable) :
    ∃ f, v.canonical = .ok f ∧ f.IsForm := by
  cases v with
  | atom id a =>
    obtain ⟨s, hs⟩ : ∃ s, a.inspect = .ok s := h
    have shown : ∃ f, ((Value.atom id a).inspect.map text) = .ok f ∧ f.IsForm :=
      ⟨text s, by rw [inspect, hs]; rfl, isForm_text s⟩
    cases a with
    | null | bool | float | text => exact ⟨_, rfl, trivial⟩
    | int i =>
      refine ⟨_, rfl, ?_⟩
      show Number.Integer.isTooLong i = false
      rw [Atom.inspect, intText] at hs
      split at hs
      · cases hs
      · next short => exact Bool.not_eq_true _ |>.mp short
    | bytes growable content => exact ⟨_, rfl, isForm_text _⟩
    | _ => exact shown
  | seq id kind items =>
    obtain ⟨fs, hfs, forms⟩ := exists_canonicalItems h.2
    have sorted : ∃ f, (sortMembers fs).map list = .ok f ∧ f.IsForm := by
      obtain ⟨gs, hgs⟩ := exists_sortMembers fun f hf ↦ (forms f hf).exists_write .sortedLine 0
      have members : ∀ g ∈ gs, g.IsForm :=
        fun g hg ↦ forms g ((perm_of_sortMembers hgs).mem_iff.mp hg)
      exact ⟨list gs, by rw [hgs]; rfl, isForm_list members⟩
    rw [canonical, hfs]
    cases kind with
    | list | tuple => exact ⟨list fs, rfl, isForm_list forms⟩
    | set | frozenset => exact sorted
  | dict id entries =>
    obtain ⟨fs, hfs, forms⟩ := exists_canonicalEntries h.2
    exact ⟨ofEntries .fresh fs, by rw [canonical, hfs]; rfl,
      isForm_ofEntries ((canonicalEntries_eq_ok _ _).mp hfs) forms⟩
  | loop id kind => cases h

/-- Values of tellable parts have canonical forms. -/
theorem exists_canonicalItems {vs : List Value} (h : EveryMember IsTellable vs) :
    ∃ fs, canonicalItems vs = .ok fs ∧ ∀ f ∈ fs, f.IsForm := by
  cases vs with
  | nil => exact ⟨[], rfl, by simp⟩
  | cons v vs =>
    obtain ⟨f, hf, form⟩ := exists_canonical h.1
    obtain ⟨fs, hfs, forms⟩ := exists_canonicalItems h.2
    exact ⟨f :: fs, by rw [canonicalItems, hf, hfs]; rfl, List.forall_mem_cons.mpr ⟨form, forms⟩⟩

/-- Entries of tellable parts become entries with canonical forms. -/
theorem exists_canonicalEntries {es : List (Value × Value)} (h : EveryEntry IsTellable es) :
    ∃ fs, canonicalEntries es = .ok fs ∧ ∀ f ∈ fs, f.2.IsForm := by
  cases es with
  | nil => exact ⟨[], rfl, by simp⟩
  | cons e es =>
    obtain ⟨k, v⟩ := e
    obtain ⟨s, hs⟩ := exists_canonicalKey h.1.1
    obtain ⟨f, hf, form⟩ := exists_canonical h.1.2
    obtain ⟨fs, hfs, forms⟩ := exists_canonicalEntries h.2
    exact ⟨(text s, f) :: fs, by rw [canonicalEntries, hs, hf, hfs]; rfl,
      List.forall_mem_cons.mpr ⟨form, forms⟩⟩

end

/-- The canonical form of a mapping has as many entries as the mapping exactly if no two of its keys
become one text. -/
theorem exists_canonical_dict {id : Identity} {es : List (Value × Value)}
    (h : (Value.dict id es).Every IsTellable) :
    ∃ fs, (Value.dict id es).canonical = .ok (.dict .fresh fs) ∧
      (fs.length = es.length ↔ KeysApart es) := by
  obtain ⟨fs, hfs, -⟩ := exists_canonicalEntries h.2
  have becomes := (canonicalEntries_eq_ok es fs).mp hfs
  refine ⟨_, by rw [canonical, hfs]; rfl, ?_⟩
  rw [keysApart_iff becomes, becomes.length_eq,
    length_foldl_insert_iff (isText_of_entryBecomes becomes)]

/-! ### Parts of forms -/

/-- Whether an atom is its own canonical form: it is plain, or a binary number. -/
def isFormalAtom : Atom → Bool
  | .float _ => true
  | a => a.isPlain

/-- What the parts of a value have, and what of that the parts of its canonical form have: atoms
that are their own forms keep it, and the texts, lists and mappings of forms have it in any case. -/
structure IsKeptByForms (Q P : Value → Prop) : Prop where
  atoms : ∀ id a, isFormalAtom a = true → Q (.atom id a) → P (.atom id a)
  texts : ∀ s, P (.text s)
  lists : ∀ vs, P (.list vs)
  mappings : ∀ es, (∀ e ∈ es, e.1.IsText) → (es.map (·.1)).Nodup → P (.dict .fresh es)

section Parts

variable {P Q : Value → Prop}

mutual

/-- The parts of a canonical form are atoms that the value has, texts, lists, and mappings of
distinct texts. -/
theorem every_form_of_canonical (kept : IsKeptByForms Q P) {v f : Value} (h : v.Every Q)
    (hf : v.canonical = .ok f) : f.Every P := by
  cases v with
  | atom id a =>
    have shown : (Value.atom id a).inspect.map text = .ok f → f.Every P := by
      intro hf
      obtain ⟨s, -, rfl⟩ := (Success.map_eq_ok _ _ _).mp hf
      exact kept.texts s
    cases a with
    | null | bool | int | float | text =>
      obtain rfl := Except.ok.inj hf
      exact kept.atoms id _ rfl h
    | bytes growable content =>
      obtain rfl := Except.ok.inj hf
      exact kept.texts _
    | _ => exact shown hf
  | seq id kind items =>
    obtain ⟨fs, hfs, hf⟩ := (Success.bind_eq_ok _ _ _).mp hf
    have members := everyMember_form_of_canonical kept h.2 hfs
    cases kind with
    | list | tuple =>
      obtain rfl := Except.ok.inj hf
      exact ⟨kept.lists fs, (everyMember_iff fs).mpr members⟩
    | set | frozenset =>
      obtain ⟨gs, hgs, rfl⟩ := (Success.map_eq_ok _ _ _).mp hf
      exact ⟨kept.lists gs, (everyMember_iff gs).mpr fun g hg ↦
        members g ((perm_of_sortMembers hgs).mem_iff.mp hg)⟩
  | dict id entries =>
    obtain ⟨fs, hfs, hf⟩ := (Success.bind_eq_ok _ _ _).mp hf
    obtain rfl := Except.ok.inj hf
    have becomes := (canonicalEntries_eq_ok _ _).mp hfs
    have values := everyEntry_form_of_canonical kept h.2 becomes
    have named := isText_of_entryBecomes becomes
    have keys := isText_of_mem_foldl_insert named
    have distinct := (keys_foldl_insert fs [] named (by simp) (by simp)).1
    refine ⟨kept.mappings _ keys distinct, (everyEntry_iff _).mpr fun f hf ↦ ⟨?_, ?_⟩⟩
    · obtain ⟨s, hs⟩ := keys f hf
      rw [hs]
      exact kept.texts s
    · exact forall_values_foldl_insert values (by simp) f hf
  | loop id kind => cases hf
termination_by structural v

/-- The parts of the canonical forms of values are such parts. -/
theorem everyMember_form_of_canonical (kept : IsKeptByForms Q P) {vs fs : List Value}
    (h : EveryMember Q vs) (hfs : canonicalItems vs = .ok fs) : ∀ f ∈ fs, f.Every P := by
  cases vs with
  | nil =>
    obtain rfl := Except.ok.inj hfs
    simp
  | cons v vs =>
    obtain ⟨f, hf, hfs⟩ := (Success.bind_eq_ok _ _ _).mp hfs
    obtain ⟨fs, hfs', hfs⟩ := (Success.bind_eq_ok _ _ _).mp hfs
    obtain rfl := Except.ok.inj hfs
    exact List.forall_mem_cons.mpr ⟨every_form_of_canonical kept h.1 hf,
      everyMember_form_of_canonical kept h.2 hfs'⟩
termination_by structural vs

/-- The parts of the values that entries get are such parts. -/
theorem everyEntry_form_of_canonical (kept : IsKeptByForms Q P) {es fs : List (Value × Value)}
    (h : EveryEntry Q es) (hfs : List.Forall₂ EntryBecomes es fs) : ∀ f ∈ fs, f.2.Every P := by
  cases es with
  | nil =>
    obtain rfl := List.forall₂_nil_left_iff.mp hfs
    simp
  | cons e es =>
    obtain ⟨k, v⟩ := e
    obtain ⟨f, fs, ⟨s, -, -, hf⟩, becomes, rfl⟩ := List.forall₂_cons_left_iff.mp hfs
    exact List.forall_mem_cons.mpr ⟨every_form_of_canonical kept h.1.2 hf,
      everyEntry_form_of_canonical kept h.2 becomes⟩
termination_by structural es

end

end Parts

/-- What the parts of a value are, and all texts, lists and mappings, the parts of its canonical
form are. -/
theorem every_of_canonical {P : Value → Prop} (texts : ∀ s, P (.text s))
    (lists : ∀ vs, P (.list vs))
    (mappings : ∀ es, P (.dict .fresh es)) {v f : Value} (h : v.Every P)
    (hf : v.canonical = .ok f) : f.Every P :=
  every_form_of_canonical ⟨fun _ _ _ ha ↦ ha, texts, lists, fun es _ _ ↦ mappings es⟩ h hf

/-! ### Forms of forms -/

mutual

/-- A form is its own canonical form. -/
theorem IsForm.canonical_eq {f : Value} (h : f.IsForm) : f.canonical = .ok f := by
  cases f with
  | atom id a =>
    cases a with
    | null | bool | int | float | text => rfl
    | _ => cases h
  | seq id kind items =>
    obtain ⟨⟨rfl, rfl⟩, members⟩ := h
    rw [canonical, IsForm.canonicalItems_eq members]
    rfl
  | dict id entries =>
    obtain ⟨⟨rfl, texts, distinct⟩, values⟩ := h
    rw [canonical, IsForm.canonicalEntries_eq texts values]
    show Except.ok (ofEntries .fresh entries) = _
    rw [ofEntries, foldl_insert_eq entries texts distinct]
  | loop id kind => cases h
termination_by structural f

/-- Forms are their own canonical forms. -/
theorem IsForm.canonicalItems_eq {fs : List Value} (h : EveryMember IsFormPart fs) :
    canonicalItems fs = .ok fs := by
  cases fs with
  | nil => rfl
  | cons f fs =>
    rw [canonicalItems, IsForm.canonical_eq h.1, IsForm.canonicalItems_eq h.2]
    rfl
termination_by structural fs

/-- Entries of texts and forms become themselves. -/
theorem IsForm.canonicalEntries_eq {es : List (Value × Value)} (texts : ∀ e ∈ es, e.1.IsText)
    (h : EveryEntry IsFormPart es) : canonicalEntries es = .ok es := by
  cases es with
  | nil => rfl
  | cons e es =>
    obtain ⟨k, f⟩ := e
    obtain ⟨⟨s, hs⟩, hes⟩ := List.forall_mem_cons.mp texts
    obtain rfl : k = text s := hs
    have key : (text s).canonicalKey = .ok s := rfl
    rw [canonicalEntries, key, IsForm.canonical_eq h.1.2, IsForm.canonicalEntries_eq hes h.2]
    rfl
termination_by structural es

end

/-- A value of tellable parts has a canonical form, which is made of what JSON has a form for, can
be written in every style, and is its own canonical form. -/
theorem exists_canonical_eq_self {v : Value} (told : v.Every IsTellable) :
    ∃ f, v.canonical = .ok f ∧ f.IsForm ∧ (∀ style, ∃ t, Json.text style f = .ok t) ∧
      f.canonical = .ok f := by
  obtain ⟨f, hf, form⟩ := exists_canonical told
  exact ⟨f, hf, form, fun style ↦ form.exists_write style 0, form.canonical_eq⟩

/-- A mapping under a number that holds a set of a text, a number, an absent value, bytes, and a
frozen set of a class. -/
def assortment : Value :=
  .dict .fresh [(int 1, .seq .fresh .set
    [text "one", int 1, null, .atom .fresh (.bytes false [255]),
      .seq .fresh .frozenset [.atom .fresh (.classRef "shop" "Order")]])]

/-- The assortment has a canonical form, though no two members of its set can be put in order. -/
theorem exists_canonical_eq_self_assortment : assortment.Every IsTellable ∧
    ∃ f, assortment.canonical = .ok f ∧ f.IsForm ∧ (∀ style, ∃ t, Json.text style f = .ok t) ∧
      f.canonical = .ok f := by
  have number : ∃ s, (Atom.int 1).inspect = .ok s := by
    have short : Number.Integer.isTooLong 1 = false := by decide +kernel
    exact ⟨_, by rw [Atom.inspect, intText, short]; rfl⟩
  have told : assortment.Every IsTellable :=
    ⟨trivial, ⟨number, trivial, ⟨_, rfl⟩, number, ⟨_, rfl⟩, ⟨_, rfl⟩, ⟨trivial, ⟨_, rfl⟩, trivial⟩,
      trivial⟩, trivial⟩
  exact ⟨told, exists_canonical_eq_self told⟩

end Value

end EntityGraph
