import EntityGraph.Json.Writer
import EntityGraph.Proofs.Names
import EntityGraph.Proofs.Parts
import EntityGraph.Proofs.Success

/-!
# Values with a JSON text

Which values can be written on one line with sorted keys. Nesting changes nothing about that, so a
list can be written exactly if its members can, and a mapping with texts as keys exactly if its
values can.
-/

namespace EntityGraph.Json

/-! ### Nesting -/

variable {style : Style}

private theorem enclose_level (oneLine : style.indent = none) (level m : Nat) (left right : String)
    (members : List String) :
    style.enclose level left right members = style.enclose m left right members := by
  simp [Style.enclose, Style.lineBreak, oneLine]

mutual

/-- On one line, a value is written the same at every level. -/
theorem write_level (oneLine : style.indent = none) (level m : Nat) (v : Value) :
    write style level v = write style m v := by
  cases v with
  | atom id a => simp only [write]
  | seq id kind items =>
    have members := writeItems_level oneLine (level + 1) (m + 1) items
    have brackets : style.array level = style.array m := by
      funext texts
      exact enclose_level oneLine level m _ _ texts
    cases kind <;> simp only [write, members, brackets]
  | dict id entries =>
    have members := writeEntries_level oneLine (level + 1) (m + 1) entries
    have braces : style.object level = style.object m := by
      funext texts
      exact enclose_level oneLine level m _ _ texts
    simp only [write, members, braces]
  | loop id kind => simp only [write]

/-- On one line, members are written the same at every level. -/
theorem writeItems_level (oneLine : style.indent = none) (level m : Nat) (vs : List Value) :
    writeItems style level vs = writeItems style m vs := by
  cases vs with
  | nil => simp only [writeItems]
  | cons v vs =>
    simp only [writeItems]
    rw [write_level oneLine level m v, writeItems_level oneLine level m vs]

/-- On one line, entries are written the same at every level. -/
theorem writeEntries_level (oneLine : style.indent = none) (level m : Nat)
    (es : List (Value × Value)) :
    writeEntries style level es = writeEntries style m es := by
  cases es with
  | nil => simp only [writeEntries]
  | cons e es =>
    obtain ⟨k, v⟩ := e
    simp only [writeEntries]
    rw [write_level oneLine level m v, writeEntries_level oneLine level m es]

end

/-- The members of an array are written one by one. -/
theorem writeItems_eq_mapM (style : Style) (level : Nat) (vs : List Value) :
    writeItems style level vs = vs.mapM (write style level) := by
  induction vs with
  | nil => rfl
  | cons v vs ih => rw [writeItems, List.mapM_cons, ih]

/-- The entries of an object are written one by one. -/
theorem writeEntries_eq_map (style : Style) (level : Nat) (es : List (Value × Value)) :
    writeEntries style level es = es.map fun e ↦ (e.1, write style level e.2) := by
  induction es with
  | nil => rfl
  | cons e es ih => rw [writeEntries, List.map_cons, ih]

/-- An object can be written exactly if every key and every value can. -/
theorem exists_objectMembers_eq_ok (style : Style) (es : List (Value × Except Fault String)) :
    (∃ texts, objectMembers style es = .ok texts) ↔
      ∀ e ∈ es, (∃ k, keyText style e.1 = .ok k) ∧ ∃ t, e.2 = .ok t := by
  induction es with
  | nil => simp [objectMembers]
  | cons e es ih =>
    obtain ⟨key, value⟩ := e
    rw [List.forall_mem_cons, ← ih]
    simp only [objectMembers, Success.bind_eq_ok, pure, Except.pure]
    constructor
    · rintro ⟨_, k, hk, t, ht, ts, hts, -⟩
      exact ⟨⟨⟨k, hk⟩, t, ht⟩, ts, hts⟩
    · rintro ⟨⟨⟨k, hk⟩, t, ht⟩, ts, hts⟩
      exact ⟨_, k, hk, t, ht, ts, hts, rfl⟩

/-- Texts can be put in order. -/
theorem checkOrders_of_isText (ks : List Value) (h : ∀ k ∈ ks, k.IsText) :
    checkOrders ks = .ok () := by
  induction ks with
  | nil => rfl
  | cons k ks ih =>
    obtain ⟨hk, hks⟩ := List.forall_mem_cons.mp h
    cases ks with
    | nil => rfl
    | cons l ks =>
      obtain ⟨s, rfl⟩ := hk
      obtain ⟨t, rfl⟩ := hks l (by simp)
      rw [checkOrders, show checkOrder (Value.text t) (Value.text s) = .ok () from rfl]
      exact ih hks

/-! ### Values with a text -/

/-- A value that can be written. -/
def HasText (v : Value) : Prop := ∃ t, text .compact v = .ok t

/-- What can be written can be written at every level. -/
theorem hasText_iff_write (level : Nat) (v : Value) :
    HasText v ↔ ∃ t, write .compact level v = .ok t := by
  rw [write_level rfl level 0 v]
  rfl

/-- A text can be written. -/
theorem hasText_text (s : String) : HasText (.text s) := ⟨_, rfl⟩

/-- A truth value can be written. -/
theorem hasText_bool (b : Bool) : HasText (.bool b) := ⟨_, rfl⟩

/-- An integer can be written exactly if it can be shown. -/
theorem hasText_int_iff (i : Int) : HasText (.int i) ↔ Number.Integer.isTooLong i = false := by
  have h : text .compact (.int i) = intText i := rfl
  rw [HasText, h, intText]
  split <;> simp [*]

/-- A list can be written exactly if its members can. -/
theorem hasText_list_iff (vs : List Value) : HasText (.list vs) ↔ ∀ v ∈ vs, HasText v := by
  have h : text .compact (.list vs) =
      (vs.mapM (write .compact 1)).map (Style.compact.array 0) := by
    rw [text, Value.list, write, writeItems_eq_mapM]
  simp only [HasText, h, Success.map_eq_ok]
  rw [exists_comm]
  simp only [exists_and_left, exists_eq', and_true, Success.exists_mapM_eq_ok]
  exact forall₂_congr fun v _ ↦ (hasText_iff_write 1 v).symm

/-- A mapping with texts as keys can be written exactly if its values can. -/
theorem hasText_record_iff (es : List (String × Value)) :
    HasText (.record es) ↔ ∀ e ∈ es, HasText e.2 := by
  let written := es.map fun e ↦ (Value.text e.1, write .compact 1 e.2)
  have keys : checkOrders (written.map (·.1)) = .ok () := by
    apply checkOrders_of_isText
    intro k hk
    simp only [written, List.map_map, List.mem_map] at hk
    obtain ⟨e, -, rfl⟩ := hk
    exact ⟨e.1, rfl⟩
  have h : text .compact (.record es) =
      (objectMembers .compact (written.mergeSort fun e f ↦ !keyLess f.1 e.1)).map
        (Style.compact.object 0) := by
    have hw : writeEntries .compact 1 (es.map fun e ↦ (Value.text e.1, e.2)) = written := by
      rw [writeEntries_eq_map, List.map_map]
      rfl
    rw [text, Value.record, write, Nat.zero_add, hw, orderEntries, keys]
    rfl
  simp only [HasText, h, Success.map_eq_ok]
  rw [exists_comm]
  simp only [exists_and_left, exists_eq', and_true, exists_objectMembers_eq_ok,
    List.mem_mergeSort, written, List.forall_mem_map]
  refine forall₂_congr fun e _ ↦ ?_
  rw [← HasText, hasText_iff_write 1]
  exact and_iff_right ⟨e.1, rfl⟩

/-! ### Faults of writing -/

/-- A fault of writing: a value of the wrong type, or one that cannot be used. -/
abbrev IsUnwritable (f : Fault) : Prop := f.kind = .type ∨ f.kind = .value

open Success (FailsOnly)

private theorem failsOnly_intText (i : Int) : FailsOnly IsUnwritable (intText i) := by
  rw [intText]
  cases Number.Integer.isTooLong i with
  | true => exact .error (.inr rfl)
  | false => exact .ok _

private theorem failsOnly_atomText? {a : Atom} {x : Except Fault String}
    (h : atomText? a = some x) :
    FailsOnly IsUnwritable x := by
  cases a with
  | null | bool | float | text =>
    obtain rfl := Option.some.inj h
    exact .ok _
  | int i =>
    obtain rfl := Option.some.inj h
    exact failsOnly_intText i
  | _ => cases h

private theorem failsOnly_objectMembers {P : Fault → Prop} (style : Style)
    (es : List (Value × Except Fault String)) (texts : ∀ e ∈ es, e.1.IsText)
    (h : ∀ e ∈ es, FailsOnly P e.2) : FailsOnly P (objectMembers style es) := by
  induction es with
  | nil => exact .ok []
  | cons e es ih =>
    obtain ⟨he, hes⟩ := List.forall_mem_cons.mp h
    obtain ⟨⟨s, hs⟩, texts⟩ := List.forall_mem_cons.mp texts
    have key : keyText style e.1 = .ok s := by rw [hs]; rfl
    rw [objectMembers, key]
    exact he.bind fun _ _ ↦ (ih texts hes).bind fun _ _ ↦ .ok _

/-- Putting entries in order leaves the entries that there are. -/
theorem mem_orderEntries_iff {style : Style} {es fs : List (Value × Except Fault String)}
    (h : orderEntries style es = .ok fs) (e : Value × Except Fault String) : e ∈ fs ↔ e ∈ es := by
  unfold orderEntries at h
  split at h
  · obtain ⟨-, -, h⟩ := (Success.bind_eq_ok _ _ _).mp h
    obtain rfl := Except.ok.inj h
    exact List.mem_mergeSort
  · obtain rfl := Except.ok.inj h
    rfl

/-- Putting entries in order leaves no other entries. -/
theorem mem_of_orderEntries {style : Style} {es fs : List (Value × Except Fault String)}
    (h : orderEntries style es = .ok fs) {e : Value × Except Fault String} (he : e ∈ fs) :
    e ∈ es :=
  (mem_orderEntries_iff h e).mp he

/-- Entries whose keys are texts fail to be written with the faults of their values. -/
theorem failsOnly_ordered {P : Fault → Prop} (style : Style) (level : Nat)
    (es : List (Value × Except Fault String)) (texts : ∀ e ∈ es, e.1.IsText)
    (h : ∀ e ∈ es, FailsOnly P e.2) :
    FailsOnly P (do
      let ordered ← orderEntries style es
      let members ← objectMembers style ordered
      return style.object level members) := by
  have ordered : FailsOnly P (orderEntries style es) := by
    unfold orderEntries
    split
    · rw [checkOrders_of_isText _ (List.forall_mem_map.mpr texts)]
      exact .ok _
    · exact .ok _
  refine ordered.bind fun fs hfs ↦ (failsOnly_objectMembers style fs (fun f hf ↦ ?_)
    fun f hf ↦ ?_).bind fun _ _ ↦ .ok _
  · exact texts f (mem_of_orderEntries hfs hf)
  · exact h f (mem_of_orderEntries hfs hf)

/-- Whether the keys of a value are texts, if it is a mapping. -/
def HasTextKeys : Value → Prop
  | .dict _ entries => ∀ e ∈ entries, e.1.IsText
  | _ => True

mutual

/-- A value whose keys are texts is unwritable where it cannot be written in a style that writes no
strings instead. -/
theorem failsOnly_write {style : Style} (strict : style.lenient = false) (level : Nat) {v : Value}
    (keys : v.Every HasTextKeys) : FailsOnly IsUnwritable (write style level v) := by
  cases v with
  | atom id a =>
    rw [write]
    cases h : atomText? a with
    | some x => exact failsOnly_atomText? h
    | none =>
      simp only [strict]
      exact .error (.inl rfl)
  | seq id kind items =>
    have members := failsOnly_writeItems strict (level + 1) keys.2
    cases kind with
    | list | tuple =>
      simp only [write]
      exact members.map _
    | set | frozenset =>
      simp only [write, strict]
      exact .error (.inl rfl)
  | dict id entries =>
    have values := failsOnly_writeEntries strict (level + 1) keys.2
    refine failsOnly_ordered style level _ ?_ values
    rw [writeEntries_eq_map, List.forall_mem_map]
    exact keys.1
  | loop id kind => exact .error (.inr rfl)

/-- Members that cannot be written are unwritable. -/
theorem failsOnly_writeItems {style : Style} (strict : style.lenient = false) (level : Nat)
    {vs : List Value} (keys : Value.EveryMember HasTextKeys vs) :
    FailsOnly IsUnwritable (writeItems style level vs) := by
  cases vs with
  | nil => exact .ok []
  | cons v vs =>
    rw [writeItems]
    exact (failsOnly_write strict level keys.1).bind fun _ _ ↦
      (failsOnly_writeItems strict level keys.2).bind fun _ _ ↦ .ok _

/-- The values of entries are unwritable where they cannot be written. -/
theorem failsOnly_writeEntries {style : Style} (strict : style.lenient = false) (level : Nat)
    {es : List (Value × Value)} (keys : Value.EveryEntry HasTextKeys es) :
    ∀ e ∈ writeEntries style level es, FailsOnly IsUnwritable e.2 := by
  cases es with
  | nil => simp [writeEntries]
  | cons e es =>
    obtain ⟨k, v⟩ := e
    rw [writeEntries, List.forall_mem_cons]
    exact ⟨failsOnly_write strict level keys.1.2, failsOnly_writeEntries strict level keys.2⟩

end

/-- A list fails to be written with the faults of its members. -/
theorem failsOnly_text_list {P : Fault → Prop} {vs : List Value}
    (h : ∀ v ∈ vs, FailsOnly P (text .compact v)) : FailsOnly P (text .compact (.list vs)) := by
  rw [text, Value.list, write, writeItems_eq_mapM]
  refine FailsOnly.map _ (.mapM fun v hv ↦ ?_)
  rw [write_level rfl _ 0]
  exact h v hv

/-- A mapping with texts as keys fails to be written with the faults of its values. -/
theorem failsOnly_text_record {P : Fault → Prop} {es : List (String × Value)}
    (h : ∀ e ∈ es, FailsOnly P (text .compact e.2)) : FailsOnly P (text .compact (.record es)) := by
  refine failsOnly_ordered .compact 0 _ ?_ ?_
  all_goals rw [writeEntries_eq_map, List.forall_mem_map, List.forall_mem_map]
  · exact fun e _ ↦ ⟨e.1, rfl⟩
  · intro e he
    rw [write_level rfl _ 0]
    exact h e he

/-! ### Other styles -/

private theorem keyText_of_eq_ok {style : Style} (other : Style) {key : Value} {t : String}
    (h : keyText style key = .ok t) : keyText other key = .ok t := by
  cases key with
  | atom id a =>
    cases a with
    | null | bool | int | float | text => exact h
    | _ => cases h
  | _ => cases h

private theorem exists_orderEntries {style other : Style}
    (order : other.sorted = true → style.sorted = true)
    {es fs gs : List (Value × Except Fault String)} (keys : gs.map (·.1) = es.map (·.1))
    (h : orderEntries style es = .ok fs) : ∃ hs, orderEntries other gs = .ok hs := by
  unfold orderEntries
  split
  · next sorted =>
    rw [orderEntries, if_pos (order sorted)] at h
    obtain ⟨_, ordered, -⟩ := (Success.bind_eq_ok _ _ _).mp h
    exact ⟨_, by rw [keys, ordered]; rfl⟩
  · exact ⟨gs, rfl⟩

mutual

/-- A value that can be written in a style that writes no strings instead can be written in every
style that leaves entries in their order, or sorts them as the first does. -/
theorem exists_write_of_strict {style other : Style} (strict : style.lenient = false)
    (order : other.sorted = true → style.sorted = true) (level m : Nat) (v : Value)
    (h : ∃ t, write style level v = .ok t) : ∃ t, write other m v = .ok t := by
  obtain ⟨t, h⟩ := h
  cases v with
  | atom id a =>
    rw [write] at h ⊢
    cases ha : atomText? a with
    | some x =>
      simp only [ha] at h ⊢
      exact ⟨t, h⟩
    | none => simp [ha, strict] at h
  | seq id kind items =>
    cases kind with
    | list | tuple =>
      simp only [write, Success.map_eq_ok] at h ⊢
      obtain ⟨texts, htexts, -⟩ := h
      obtain ⟨others, hothers⟩ :=
        exists_writeItems_of_strict strict order (level + 1) (m + 1) items ⟨texts, htexts⟩
      exact ⟨_, others, hothers, rfl⟩
    | set | frozenset => simp [write, strict] at h
  | dict id entries =>
    simp only [write, Success.bind_eq_ok] at h ⊢
    obtain ⟨ordered, hordered, members, hmembers, -⟩ := h
    have each := (exists_objectMembers_eq_ok style ordered).mp ⟨members, hmembers⟩
    have written : ∀ e ∈ writeEntries other (m + 1) entries,
        (∃ k, keyText other e.1 = .ok k) ∧ ∃ t, e.2 = .ok t := by
      rw [writeEntries_eq_map, List.forall_mem_map]
      intro e he
      have member : (e.1, write style (level + 1) e.2) ∈ ordered := by
        rw [mem_orderEntries_iff hordered, writeEntries_eq_map]
        exact List.mem_map_of_mem he
      obtain ⟨⟨k, hk⟩, value⟩ := each _ member
      exact ⟨⟨k, keyText_of_eq_ok other hk⟩,
        exists_write_of_mem strict order (level + 1) (m + 1) entries he value⟩
    have keys : (writeEntries other (m + 1) entries).map (·.1) =
        (writeEntries style (level + 1) entries).map (·.1) := by
      simp [writeEntries_eq_map, Function.comp_def]
    obtain ⟨others, hothers⟩ := exists_orderEntries order keys hordered
    obtain ⟨texts, htexts⟩ := (exists_objectMembers_eq_ok other others).mpr fun e he ↦
      written e (mem_of_orderEntries hothers he)
    exact ⟨_, others, hothers, texts, htexts, rfl⟩
  | loop id kind => cases h

/-- Members that can be written in the one style can be written in the other. -/
theorem exists_writeItems_of_strict {style other : Style} (strict : style.lenient = false)
    (order : other.sorted = true → style.sorted = true) (level m : Nat) (vs : List Value)
    (h : ∃ ts, writeItems style level vs = .ok ts) : ∃ ts, writeItems other m vs = .ok ts := by
  obtain ⟨ts, h⟩ := h
  cases vs with
  | nil => exact ⟨[], rfl⟩
  | cons v vs =>
    simp only [writeItems, Success.bind_eq_ok] at h ⊢
    obtain ⟨t, ht, rest, hrest, -⟩ := h
    obtain ⟨u, hu⟩ := exists_write_of_strict strict order level m v ⟨t, ht⟩
    obtain ⟨others, hothers⟩ :=
      exists_writeItems_of_strict strict order level m vs ⟨rest, hrest⟩
    exact ⟨_, u, hu, others, hothers, rfl⟩

/-- The value of an entry that can be written in the one style can be written in the other. -/
theorem exists_write_of_mem {style other : Style} (strict : style.lenient = false)
    (order : other.sorted = true → style.sorted = true) (level m : Nat) (es : List (Value × Value))
    {e : Value × Value} (he : e ∈ es) (h : ∃ t, write style level e.2 = .ok t) :
    ∃ t, write other m e.2 = .ok t := by
  cases es with
  | nil => cases he
  | cons d es =>
    obtain ⟨k, v⟩ := d
    rcases List.mem_cons.mp he with rfl | he
    · exact exists_write_of_strict strict order level m v h
    · exact exists_write_of_mem strict order level m es he h

end

end EntityGraph.Json
