import EntityGraph.Value.Use

/-!
# Plain values

The values that documents are made of: nothing, truth values, integers, texts, lists of plain values
and mappings of texts to plain values.
-/

namespace EntityGraph

/-- Whether an atom is absent, a truth value, an integer or a text. -/
def Atom.isPlain : Atom → Bool
  | null | bool _ | int _ | text _ => true
  | _ => false

namespace Value

mutual

/-- A value that is built from plain atoms, lists, and mappings whose keys are texts. -/
def IsPlain : Value → Prop
  | .atom _ a => a.isPlain = true
  | .seq _ kind items => kind = .list ∧ ArePlain items
  | .dict _ entries => ArePlainEntries entries
  | .loop .. => False

/-- Each of some values is plain. -/
def ArePlain : List Value → Prop
  | [] => True
  | v :: vs => v.IsPlain ∧ ArePlain vs

/-- Each of some entries has a text as its key and a plain value. -/
def ArePlainEntries : List (Value × Value) → Prop
  | [] => True
  | (k, v) :: es => ((∃ s, k.text? = some s) ∧ v.IsPlain) ∧ ArePlainEntries es

end

/-- Some values are plain exactly if each of them is. -/
theorem arePlain_iff (vs : List Value) : ArePlain vs ↔ ∀ v ∈ vs, v.IsPlain := by
  induction vs with
  | nil => simp [ArePlain]
  | cons v vs ih => rw [ArePlain, List.forall_mem_cons, ih]

/-- Some entries are plain exactly if their keys are texts and their values are plain. -/
theorem arePlainEntries_iff (es : List (Value × Value)) :
    ArePlainEntries es ↔ ∀ e ∈ es, (∃ s, e.1.text? = some s) ∧ e.2.IsPlain := by
  induction es with
  | nil => simp [ArePlainEntries]
  | cons e es ih => rw [ArePlainEntries, List.forall_mem_cons, ih]

/-- A text is plain. -/
theorem isPlain_of_text? {v : Value} {s : String} (h : v.text? = some s) : v.IsPlain := by
  unfold text? at h
  split at h
  · rfl
  · cases h

/-- What is found in a list of entries is the value of one of them. -/
theorem exists_mem_of_find? {α : Type} {key : Value} {es : List (Value × α)} {a : α}
    (h : find? key es = some a) : ∃ k, (k, a) ∈ es := by
  induction es with
  | nil => cases h
  | cons e es ih =>
    obtain ⟨k, b⟩ := e
    rw [find?] at h
    split at h
    · obtain rfl := Option.some.inj h
      exact ⟨k, List.mem_cons_self⟩
    · obtain ⟨l, hl⟩ := ih h
      exact ⟨l, List.mem_cons_of_mem _ hl⟩

mutual

private theorem opened_of_isPlain (whole : Value) (around : List Identity) {v : Value}
    (h : v.IsPlain) : opened whole around v = v := by
  cases v with
  | atom id a => simp only [opened]
  | seq id kind items =>
    simp only [opened, itemsOpened_of_arePlain whole (id :: around) h.2]
  | dict id entries =>
    simp only [opened, entriesOpened_of_arePlain whole (id :: around) h]
  | loop id kind => exact h.elim

private theorem itemsOpened_of_arePlain (whole : Value) (around : List Identity) {vs : List Value}
    (h : ArePlain vs) : itemsOpened whole around vs = vs := by
  cases vs with
  | nil => simp only [itemsOpened]
  | cons v vs =>
    simp only [itemsOpened, opened_of_isPlain whole around h.1,
      itemsOpened_of_arePlain whole around h.2]

private theorem entriesOpened_of_arePlain (whole : Value) (around : List Identity)
    {es : List (Value × Value)} (h : ArePlainEntries es) : entriesOpened whole around es = es := by
  cases es with
  | nil => simp only [entriesOpened]
  | cons e es =>
    simp only [entriesOpened, opened_of_isPlain whole around h.1.2,
      entriesOpened_of_arePlain whole around h.2]

end

namespace IsPlain

/-- A plain part is a value by itself. -/
theorem takeOut {v : Value} (h : v.IsPlain) (whole : Value) : whole.takeOut v = v := by
  rw [Value.takeOut, opened_of_isPlain whole [] h, ite_self]

/-- The members of a plain list are values by themselves. -/
theorem map_takeOut {id : Identity} {kind : SeqKind} {items : List Value}
    (h : (Value.seq id kind items).IsPlain) :
    items.map (Value.seq id kind items).takeOut = items := by
  exact (List.map_congr_left fun v hv ↦ ((arePlain_iff items).mp h.2 v hv).takeOut _).trans
    (List.map_id items)

/-- What a plain value holds under a text is plain. -/
theorem get? {v w : Value} (h : v.IsPlain) {key : String} (hw : v.get? key = some w) :
    w.IsPlain := by
  cases v with
  | atom id a => cases hw
  | seq id kind items => cases hw
  | dict id entries =>
    rw [IsPlain, arePlainEntries_iff] at h
    obtain ⟨u, hu, rfl⟩ := Option.map_eq_some_iff.mp hw
    obtain ⟨k, hmem⟩ := exists_mem_of_find? hu
    have plain := (h _ hmem).2
    rwa [plain.takeOut]
  | loop id kind => cases h

/-- What a plain value holds under a text, or nothing, is plain. -/
theorem get {v : Value} (h : v.IsPlain) (key : String) : (v.get key).IsPlain := by
  rw [Value.get]
  cases hw : v.get? key with
  | none => rfl
  | some w => exact h.get? hw

end IsPlain

end Value

end EntityGraph
