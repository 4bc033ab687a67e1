import Mathlib.Data.List.Forall2
import EntityGraph.Proofs.Names

/-!
# Equality of compound values

Two lists are the same if they agree place by place, and two mappings if they have as many entries
and every entry of one is found in the other. A value is the same as itself, as long as every object
in it that equals nothing by its content is known to be one object, and comparing it with itself
ends.
-/

namespace EntityGraph

/-! ### Atoms -/

private theorem Calendar.Moment.same_comm (m n : Moment) : m.same n = n.same m := by
  unfold same
  cases m.offset <;> cases n.offset <;> simp [eq_comm]

/-- An object that is known to be one is the same as itself. -/
theorem Identity.same_self {i : Identity} (h : i ≠ .fresh) : i.same i = true := by
  simp [Identity.same, h]

namespace Atom

/-- Whether an atom equals nothing by its content, so that only its identity makes it the same as
itself. -/
def isElusive : Atom → Bool
  | foreign _ => true
  | a => a.isNaN

/-- An atom that is not elusive equals itself. -/
theorem equals_self {a : Atom} (h : a.isElusive = false) : a.equals a = true := by
  unfold equals
  cases ha : a.numeral? with
  | some n => simp
  | none =>
    cases a with
    | float x =>
      cases x with
      | finite negative m e => cases e <;> simp [numeral?, Number.Numeral.ofBinary64?] at ha
      | infinite negative => simp [numeral?, Number.Numeral.ofBinary64?] at ha
      | nan => simp [isElusive, isNaN] at h
    | decimal d => cases d <;> simp_all [numeral?, Number.Numeral.ofDecimal?, isElusive, isNaN]
    | foreign f => simp [isElusive] at h
    | _ => simp_all [numeral?]

private theorem equals_comm (a b : Atom) : a.equals b = b.equals a := by
  unfold equals
  cases ha : a.numeral? <;> cases hb : b.numeral? <;> cases a <;> cases b <;>
    simp_all [numeral?, eq_comm, Calendar.Moment.same_comm]

end Atom

namespace Value

/-- Two atoms are compared in either direction alike, whatever objects they are. -/
theorem same_atom_comm (i j : Identity) (a b : Atom) :
    same (.atom i a) (.atom j b) = same (.atom j b) (.atom i a) := by
  have identities : i.same j = j.same i := by
    unfold Identity.same
    by_cases h : i = j
    · rw [h]
    · simp [h, Ne.symm h]
  simp only [same, identities, a.equals_comm b]

/-! ### Lists and mappings -/

/-- Two lists of values are the same exactly if they agree place by place. -/
theorem sameItems_iff (vs ws : List Value) :
    sameItems vs ws = true ↔ List.Forall₂ (fun v w ↦ v.same w = true) vs ws := by
  induction vs generalizing ws with
  | nil => cases ws <;> simp [sameItems]
  | cons v vs ih => cases ws <;> simp [sameItems, ih]

/-- Two new lists are the same exactly if they agree place by place. -/
theorem same_list_iff (vs ws : List Value) :
    (list vs).same (list ws) = true ↔ List.Forall₂ (fun v w ↦ v.same w = true) vs ws := by
  simp [list, same, Identity.same, SeqKind.comparison?, sameItems_iff]

/-- Each of some entries is found among others exactly if some entry there has the same key and the
same value. -/
theorem entriesAmong_iff (es fs : List (Value × Value)) :
    entriesAmong es fs = true ↔
      ∀ e ∈ es, ∃ f ∈ fs, e.1.same f.1 = true ∧ e.2.same f.2 = true := by
  induction es with
  | nil => simp [entriesAmong]
  | cons e es ih =>
    obtain ⟨k, v⟩ := e
    simp [entriesAmong, ih]

/-- Each of some values is found among others exactly if some value there is the same. -/
theorem allAmong_iff (vs ws : List Value) :
    allAmong vs ws = true ↔ ∀ v ∈ vs, ∃ w ∈ ws, v.same w = true := by
  induction vs with
  | nil => simp [allAmong]
  | cons v vs ih => simp [allAmong, ih]

/-- Two new mappings are the same exactly if they have as many entries and each entry of the first
is found in the second. -/
theorem same_record_iff (es fs : List (String × Value)) :
    (record es).same (record fs) = true ↔
      es.length = fs.length ∧ ∀ e ∈ es, ∃ f ∈ fs, e.1 = f.1 ∧ e.2.same f.2 = true := by
  have fresh : Identity.fresh.same .fresh = false := rfl
  simp only [record, same, fresh, Bool.false_or, Bool.and_eq_true, decide_eq_true_eq,
    List.length_map, entriesAmong_iff, List.mem_map, exists_exists_and_eq_and,
    forall_exists_index, and_imp, forall_apply_eq_imp_iff₂, same_text]

/-! ### Being the same as itself -/

mutual

/-- A value is known to be one object, or it can be told from its content: every object in it that
equals nothing by its content is known to be one object, and no key of a mapping occurs twice. -/
def IsKnown : Value → Prop
  | .atom id a => a.isElusive = true → id ≠ .fresh
  | .seq id _ items => id ≠ .fresh ∨ AreKnown items
  | .dict id entries =>
    id ≠ .fresh ∨
      (entries.Pairwise fun e f ↦ f.1.same e.1 = false) ∧ AreKnownEntries entries
  | .loop id _ => id ≠ .fresh

/-- Each of some values is known. -/
def AreKnown : List Value → Prop
  | [] => True
  | v :: vs => v.IsKnown ∧ AreKnown vs

/-- The keys and the values of some entries are known. -/
def AreKnownEntries : List (Value × Value) → Prop
  | [] => True
  | (k, v) :: es => (k.IsKnown ∧ v.IsKnown) ∧ AreKnownEntries es

end

/-- Some values are known exactly if each of them is. -/
theorem areKnown_iff (vs : List Value) : AreKnown vs ↔ ∀ v ∈ vs, v.IsKnown := by
  induction vs with
  | nil => simp [AreKnown]
  | cons v vs ih => rw [AreKnown, List.forall_mem_cons, ih]

private theorem areKnownEntries_iff (es : List (Value × Value)) :
    AreKnownEntries es ↔ ∀ e ∈ es, e.1.IsKnown ∧ e.2.IsKnown := by
  induction es with
  | nil => simp [AreKnownEntries]
  | cons e es ih => rw [AreKnownEntries, List.forall_mem_cons, ih]

/-- A text is known. -/
@[simp] theorem isKnown_text (s : String) : (text s).IsKnown := by
  simp [text, IsKnown, Atom.isElusive, Atom.isNaN]

/-- An integer is known. -/
@[simp] theorem isKnown_int (i : Int) : (int i).IsKnown := by
  simp [int, IsKnown, Atom.isElusive, Atom.isNaN]

/-- A truth value is known. -/
@[simp] theorem isKnown_bool (b : Bool) : (bool b).IsKnown := by
  simp [bool, IsKnown, Atom.isElusive, Atom.isNaN]

/-- A new list is known exactly if its members are. -/
@[simp] theorem isKnown_list (vs : List Value) : (list vs).IsKnown ↔ ∀ v ∈ vs, v.IsKnown := by
  simp [list, IsKnown, areKnown_iff]

/-- A new mapping is known exactly if its keys are distinct and its values are known. -/
@[simp] theorem isKnown_record (es : List (String × Value)) :
    (record es).IsKnown ↔ (es.map (·.1)).Nodup ∧ ∀ e ∈ es, e.2.IsKnown := by
  rw [record, IsKnown, areKnownEntries_iff, List.forall_mem_map, List.pairwise_map, List.Nodup,
    List.pairwise_map]
  simp [eq_comm]

mutual

/-- A known value is the same as itself. -/
theorem same_self {v : Value} (h : v.IsKnown) : v.same v = true := by
  cases v with
  | atom id a =>
    simp only [IsKnown] at h
    simp only [same, Bool.or_eq_true]
    cases ha : a.isElusive with
    | false => exact .inr (Atom.equals_self ha)
    | true => exact .inl (Identity.same_self (h ha))
  | seq id kind items =>
    simp only [IsKnown] at h
    rcases h with h | h
    · simp [same, Identity.same_self h]
    have members := same_self_items h
    have ordered : sameItems items items = true :=
      (sameItems_iff _ _).mpr (List.forall₂_same.mpr members)
    have unordered : allAmong items items = true :=
      (allAmong_iff _ _).mpr fun w hw ↦ ⟨w, hw, members w hw⟩
    cases kind <;> simp [same, SeqKind.comparison?, ordered, unordered]
  | dict id entries =>
    simp only [IsKnown] at h
    rcases h with h | ⟨-, h⟩
    · simp [same, Identity.same_self h]
    have found : entriesAmong entries entries = true :=
      (entriesAmong_iff _ _).mpr fun e he ↦ ⟨e, he, same_self_entries h e he⟩
    simp [same, found]
  | loop id kind => simpa only [same] using Identity.same_self h

/-- Known values are each the same as themselves. -/
theorem same_self_items {vs : List Value} (h : AreKnown vs) : ∀ v ∈ vs, v.same v = true := by
  cases vs with
  | nil => simp
  | cons v vs =>
    rw [List.forall_mem_cons]
    exact ⟨same_self h.1, same_self_items h.2⟩

/-- Known entries have keys and values that are the same as themselves. -/
theorem same_self_entries {es : List (Value × Value)} (h : AreKnownEntries es) :
    ∀ e ∈ es, e.1.same e.1 = true ∧ e.2.same e.2 = true := by
  cases es with
  | nil => simp
  | cons e es =>
    rw [List.forall_mem_cons]
    exact ⟨⟨same_self h.1.1, same_self h.1.2⟩, same_self_entries h.2⟩

end

/-! ### Comparing a value with itself -/

private theorem endlessItems_self {vs : List Value} (h : ∀ v ∈ vs, v.endless v = false) :
    endlessItems vs vs = false := by
  induction vs with
  | nil => simp [endlessItems]
  | cons v vs ih =>
    rw [List.forall_mem_cons] at h
    simp [endlessItems, h.1, ih h.2]

private theorem endlessEntries_eq_false {es fs : List (Value × Value)}
    (found : ∀ e ∈ es, fs.find? (fun f ↦ e.1.same f.1) = some e)
    (h : ∀ e ∈ es, e.2.endless e.2 = false) : endlessEntries es fs = false := by
  induction es with
  | nil => simp [endlessEntries]
  | cons e es ih =>
    obtain ⟨k, v⟩ := e
    rw [List.forall_mem_cons] at found h
    rw [endlessEntries, found.1]
    simp [h.1, ih found.2 h.2]

private theorem find?_entry_self {es : List (Value × Value)}
    (distinct : es.Pairwise fun e f ↦ f.1.same e.1 = false) (h : ∀ e ∈ es, e.1.same e.1 = true) :
    ∀ e ∈ es, es.find? (fun f ↦ e.1.same f.1) = some e := by
  induction es with
  | nil => simp
  | cons e es ih =>
    rw [List.pairwise_cons] at distinct
    rw [List.forall_mem_cons] at h ⊢
    refine ⟨by simp [h.1], fun f hf ↦ ?_⟩
    rw [List.find?_cons_of_neg (by simp [distinct.1 f hf])]
    exact ih distinct.2 h.2 f hf

mutual

/-- Comparing a known value with itself ends. -/
theorem endless_self {v : Value} (h : v.IsKnown) : v.endless v = false := by
  cases v with
  | atom id a => simp only [endless]
  | seq id kind items =>
    simp only [IsKnown] at h
    rcases h with h | h
    · simp [endless, Identity.same_self h]
    · simp [endless, endlessItems_self (endless_self_items h)]
  | dict id entries =>
    simp only [IsKnown] at h
    rcases h with h | ⟨distinct, h⟩
    · simp [endless, Identity.same_self h]
    · have found := find?_entry_self distinct fun e he ↦ (same_self_entries h e he).1
      simp [endless, endlessEntries_eq_false found (endless_self_entries h)]
  | loop id kind =>
    simp only [IsKnown] at h
    simp [endless, Identity.same_self h]

/-- Comparing known values with themselves ends. -/
theorem endless_self_items {vs : List Value} (h : AreKnown vs) :
    ∀ v ∈ vs, v.endless v = false := by
  cases vs with
  | nil => simp
  | cons v vs =>
    rw [List.forall_mem_cons]
    exact ⟨endless_self h.1, endless_self_items h.2⟩

/-- Comparing the values of known entries with themselves ends. -/
theorem endless_self_entries {es : List (Value × Value)} (h : AreKnownEntries es) :
    ∀ e ∈ es, e.2.endless e.2 = false := by
  cases es with
  | nil => simp
  | cons e es =>
    rw [List.forall_mem_cons]
    exact ⟨endless_self h.1.2, endless_self_entries h.2⟩

end

end Value

end EntityGraph
