import EntityGraph.Proofs.Parts
import EntityGraph.Proofs.Sameness

/-!
# Anonymous values

A value is anonymous if none of its parts is known to be one object. Values are compared with an
anonymous one by their contents alone, whatever objects they are. Where every part can be told from
its content, an anonymous value equals itself.
-/

namespace EntityGraph.Value

mutual

/-- A value of the same content, none of whose parts is known to be one object. -/
def anonymous : Value → Value
  | .atom _ a => .atom .fresh a
  | .seq _ kind items => .seq .fresh kind (anonymousItems items)
  | .dict _ entries => .dict .fresh (anonymousEntries entries)
  | .loop _ kind => .loop .fresh kind

/-- Values of the same contents as some values. -/
def anonymousItems : List Value → List Value
  | [] => []
  | v :: vs => v.anonymous :: anonymousItems vs

/-- Entries of the same contents as some entries. -/
def anonymousEntries : List (Value × Value) → List (Value × Value)
  | [] => []
  | (k, v) :: es => (k.anonymous, v.anonymous) :: anonymousEntries es

end

/-- Members become anonymous one by one. -/
theorem anonymousItems_eq_map (vs : List Value) : anonymousItems vs = vs.map anonymous := by
  induction vs with
  | nil => rfl
  | cons v vs ih => rw [anonymousItems, List.map_cons, ih]

/-- Entries become anonymous one by one. -/
theorem anonymousEntries_eq_map (es : List (Value × Value)) :
    anonymousEntries es = es.map fun e ↦ (e.1.anonymous, e.2.anonymous) := by
  induction es with
  | nil => rfl
  | cons e es ih => rw [anonymousEntries, List.map_cons, ih]

/-- There are as many anonymous members. -/
theorem length_anonymousItems (vs : List Value) : (anonymousItems vs).length = vs.length := by
  rw [anonymousItems_eq_map, List.length_map]

/-- There are as many anonymous entries. -/
theorem length_anonymousEntries (es : List (Value × Value)) :
    (anonymousEntries es).length = es.length := by
  rw [anonymousEntries_eq_map, List.length_map]

mutual

/-- An anonymous value stays as it is. -/
@[simp] theorem anonymous_anonymous (v : Value) : v.anonymous.anonymous = v.anonymous := by
  cases v with
  | atom id a => simp only [anonymous]
  | seq id kind items => simp only [anonymous, anonymousItems_anonymousItems items]
  | dict id entries => simp only [anonymous, anonymousEntries_anonymousEntries entries]
  | loop id kind => simp only [anonymous]

/-- Anonymous values stay as they are. -/
theorem anonymousItems_anonymousItems (vs : List Value) :
    anonymousItems (anonymousItems vs) = anonymousItems vs := by
  cases vs with
  | nil => simp only [anonymousItems]
  | cons v vs => simp only [anonymousItems, anonymous_anonymous v, anonymousItems_anonymousItems vs]

/-- Anonymous entries stay as they are. -/
theorem anonymousEntries_anonymousEntries (es : List (Value × Value)) :
    anonymousEntries (anonymousEntries es) = anonymousEntries es := by
  cases es with
  | nil => simp only [anonymousEntries]
  | cons e es =>
    simp only [anonymousEntries, anonymous_anonymous e.1, anonymous_anonymous e.2,
      anonymousEntries_anonymousEntries es]

end

/-! ### Contents -/

/-- An anonymous list has anonymous members. -/
@[simp] theorem anonymous_list (vs : List Value) :
    (list vs).anonymous = list (vs.map anonymous) := by
  rw [list, anonymous, anonymousItems_eq_map]
  rfl

/-- An anonymous mapping of texts has anonymous values. -/
@[simp] theorem anonymous_record (es : List (String × Value)) :
    (record es).anonymous = record (es.map fun e ↦ (e.1, e.2.anonymous)) := by
  rw [record, anonymous, anonymousEntries_eq_map, record, List.map_map, List.map_map]
  rfl

/-- A new text is anonymous. -/
@[simp] theorem anonymous_text (s : String) : (text s).anonymous = text s := rfl

/-- A new truth value is anonymous. -/
@[simp] theorem anonymous_bool (b : Bool) : (bool b).anonymous = bool b := rfl

/-- What is a text is anonymous. -/
theorem IsText.anonymous_eq {v : Value} (h : v.IsText) : v.anonymous = v := by
  obtain ⟨s, rfl⟩ := h
  rfl

/-- A value that is a text becomes that text. -/
theorem anonymous_of_text? {v : Value} {s : String} (h : v.text? = some s) :
    v.anonymous = text s := by
  obtain ⟨id, rfl⟩ := exists_eq_of_text? h
  rfl

/-- A value stays absent, or stays there. -/
@[simp] theorem isNull_anonymous (v : Value) : v.anonymous.isNull = v.isNull := by
  cases v with
  | atom id a => cases a <;> rfl
  | _ => rfl

/-- A value stays an integer, or none. -/
@[simp] theorem int?_anonymous (v : Value) : v.anonymous.int? = v.int? := by
  cases v with
  | atom id a => cases a <;> rfl
  | _ => rfl

/-- A value stays a number that is none, or not. -/
@[simp] theorem isNaN_anonymous (v : Value) : v.anonymous.isNaN = v.isNaN := by
  cases v <;> rfl

/-- A value is compared with zero by its content. -/
theorem atMostZero_anonymous (v : Value) : v.anonymous.atMostZero = v.atMostZero := by
  cases v with
  | atom id a =>
    cases a with
    | decimal d => cases d <;> rfl
    | float x => cases x <;> rfl
    | _ => rfl
  | _ => rfl

/-- A default has a type by its content. -/
theorem checkDefault_anonymous (name : Value) (type : ScalarType) (v : Value) :
    type.checkDefault name v.anonymous = type.checkDefault name v := by
  have typeName : v.anonymous.typeName = v.typeName := by cases v <;> rfl
  have admits : type.admits v.anonymous = type.admits v := by cases v <;> rfl
  rw [ScalarType.checkDefault, ScalarType.checkDefault, isNull_anonymous, int?_anonymous, typeName,
    admits]

/-! ### Texts -/

mutual

/-- A value is listed by its content. -/
theorem inspect_anonymous (v : Value) : v.anonymous.inspect = v.inspect := by
  cases v with
  | atom id a => simp only [anonymous, inspect]
  | seq id kind items => simp only [anonymous, inspect, inspectItems_anonymous items]
  | dict id entries => simp only [anonymous, inspect, inspectEntries_anonymous entries]
  | loop id kind => simp only [anonymous, inspect]

/-- Members are listed by their contents. -/
theorem inspectItems_anonymous (vs : List Value) :
    inspectItems (anonymousItems vs) = inspectItems vs := by
  cases vs with
  | nil => simp only [anonymousItems]
  | cons v vs =>
    simp only [anonymousItems, inspectItems, inspect_anonymous v, inspectItems_anonymous vs]

/-- Entries are listed by their contents. -/
theorem inspectEntries_anonymous (es : List (Value × Value)) :
    inspectEntries (anonymousEntries es) = inspectEntries es := by
  cases es with
  | nil => simp only [anonymousEntries]
  | cons e es =>
    simp only [anonymousEntries, inspectEntries, inspect_anonymous e.1, inspect_anonymous e.2,
      inspectEntries_anonymous es]

end

/-- The text that a key becomes depends on its content. -/
theorem canonicalKey_anonymous (v : Value) : v.anonymous.canonicalKey = v.canonicalKey := by
  have text : v.anonymous.text? = v.text? := by
    cases v with
    | atom id a => cases a <;> rfl
    | _ => rfl
  have typeName : v.anonymous.typeName = v.typeName := by cases v <;> rfl
  rw [canonicalKey, canonicalKey, text, typeName, inspect_anonymous]

/-! ### Comparisons -/

/-- An object that occurs nowhere else is not known to be another one. -/
theorem fresh_same (i : Identity) : Identity.fresh.same i = false := by simp [Identity.same]

mutual

/-- An anonymous value is the same as another by the content of the other. -/
theorem same_anonymous (v w : Value) : v.anonymous.same w.anonymous = v.anonymous.same w := by
  cases v with
  | atom id a => cases w <;> simp only [anonymous, same, fresh_same]
  | seq id kind items =>
    cases w with
    | seq jd other members =>
      simp only [anonymous, same, fresh_same, sameItems_anonymous items members,
        allAmong_anonymous items members, length_anonymousItems]
    | _ => simp only [anonymous, same]
  | dict id entries =>
    cases w with
    | dict jd others =>
      simp only [anonymous, same, fresh_same, entriesAmong_anonymous entries others,
        length_anonymousEntries]
    | _ => simp only [anonymous, same]
  | loop id kind => cases w <;> simp only [anonymous, same, fresh_same]

private theorem sameItems_anonymous (vs ws : List Value) :
    sameItems (anonymousItems vs) (anonymousItems ws) = sameItems (anonymousItems vs) ws := by
  cases vs with
  | nil => cases ws <;> simp only [anonymousItems, sameItems]
  | cons v vs =>
    cases ws with
    | nil => simp only [anonymousItems, sameItems]
    | cons w ws =>
      simp only [anonymousItems, sameItems, same_anonymous v w, sameItems_anonymous vs ws]

private theorem allAmong_anonymous (vs ws : List Value) :
    allAmong (anonymousItems vs) (anonymousItems ws) = allAmong (anonymousItems vs) ws := by
  cases vs with
  | nil => simp only [anonymousItems, allAmong]
  | cons v vs =>
    have found : (anonymousItems ws).any (v.anonymous.same ·) = ws.any (v.anonymous.same ·) := by
      rw [anonymousItems_eq_map, List.any_map]
      exact congrArg (ws.any ·) (funext fun w ↦ same_anonymous v w)
    simp only [anonymousItems, allAmong, found]
    rw [allAmong_anonymous vs ws]

/-- Anonymous entries are found among others by the contents of the others. -/
private theorem entriesAmong_anonymous (es fs : List (Value × Value)) :
    entriesAmong (anonymousEntries es) (anonymousEntries fs) =
      entriesAmong (anonymousEntries es) fs := by
  cases es with
  | nil => simp only [anonymousEntries, entriesAmong]
  | cons e es =>
    obtain ⟨k, v⟩ := e
    have found : (anonymousEntries fs).any
          (fun f ↦ k.anonymous.same f.1 && v.anonymous.same f.2) =
        fs.any fun f ↦ k.anonymous.same f.1 && v.anonymous.same f.2 := by
      rw [anonymousEntries_eq_map, List.any_map]
      apply congrArg (fs.any ·)
      funext f
      show (k.anonymous.same f.1.anonymous && v.anonymous.same f.2.anonymous) = _
      rw [same_anonymous k f.1, same_anonymous v f.2]
    simp only [anonymousEntries, entriesAmong, found]
    rw [entriesAmong_anonymous es fs]

end

mutual

/-- Whether comparing an anonymous value with another ends depends on the content of the other. -/
theorem endless_anonymous (v w : Value) :
    v.anonymous.endless w.anonymous = v.anonymous.endless w := by
  cases v with
  | atom id a => cases w <;> simp only [anonymous, endless]
  | seq id kind items =>
    cases w with
    | seq jd other members =>
      simp only [anonymous, endless, fresh_same, endlessItems_anonymous items members,
        length_anonymousItems]
    | _ => simp only [anonymous, endless]
  | dict id entries =>
    cases w with
    | dict jd others =>
      simp only [anonymous, endless, fresh_same, endlessEntries_anonymous entries others,
        length_anonymousEntries]
    | _ => simp only [anonymous, endless]
  | loop id kind => cases w <;> simp only [anonymous, endless, fresh_same]

/-- Whether comparing anonymous values with others place by place ends depends on the contents of
the others. -/
theorem endlessItems_anonymous (vs ws : List Value) :
    endlessItems (anonymousItems vs) (anonymousItems ws) =
      endlessItems (anonymousItems vs) ws := by
  cases vs with
  | nil => cases ws <;> simp only [anonymousItems, endlessItems]
  | cons v vs =>
    cases ws with
    | nil => simp only [anonymousItems, endlessItems]
    | cons w ws =>
      simp only [anonymousItems, endlessItems, same_anonymous v w, endless_anonymous v w,
        endlessItems_anonymous vs ws]

/-- Whether looking for anonymous entries among others ends depends on the contents of the
others. -/
theorem endlessEntries_anonymous (es fs : List (Value × Value)) :
    endlessEntries (anonymousEntries es) (anonymousEntries fs) =
      endlessEntries (anonymousEntries es) fs := by
  cases es with
  | nil => simp only [anonymousEntries, endlessEntries]
  | cons e es =>
    obtain ⟨k, v⟩ := e
    have found : (anonymousEntries fs).find? (fun f ↦ k.anonymous.same f.1) =
        (fs.find? fun f ↦ k.anonymous.same f.1).map
          fun f ↦ (f.1.anonymous, f.2.anonymous) := by
      rw [anonymousEntries_eq_map, List.find?_map]
      have keys : (fun f : Value × Value ↦ k.anonymous.same f.1) ∘
          (fun f : Value × Value ↦ (f.1.anonymous, f.2.anonymous)) =
          fun f ↦ k.anonymous.same f.1 := by
        funext f
        exact same_anonymous k f.1
      rw [keys]
    rw [anonymousEntries, endlessEntries, endlessEntries, found,
      endlessEntries_anonymous es fs]
    cases fs.find? fun f ↦ k.anonymous.same f.1 with
    | none => rfl
    | some f =>
      show (v.anonymous.endless f.2.anonymous || (v.anonymous.same f.2.anonymous && _)) = _
      rw [endless_anonymous v f.2, same_anonymous v f.2]

end

/-! ### Values told from their contents -/

/-- A part of a value does not hinder that the value is told from its content: an atom equals
itself, and the keys of a mapping differ by their contents. -/
def IsTelling : Value → Prop
  | .atom _ a => a.isElusive = false
  | .seq .. => True
  | .dict _ entries => (entries.map (·.1.anonymous)).Pairwise fun k l ↦ l.same k = false
  | .loop .. => False

mutual

/-- A value that is built from such parts can be told from its content. -/
theorem Every.isKnown_anonymous {v : Value} (h : v.Every IsTelling) : v.anonymous.IsKnown := by
  cases v with
  | atom id a =>
    intro elusive
    rw [show a.isElusive = false from h] at elusive
    cases elusive
  | seq id kind items => exact .inr (everyMember_areKnown h.2)
  | dict id entries =>
    refine .inr ⟨?_, everyEntry_areKnown h.2⟩
    have distinct : (entries.map (·.1.anonymous)).Pairwise fun k l ↦ l.same k = false := h.1
    rw [anonymousEntries_eq_map, List.pairwise_map]
    rwa [List.pairwise_map] at distinct
  | loop id kind => exact h.elim

/-- Values that are built from such parts can be told from their contents. -/
theorem everyMember_areKnown {vs : List Value} (h : EveryMember IsTelling vs) :
    AreKnown (anonymousItems vs) := by
  cases vs with
  | nil => trivial
  | cons v vs => exact ⟨h.1.isKnown_anonymous, everyMember_areKnown h.2⟩

/-- Entries that are built from such parts can be told from their contents. -/
theorem everyEntry_areKnown {es : List (Value × Value)} (h : EveryEntry IsTelling es) :
    AreKnownEntries (anonymousEntries es) := by
  cases es with
  | nil => trivial
  | cons e es =>
    exact ⟨⟨h.1.1.isKnown_anonymous, h.1.2.isKnown_anonymous⟩, everyEntry_areKnown h.2⟩

end

end EntityGraph.Value
