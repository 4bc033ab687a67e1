import EntityGraph.Proofs.Plain

/-!
# Parts of values

The parts of a value are the value, its members, its keys, what it holds under them, and the parts
of these. A part that refers to a collection around it is not found as it stands, but with what it
refers to; many properties of parts survive that.
-/

namespace EntityGraph.Value

mutual

/-- Every part of a value has a property. -/
def Every (P : Value → Prop) : Value → Prop
  | .atom id a => P (.atom id a)
  | .seq id kind items => P (.seq id kind items) ∧ EveryMember P items
  | .dict id entries => P (.dict id entries) ∧ EveryEntry P entries
  | .loop id kind => P (.loop id kind)

/-- Every part of each of some values has a property. -/
def EveryMember (P : Value → Prop) : List Value → Prop
  | [] => True
  | v :: vs => v.Every P ∧ EveryMember P vs

/-- Every part of the keys and the values of some entries has a property. -/
def EveryEntry (P : Value → Prop) : List (Value × Value) → Prop
  | [] => True
  | (k, v) :: es => (k.Every P ∧ v.Every P) ∧ EveryEntry P es

end

variable {P : Value → Prop}

/-- Every part of some values has a property exactly if every part of each of them has. -/
theorem everyMember_iff (vs : List Value) : EveryMember P vs ↔ ∀ v ∈ vs, v.Every P := by
  induction vs with
  | nil => simp [EveryMember]
  | cons v vs ih => rw [EveryMember, List.forall_mem_cons, ih]

/-- Every part of some entries has a property exactly if every part of their keys and of their
values has. -/
theorem everyEntry_iff (es : List (Value × Value)) :
    EveryEntry P es ↔ ∀ e ∈ es, e.1.Every P ∧ e.2.Every P := by
  induction es with
  | nil => simp [EveryEntry]
  | cons e es ih => rw [EveryEntry, List.forall_mem_cons, ih]

mutual

/-- If every part of a value has two properties, it has what follows from them. -/
theorem Every.combine {Q R : Value → Prop} (imp : ∀ u, P u → Q u → R u) {v : Value} (h : v.Every P)
    (h' : v.Every Q) : v.Every R := by
  cases v with
  | atom id a => exact imp _ h h'
  | seq id kind items => exact ⟨imp _ h.1 h'.1, everyMember_combine imp h.2 h'.2⟩
  | dict id entries => exact ⟨imp _ h.1 h'.1, everyEntry_combine imp h.2 h'.2⟩
  | loop id kind => exact imp _ h h'

/-- If every part of each of some values has two properties, it has what follows from them. -/
theorem everyMember_combine {Q R : Value → Prop} (imp : ∀ u, P u → Q u → R u) {vs : List Value}
    (h : EveryMember P vs) (h' : EveryMember Q vs) : EveryMember R vs := by
  cases vs with
  | nil => trivial
  | cons v vs => exact ⟨h.1.combine imp h'.1, everyMember_combine imp h.2 h'.2⟩

/-- If every part of the keys and the values of some entries has two properties, it has what
follows from them. -/
theorem everyEntry_combine {Q R : Value → Prop} (imp : ∀ u, P u → Q u → R u)
    {es : List (Value × Value)} (h : EveryEntry P es) (h' : EveryEntry Q es) : EveryEntry R es := by
  cases es with
  | nil => trivial
  | cons e es =>
    exact ⟨⟨h.1.1.combine imp h'.1.1, h.1.2.combine imp h'.1.2⟩, everyEntry_combine imp h.2 h'.2⟩

end

mutual

/-- What every value is, every part of a value is. -/
theorem every_of_forall (h : ∀ v, P v) (v : Value) : v.Every P := by
  cases v with
  | atom id a => exact h _
  | seq id kind items => exact ⟨h _, everyMember_of_forall h items⟩
  | dict id entries => exact ⟨h _, everyEntry_of_forall h entries⟩
  | loop id kind => exact h _

private theorem everyMember_of_forall (h : ∀ v, P v) (vs : List Value) : EveryMember P vs := by
  cases vs with
  | nil => trivial
  | cons v vs => exact ⟨every_of_forall h v, everyMember_of_forall h vs⟩

private theorem everyEntry_of_forall (h : ∀ v, P v) (es : List (Value × Value)) :
    EveryEntry P es := by
  cases es with
  | nil => trivial
  | cons e es =>
    exact ⟨⟨every_of_forall h e.1, every_of_forall h e.2⟩, everyEntry_of_forall h es⟩

end

/-- If every part of a value has a property, it has what follows from it. -/
theorem Every.mono {Q : Value → Prop} (imp : ∀ u, P u → Q u) {v : Value} (h : v.Every P) :
    v.Every Q :=
  h.combine (fun u hu _ ↦ imp u hu) h

/-! ### Parts that are taken out -/

/-- What every part of a value is, every part of what is taken out of it is. -/
def Survives (P : Value → Prop) : Prop :=
  ∀ {whole part : Value}, whole.Every P → part.Every P → (whole.takeOut part).Every P

/-- Whether a value is an atom. -/
def isAtom : Value → Bool
  | .atom .. => true
  | _ => false

/-- Whether a value stands for a collection around it. -/
def isLoop : Value → Bool
  | .loop .. => true
  | _ => false

section Collections

mutual

private theorem every_inside (collections : ∀ v : Value, v.isAtom = false → P v)
    (around : List Identity) {v : Value} (h : v.Every P) :
    (v.inside around).Every P := by
  cases v with
  | atom id a => simpa only [inside] using h
  | loop id kind => simpa only [inside] using h
  | seq id kind items =>
    rw [inside]
    split
    · exact collections _ rfl
    · exact ⟨collections _ rfl, everyMember_itemsInside collections around h.2⟩
  | dict id entries =>
    rw [inside]
    split
    · exact collections _ rfl
    · exact ⟨collections _ rfl, everyEntry_entriesInside collections around h.2⟩

private theorem everyMember_itemsInside (collections : ∀ v : Value, v.isAtom = false → P v)
    (around : List Identity) {vs : List Value} (h : EveryMember P vs) :
    EveryMember P (itemsInside around vs) := by
  cases vs with
  | nil => trivial
  | cons v vs =>
    rw [itemsInside]
    exact ⟨every_inside collections around h.1, everyMember_itemsInside collections around h.2⟩

private theorem everyEntry_entriesInside (collections : ∀ v : Value, v.isAtom = false → P v)
    (around : List Identity) {es : List (Value × Value)} (h : EveryEntry P es) :
    EveryEntry P (entriesInside around es) := by
  cases es with
  | nil => trivial
  | cons e es =>
    rw [entriesInside]
    exact ⟨⟨h.1.1, every_inside collections around h.1.2⟩,
      everyEntry_entriesInside collections around h.2⟩

end

mutual

private theorem every_opened (collections : ∀ v : Value, v.isAtom = false → P v)
    {whole : Value} (hw : whole.Every P) (around : List Identity) {v : Value} (h : v.Every P) :
    (opened whole around v).Every P := by
  cases v with
  | atom id a => simpa only [opened] using h
  | loop id kind =>
    rw [opened]
    split
    · exact h
    · exact every_inside collections around hw
  | seq id kind items =>
    rw [opened]
    exact ⟨collections _ rfl, everyMember_itemsOpened collections hw (id :: around) h.2⟩
  | dict id entries =>
    rw [opened]
    exact ⟨collections _ rfl, everyEntry_entriesOpened collections hw (id :: around) h.2⟩

private theorem everyMember_itemsOpened (collections : ∀ v : Value, v.isAtom = false → P v)
    {whole : Value} (hw : whole.Every P) (around : List Identity) {vs : List Value}
    (h : EveryMember P vs) : EveryMember P (itemsOpened whole around vs) := by
  cases vs with
  | nil => trivial
  | cons v vs =>
    rw [itemsOpened]
    exact ⟨every_opened collections hw around h.1,
      everyMember_itemsOpened collections hw around h.2⟩

private theorem everyEntry_entriesOpened (collections : ∀ v : Value, v.isAtom = false → P v)
    {whole : Value} (hw : whole.Every P) (around : List Identity) {es : List (Value × Value)}
    (h : EveryEntry P es) : EveryEntry P (entriesOpened whole around es) := by
  cases es with
  | nil => trivial
  | cons e es =>
    rw [entriesOpened]
    exact ⟨⟨h.1.1, every_opened collections hw around h.1.2⟩,
      everyEntry_entriesOpened collections hw around h.2⟩

end

/-- A property that all collections have survives taking parts out. -/
theorem survives_of_collections (collections : ∀ v : Value, v.isAtom = false → P v) :
    Survives P := by
  intro whole part hw h
  rw [takeOut]
  split
  · exact h
  · exact every_opened collections hw [] h

end Collections

mutual

private theorem opened_of_no_loops (whole : Value) (around : List Identity) {v : Value}
    (h : v.Every (·.isLoop = false)) : opened whole around v = v := by
  cases v with
  | atom id a => simp only [opened]
  | seq id kind items => simp only [opened, itemsOpened_of_no_loops whole (id :: around) h.2]
  | dict id entries => simp only [opened, entriesOpened_of_no_loops whole (id :: around) h.2]
  | loop id kind => cases h

private theorem itemsOpened_of_no_loops (whole : Value) (around : List Identity) {vs : List Value}
    (h : EveryMember (·.isLoop = false) vs) : itemsOpened whole around vs = vs := by
  cases vs with
  | nil => simp only [itemsOpened]
  | cons v vs =>
    simp only [itemsOpened, opened_of_no_loops whole around h.1,
      itemsOpened_of_no_loops whole around h.2]

private theorem entriesOpened_of_no_loops (whole : Value) (around : List Identity)
    {es : List (Value × Value)} (h : EveryEntry (·.isLoop = false) es) :
    entriesOpened whole around es = es := by
  cases es with
  | nil => simp only [entriesOpened]
  | cons e es =>
    simp only [entriesOpened, opened_of_no_loops whole around h.1.2,
      entriesOpened_of_no_loops whole around h.2]

end

/-- A part that does not refer to what it is a part of is a value by itself. -/
theorem takeOut_of_no_loops (whole : Value) {part : Value} (h : part.Every (·.isLoop = false)) :
    whole.takeOut part = part := by
  rw [takeOut, opened_of_no_loops whole [] h, ite_self]

/-- A property that no loop has survives taking parts out. -/
theorem survives_of_no_loops (none : ∀ v, P v → v.isLoop = false) : Survives P := by
  intro whole part _ h
  rwa [takeOut_of_no_loops whole (h.mono none)]

namespace Every

variable {v : Value} (h : v.Every P)

include h

/-- A value is one of its parts. -/
theorem self : P v := by
  cases v with
  | atom id a => exact h
  | seq id kind items => exact h.1
  | dict id entries => exact h.1
  | loop id kind => exact h

/-- What a value holds under a text has the property, if it survives taking parts out. -/
theorem get? (survives : Survives P) {w : Value} {key : String} (hw : v.get? key = some w) :
    w.Every P := by
  cases v with
  | dict id entries =>
    obtain ⟨u, hu, rfl⟩ := Option.map_eq_some_iff.mp hw
    obtain ⟨k, hmem⟩ := exists_mem_of_find? hu
    exact survives h ((everyEntry_iff entries).mp h.2 _ hmem).2
  | _ => cases hw

/-- What a value holds under a text has the property, or is absent. -/
theorem get (survives : Survives P) (absent : P null) (key : String) : (v.get key).Every P := by
  rw [Value.get]
  cases hw : v.get? key with
  | none => exact absent
  | some w => exact h.get? survives hw

/-- The members of a value have the property, or are letters of a text, or bytes. -/
theorem items (survives : Survives P) (text : ∀ s, P (.text s))
    (byte : ∀ b : UInt8, P (.int b.toNat)) {vs : List Value} (hvs : v.items = .ok vs) :
    ∀ w ∈ vs, w.Every P := by
  cases v with
  | seq id kind items =>
    obtain rfl := Except.ok.inj hvs
    exact List.forall_mem_map.mpr fun w hw ↦ survives h ((everyMember_iff items).mp h.2 w hw)
  | dict id entries =>
    obtain rfl := Except.ok.inj hvs
    rw [List.forall_mem_map]
    exact fun e he ↦ ((everyEntry_iff entries).mp h.2 e he).1
  | loop id kind =>
    obtain rfl := Except.ok.inj hvs
    exact List.forall_mem_nil _
  | atom id a =>
    cases a with
    | text s =>
      obtain rfl := Except.ok.inj hvs
      exact List.forall_mem_map.mpr fun c _ ↦ text _
    | bytes growable content =>
      obtain rfl := Except.ok.inj hvs
      exact List.forall_mem_map.mpr fun b _ ↦ byte b
    | _ => cases hvs

end Every

end EntityGraph.Value
