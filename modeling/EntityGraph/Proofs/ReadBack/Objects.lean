import EntityGraph.Proofs.Anonymity
import EntityGraph.Proofs.Grammar
import EntityGraph.Proofs.Parts

/-!
# Objects of documents

Reading a document makes new objects. What is made of these is compared by its content with values
that are made of other objects.
-/

namespace EntityGraph

namespace Value

/-! ### Parts of contents -/

/-- The text of a value is that of its content. -/
@[simp] theorem text?_anonymous (v : Value) : v.anonymous.text? = v.text? := by
  cases v with
  | atom id a => cases a <;> rfl
  | _ => rfl

/-- The truth value that a value is is that of its content. -/
@[simp] theorem bool?_anonymous (v : Value) : v.anonymous.bool? = v.bool? := by
  cases v with
  | atom id a => cases a <;> rfl
  | _ => rfl

/-- Whether a value counts as true depends on its content. -/
@[simp] theorem truthy_anonymous (v : Value) : v.anonymous.truthy = v.truthy := by
  cases v with
  | seq id kind items => cases items <;> rfl
  | dict id entries => cases entries <;> rfl
  | _ => rfl

private theorem find?_anonymousEntries (key : String) (es : List (Value × Value)) :
    find? (text key) (anonymousEntries es) = (find? (text key) es).map anonymous := by
  rw [anonymousEntries_eq_map]
  induction es with
  | nil => rfl
  | cons e es ih =>
    have key' : (text key).same e.1.anonymous = (text key).same e.1 :=
      same_anonymous (text key) e.1
    rw [List.map_cons, find?, find?, key']
    split
    · rfl
    · exact ih

/-- What the content of a mapping without loops holds under a text is the content of what the
mapping holds. -/
theorem get?_anonymous (key : String) {v : Value} (h : v.Every (·.isLoop = false)) :
    v.anonymous.get? key = (v.get? key).map anonymous := by
  cases v with
  | dict id entries =>
    rw [anonymous, get?, get?, find?_anonymousEntries, Option.map_map, Option.map_map]
    refine Option.map_congr fun w hw ↦ ?_
    obtain ⟨k, hk⟩ := exists_mem_of_find? hw
    simp [takeOut_of_no_loops _ ((everyEntry_iff entries).mp h.2 _ hk).2]
  | _ => rfl

/-- What the content of a mapping without loops holds under a text, or the absent value. -/
theorem get_anonymous (key : String) {v : Value} (h : v.Every (·.isLoop = false)) :
    v.anonymous.get key = (v.get key).anonymous := by
  rw [get, get, get?_anonymous key h]
  cases v.get? key <;> rfl

/-- Whether a value is missing depends on its content. -/
theorem among_empty_anonymous (v : Value) :
    v.anonymous.among [.null, .text ""] = v.among [.null, .text ""] := by
  cases v <;> simp [among, null, text, anonymous, same, Identity.same]

/-- The members of the content of a value without loops are the contents of its members. -/
theorem items_anonymous {v : Value} (h : v.Every (·.isLoop = false)) :
    v.anonymous.items = v.items.map (List.map anonymous) := by
  cases v with
  | atom id a =>
    cases a with
    | text s => simp [anonymous, items, Atom.items?, Except.map]
    | bytes growable content => simp [anonymous, items, Atom.items?, Except.map, Value.int]
    | _ => rfl
  | seq id kind items =>
    have parts : items.map (Value.seq id kind items).takeOut = items :=
      (List.map_congr_left fun w hw ↦
        takeOut_of_no_loops _ ((everyMember_iff items).mp h.2 w hw)).trans (List.map_id items)
    rw [anonymous, Value.items, Value.items, map_takeOut_of_fresh rfl, anonymousItems_eq_map, parts]
    rfl
  | dict id entries =>
    simp only [anonymous, Value.items, anonymousEntries_eq_map, Except.map, List.map_map]
    rfl
  | loop id kind => cases h

/-! ### Objects of a document -/

/-- An object is one of those that reading a document makes. Its texts and absent values are no
objects of their own, and nothing in the document contains itself. -/
structure IsOfDocument (number : Nat) (v : Value) : Prop where
  made : v.identity = .fresh ∨ ∃ n, v.identity = .node number n
  bare : v.isNull = true ∨ v.text?.isSome = true → v.identity = .fresh
  closed : v.isLoop = false

/-- An object is none of those that reading a document makes. -/
def IsApartFrom (number : Nat) (v : Value) : Prop := ∀ n, v.identity ≠ .node number n

/-- What is new is an object of any document. -/
theorem isOfDocument_fresh {number : Nat} (a : Atom) : (atom .fresh a).IsOfDocument number :=
  ⟨.inl rfl, fun _ ↦ rfl, rfl⟩

/-- A sequence that reading a document makes is an object of the document. -/
theorem isOfDocument_seq {number : Nat} (n : Nat) (kind : SeqKind) (items : List Value) :
    (seq (.node number n) kind items).IsOfDocument number :=
  ⟨.inr ⟨n, rfl⟩, by simp [isNull, text?], rfl⟩

/-- A mapping that reading a document makes is an object of the document. -/
theorem isOfDocument_dict {number : Nat} (n : Nat) (entries : List (Value × Value)) :
    (dict (.node number n) entries).IsOfDocument number :=
  ⟨.inr ⟨n, rfl⟩, by simp [isNull, text?], rfl⟩

/-- What is taken out of a document is made of objects of the document. -/
theorem survives_isOfDocument (number : Nat) : Survives (IsOfDocument number) :=
  survives_of_no_loops fun _ h ↦ h.closed

/-- Nothing in a document contains itself. -/
theorem Every.noLoops {number : Nat} {v : Value} (h : v.Every (IsOfDocument number)) :
    v.Every (·.isLoop = false) := h.mono fun _ h ↦ h.closed

/-- What a document holds under a text is made of objects of the document. -/
theorem Every.getOfDocument {number : Nat} {v : Value} (h : v.Every (IsOfDocument number))
    (key : String) : (v.get key).Every (IsOfDocument number) :=
  h.get (survives_isOfDocument number) (isOfDocument_fresh _) key

/-- A text of a document, or an absent value, is known from its content. -/
theorem IsOfDocument.eq_of_isText {number : Nat} {v : Value} (h : v.IsOfDocument number)
    (text : v.anonymous.isNull = true ∨ v.anonymous.IsText) : v.anonymous = v := by
  have bare : v.isNull = true ∨ v.text?.isSome = true := by
    refine text.imp (fun absent ↦ (isNull_anonymous v).symm.trans absent) ?_
    rintro ⟨s, hs⟩
    rw [← text?_anonymous, hs]
    rfl
  have fresh := h.bare bare
  cases v with
  | atom id a =>
    simp only [identity] at fresh
    rw [fresh]
    rfl
  | _ => simp [isNull, text?] at bare

/-- Texts of a document are known from their contents. -/
theorem map_anonymous_of_isText {number : Nat} {vs : List Value}
    (h : ∀ v ∈ vs, v.IsOfDocument number) (texts : ∀ v ∈ vs.map anonymous, v.IsText) :
    vs.map anonymous = vs := by
  conv_rhs => rw [← List.map_id vs]
  exact List.map_congr_left fun v hv ↦
    (h v hv).eq_of_isText (.inr (texts _ (List.mem_map_of_mem hv)))

/-! ### Comparisons -/

/-- An object of a document is none that is apart from the document. -/
theorem IsOfDocument.identity_same {number : Nat} {v w : Value} (h : v.IsOfDocument number)
    (apart : w.IsApartFrom number) : v.identity.same w.identity = false := by
  rcases h.made with fresh | ⟨n, made⟩
  · rw [fresh, fresh_same]
  · have differ : Identity.node number n ≠ w.identity := fun same ↦ apart n same.symm
    simp [made, Identity.same, differ]

/-- Members are found alike by conditions that agree on them. -/
theorem any_congr_of_mem {α : Type} {p q : α → Bool} {as : List α} (h : ∀ a ∈ as, p a = q a) :
    as.any p = as.any q := by
  induction as with
  | nil => rfl
  | cons a as ih =>
    rw [List.forall_mem_cons] at h
    rw [List.any_cons, List.any_cons, h.1, ih h.2]

private theorem find?_congr_of_mem {α : Type} {p q : α → Bool} {as : List α}
    (h : ∀ a ∈ as, p a = q a) :
    as.find? p = as.find? q := by
  induction as with
  | nil => rfl
  | cons a as ih =>
    rw [List.forall_mem_cons] at h
    rw [List.find?_cons, List.find?_cons, h.1, ih h.2]

mutual

/-- What a document is made of is compared by its content with what is apart from the document. -/
theorem anonymous_same {number : Nat} (v w : Value) (h : v.Every (IsOfDocument number))
    (apart : w.Every (IsApartFrom number)) : v.anonymous.same w = v.same w := by
  have own := h.self.identity_same apart.self
  cases v with
  | atom id a =>
    cases w with
    | atom jd b =>
      simp only [identity] at own
      simp only [anonymous, same, fresh_same, own]
    | _ => simp only [anonymous, same]
  | seq id kind items =>
    cases w with
    | seq jd other members =>
      simp only [identity] at own
      simp only [anonymous, same, fresh_same, own, length_anonymousItems,
        anonymousItems_same items members h.2 apart.2,
        anonymousItems_among items members h.2 ((everyMember_iff _).mp apart.2)]
    | _ => simp only [anonymous, same]
  | dict id entries =>
    cases w with
    | dict jd others =>
      simp only [identity] at own
      simp only [anonymous, same, fresh_same, own, length_anonymousEntries,
        anonymousEntries_among entries others h.2 ((everyEntry_iff _).mp apart.2)]
    | _ => simp only [anonymous, same]
  | loop id kind =>
    cases w with
    | loop jd other =>
      simp only [identity] at own
      simp only [anonymous, same, fresh_same, own]
    | _ => simp only [anonymous, same]
termination_by structural v

/-- Members of what a document is made of are compared by their contents. -/
theorem anonymousItems_same {number : Nat} (vs ws : List Value)
    (h : EveryMember (IsOfDocument number) vs) (apart : EveryMember (IsApartFrom number) ws) :
    sameItems (anonymousItems vs) ws = sameItems vs ws := by
  cases vs with
  | nil => rfl
  | cons v vs =>
    cases ws with
    | nil => simp only [anonymousItems, sameItems]
    | cons w ws =>
      rw [anonymousItems, sameItems, sameItems, anonymous_same v w h.1 apart.1,
        anonymousItems_same vs ws h.2 apart.2]
termination_by structural vs

/-- Members of what a document is made of are found by their contents. -/
theorem anonymousItems_among {number : Nat} (vs ws : List Value)
    (h : EveryMember (IsOfDocument number) vs) (apart : ∀ w ∈ ws, w.Every (IsApartFrom number)) :
    allAmong (anonymousItems vs) ws = allAmong vs ws := by
  cases vs with
  | nil => rfl
  | cons v vs =>
    have found : ws.any (v.anonymous.same ·) = ws.any (v.same ·) :=
      any_congr_of_mem fun w hw ↦ anonymous_same v w h.1 (apart w hw)
    rw [anonymousItems, allAmong, allAmong, found, anonymousItems_among vs ws h.2 apart]
termination_by structural vs

/-- Entries of what a document is made of are found by their contents. -/
theorem anonymousEntries_among {number : Nat} (es fs : List (Value × Value))
    (h : EveryEntry (IsOfDocument number) es)
    (apart : ∀ f ∈ fs, f.1.Every (IsApartFrom number) ∧ f.2.Every (IsApartFrom number)) :
    entriesAmong (anonymousEntries es) fs = entriesAmong es fs := by
  cases es with
  | nil => rfl
  | cons e es =>
    obtain ⟨k, v⟩ := e
    have found : fs.any (fun f ↦ k.anonymous.same f.1 && v.anonymous.same f.2) =
        fs.any fun f ↦ k.same f.1 && v.same f.2 := by
      refine any_congr_of_mem fun f hf ↦ ?_
      rw [anonymous_same k f.1 h.1.1 (apart f hf).1, anonymous_same v f.2 h.1.2 (apart f hf).2]
    rw [anonymousEntries, entriesAmong, entriesAmong, found,
      anonymousEntries_among es fs h.2 apart]
termination_by structural es

end

mutual

/-- Whether comparing what a document is made of with what is apart from the document ends depends
on the content of the first. -/
theorem anonymous_endless {number : Nat} (v w : Value) (h : v.Every (IsOfDocument number))
    (apart : w.Every (IsApartFrom number)) : v.anonymous.endless w = v.endless w := by
  have own := h.self.identity_same apart.self
  cases v with
  | atom id a => cases w <;> simp only [anonymous, endless]
  | seq id kind items =>
    cases w with
    | seq jd other members =>
      simp only [identity] at own
      simp only [anonymous, endless, fresh_same, own, length_anonymousItems,
        anonymousItems_endless items members h.2 apart.2]
    | _ => simp only [anonymous, endless]
  | dict id entries =>
    cases w with
    | dict jd others =>
      simp only [identity] at own
      simp only [anonymous, endless, fresh_same, own, length_anonymousEntries,
        anonymousEntries_endless entries others h.2 ((everyEntry_iff _).mp apart.2)]
    | _ => simp only [anonymous, endless]
  | loop id kind =>
    cases w with
    | loop jd other =>
      simp only [identity] at own
      simp only [anonymous, endless, fresh_same, own]
    | _ => simp only [anonymous, endless]
termination_by structural v

/-- Whether comparing members of what a document is made of ends depends on their contents. -/
theorem anonymousItems_endless {number : Nat} (vs ws : List Value)
    (h : EveryMember (IsOfDocument number) vs) (apart : EveryMember (IsApartFrom number) ws) :
    endlessItems (anonymousItems vs) ws = endlessItems vs ws := by
  cases vs with
  | nil => rfl
  | cons v vs =>
    cases ws with
    | nil => simp only [anonymousItems, endlessItems]
    | cons w ws =>
      rw [anonymousItems, endlessItems, endlessItems, anonymous_endless v w h.1 apart.1,
        anonymous_same v w h.1 apart.1, anonymousItems_endless vs ws h.2 apart.2]
termination_by structural vs

/-- Whether looking for entries of what a document is made of ends depends on their contents. -/
theorem anonymousEntries_endless {number : Nat} (es fs : List (Value × Value))
    (h : EveryEntry (IsOfDocument number) es)
    (apart : ∀ f ∈ fs, f.1.Every (IsApartFrom number) ∧ f.2.Every (IsApartFrom number)) :
    endlessEntries (anonymousEntries es) fs = endlessEntries es fs := by
  cases es with
  | nil => rfl
  | cons e es =>
    obtain ⟨k, v⟩ := e
    have found : (fs.find? fun f ↦ k.anonymous.same f.1) = fs.find? fun f ↦ k.same f.1 :=
      find?_congr_of_mem fun f hf ↦ anonymous_same k f.1 h.1.1 (apart f hf).1
    rw [anonymousEntries, endlessEntries, endlessEntries, found,
      anonymousEntries_endless es fs h.2 apart]
    cases hf : fs.find? fun f ↦ k.same f.1 with
    | none => rfl
    | some f =>
      have values := (apart f (List.mem_of_find?_eq_some hf)).2
      dsimp only
      rw [anonymous_endless v f.2 h.1.2 values, anonymous_same v f.2 h.1.2 values]
termination_by structural es

end

end Value

end EntityGraph
