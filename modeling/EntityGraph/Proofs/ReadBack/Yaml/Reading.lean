import EntityGraph.Proofs.ReadBack.Yaml.Safety
import EntityGraph.Proofs.ReadBack.Yaml.Values
import EntityGraph.Yaml.Writer

/-!
# Texts of values read back

A mapping that is built from parts which can be written has a text. If the mapping is not too deep
and its keys are not too long, the text is read as a copy of it, or not read at all if one of its
parts is of a kind that the reader does not know.
-/

namespace EntityGraph.Yaml

open Form

private theorem exists_ofAtom {a : Atom} (unknown : a.isUnknown = true) (key : Option ObjectKey) :
    ∃ f, ofAtom key a = .ok f := by
  cases a with
  | bytes growable content =>
    cases growable with
    | false => cases unknown
    | true => exact ⟨_, rfl⟩
  | decimal d => exact ⟨_, rfl⟩
  | uuid u => exact ⟨_, rfl⟩
  | _ => cases unknown

mutual

/-- A value that is built from parts which can be written has a form. -/
theorem exists_ofValue (v : Value) (parts : v.Every IsWritten) (seen : List ObjectKey) :
    ∃ f seen', ofValue seen v = .ok (f, seen') := by
  rw [ofValue]
  split
  · exact ⟨_, _, rfl⟩
  · cases v with
    | atom id a =>
      dsimp only
      rcases parts with ⟨tag, text, scalar⟩ | unknown
      · rw [scalar.form]
        exact ⟨_, _, rfl⟩
      · obtain ⟨f, hf⟩ := exists_ofAtom unknown (keyOf (.atom id a))
        rw [hf]
        exact ⟨_, _, rfl⟩
    | seq id kind items =>
      obtain ⟨fs, seen', hfs⟩ := exists_ofItems items parts.2
        ((keyOf (.seq id kind items)).toList ++ seen)
      dsimp only
      rw [hfs]
      exact ⟨_, _, rfl⟩
    | dict id entries =>
      obtain ⟨fs, seen', hfs⟩ := exists_ofEntries entries parts.2
        ((keyOf (.dict id entries)).toList ++ seen)
      dsimp only
      rw [hfs]
      exact ⟨_, _, rfl⟩
    | loop id kind => exact ⟨_, _, rfl⟩
termination_by structural v

/-- Values that are built from parts which can be written have forms. -/
theorem exists_ofItems (vs : List Value) (parts : Value.EveryMember IsWritten vs)
    (seen : List ObjectKey) : ∃ fs seen', ofItems seen vs = .ok (fs, seen') := by
  cases vs with
  | nil => exact ⟨_, _, rfl⟩
  | cons v vs =>
    obtain ⟨f, seen₁, hf⟩ := exists_ofValue v parts.1 seen
    obtain ⟨fs, seen₂, hfs⟩ := exists_ofItems vs parts.2 seen₁
    rw [ofItems, hf]
    show ∃ gs seen', (ofItems seen₁ vs >>= _) = Except.ok (gs, seen')
    rw [hfs]
    exact ⟨_, _, rfl⟩
termination_by structural vs

/-- Entries that are built from parts which can be written have forms. -/
theorem exists_ofEntries (es : List (Value × Value)) (parts : Value.EveryEntry IsWritten es)
    (seen : List ObjectKey) : ∃ fs seen', ofEntries seen es = .ok (fs, seen') := by
  cases es with
  | nil => exact ⟨_, _, rfl⟩
  | cons e es =>
    obtain ⟨k, v⟩ := e
    obtain ⟨f, seen₁, hf⟩ := exists_ofValue k parts.1.1 seen
    obtain ⟨g, seen₂, hg⟩ := exists_ofValue v parts.1.2 seen₁
    obtain ⟨fs, seen₃, hfs⟩ := exists_ofEntries es parts.2 seen₂
    rw [ofEntries, hf]
    show ∃ gs seen', (ofValue seen₁ v >>= _) = Except.ok (gs, seen')
    rw [hg]
    show ∃ gs seen', (ofEntries seen₂ es >>= _) = Except.ok (gs, seen')
    rw [hfs]
    exact ⟨_, _, rfl⟩
termination_by structural es

end

private theorem ofEntries_ne_nil {es : List (Value × Value)} (h : es ≠ [])
    {seen seen' : List ObjectKey}
    {fs : List (Form × Form)} (written : ofEntries seen es = .ok (fs, seen')) : fs ≠ [] := by
  cases es with
  | nil => exact absurd rfl h
  | cons e es =>
    obtain ⟨⟨f, seen₁⟩, hf, written⟩ := (Success.bind_eq_ok _ _ _).mp written
    obtain ⟨⟨g, seen₂⟩, hg, written⟩ := (Success.bind_eq_ok _ _ _).mp written
    obtain ⟨⟨fs, seen₃⟩, hfs, written⟩ := (Success.bind_eq_ok _ _ _).mp written
    obtain ⟨rfl, rfl⟩ := Prod.mk.inj (Except.ok.inj written)
    exact List.cons_ne_nil _ _

/-- Every object that is referred to is given a name. -/
private theorem Form.mem_anchors {f : Form} {k : ObjectKey} (h : k ∈ f.references) :
    k ∈ f.anchors := by
  have collected : ∀ (ks seen : List ObjectKey), k ∈ ks ∨ k ∈ seen →
      k ∈ ks.foldl (fun keys k ↦ if keys.contains k then keys else keys ++ [k]) seen := by
    intro ks
    induction ks with
    | nil => exact fun seen h ↦ h.resolve_left List.not_mem_nil
    | cons l ks ih =>
      intro seen h
      refine ih _ ?_
      rw [List.mem_cons, or_assoc] at h
      rcases h with rfl | later | before
      · refine .inr ?_
        dsimp only
        split
        · next known => exact List.contains_iff_mem.mp known
        · exact List.mem_append_right _ (List.mem_singleton_self k)
      · exact .inl later
      · refine .inr ?_
        dsimp only
        split
        · exact before
        · exact List.mem_append_left _ before
  exact collected f.references [] (.inl h)

private theorem Nodes.hasAt_toArray (new : List Node) : Nodes.HasAt new.toArray 0 new := by
  intro i n hn
  rw [Nat.zero_add, Nodes.node, List.getElem?_toArray, hn]
  rfl

private theorem Document.exists_value {d : Document} {v : Value} (parts : v.Every IsPart)
    (spelled : d.nodes.Spells v d.root) (number : Nat) :
    ∃ x, d.value number = .ok x ∧ IsCopy number x v := by
  obtain ⟨w, made, rfl, found, fits⟩ := exists_made ⟨v, parts, spelled⟩ number
  refine ⟨w.value (d.nodes.size + 1) [] d.root, ?_, ?_⟩
  · show (Making.makeAll (d.nodes.size + 1) d.root _ >>= _) = _
    rw [made]
    rfl
  · exact isCopy_value fits v parts (Nat.lt_succ_self _) spelled found
      ⟨List.forall_mem_nil _, List.nodup_nil⟩

private theorem Document.value_eq_error {d : Document} {v : Value} (parts : v.Every IsWritten)
    (unknown : ¬ v.Every IsPart) (spelled : d.nodes.Spells v d.root) (number : Nat) :
    d.value number = .error .malformed := by
  have closed : d.nodes.AreClosed (d.nodes.IsSpelled IsWritten) :=
    Nodes.areClosed_isSpelled fun _ ↦ id
  rcases ends_makeAll closed ⟨v, parts, spelled⟩ number with ⟨_, w, -, -, found, fits⟩ | ⟨-, failed⟩
  · exact absurd (every_isPart_of_isFound fits v parts spelled found) unknown
  · show (Making.makeAll (d.nodes.size + 1) d.root _ >>= _) = _
    rw [failed]
    rfl

/-- The deepest mappings that are certain to be read have so many collections around each other. -/
def depthLimit : Nat := 39

section Texts

variable {entries : List (Value × Value)} {content : ObjectKey → Value} (nonempty : entries ≠ [])
  (contents : HasContents content (.dict .fresh entries))
  (near : (Value.dict .fresh entries).Every HasNearKeys)
  (shallow : (Value.dict .fresh entries).depth ≤ depthLimit)

include nonempty contents near shallow

/-- The text of a mapping that is no object of its own makes a document which spells the mapping. -/
theorem exists_ofChars_text (parts : (Value.dict .fresh entries).Every IsWritten) :
    ∃ t d, text (.dict .fresh entries) = .ok t ∧ Document.ofChars t.toList = .ok (some d) ∧
      d.nodes.Spells (.dict .fresh entries) d.root := by
  obtain ⟨f, seen, hf⟩ := exists_ofValue _ parts []
  obtain ⟨before, fs, hfs, rfl⟩ := ofValue_dict rfl hf
  rw [show keyOf (.dict .fresh entries) = none from rfl] at hf
  have written : text (.dict .fresh entries) = .ok (Form.map none "map" fs).text := by
    rw [text, hf]
    rfl
  have refers : ∀ k ∈ (Form.map none "map" fs).references, k ∈ (Form.map none "map" fs).anchors :=
    fun k ↦ mem_anchors
  have some : fs ≠ [] := ofEntries_ne_nil nonempty hfs
  have atoms := (parts.1.isPart rfl).1
  rw [Value.depth] at shallow
  have safe := areSafe_ofEntries entries atoms near.1 parts.2 near.2 hfs refers
    (Nat.le_of_succ_le_succ shallow)
  have cut := ofChars_text some (fun e he ↦ (safe e he).1) (fun e he ↦ (safe e he).2) (by decide)
  have unnamed : AreKnown (Form.map none "map" fs).anchors [] [] := fun _ _ _ ↦ by simp
  obtain ⟨n, new, names, laid, lays⟩ := exists_lay _ parts contents hf refers unnamed 0
  have tokens := ofTokens_tokens laid
  obtain ⟨spelled, -⟩ := lays.spells new.toArray (Nodes.hasAt_toArray new) (List.forall_mem_nil _)
  refine ⟨_, ⟨new.toArray, n⟩, written, ?_, spelled⟩
  rw [Document.ofChars, cut, tokens]

/-- The text of a mapping that is no object of its own is read as a copy of the mapping. -/
theorem exists_read_text (parts : (Value.dict .fresh entries).Every IsPart) (number : Nat) :
    ∃ t x, text (.dict .fresh entries) = .ok t ∧ read number t.toList = .ok x ∧
      IsCopy number x (.dict .fresh entries) := by
  obtain ⟨t, d, ht, hd, spelled⟩ := exists_ofChars_text nonempty contents near shallow
    (parts.mono fun _ ↦ .inl)
  obtain ⟨x, hx, copy⟩ := Document.exists_value parts spelled number
  refine ⟨t, x, ht, ?_, copy⟩
  rw [read, hd]
  exact hx

/-- The text of a mapping with parts of unknown kinds is not read. -/
theorem exists_read_text_eq_error (parts : (Value.dict .fresh entries).Every IsWritten)
    (unknown : ¬ (Value.dict .fresh entries).Every IsPart) (number : Nat) :
    ∃ t, text (.dict .fresh entries) = .ok t ∧ read number t.toList = .error .malformed := by
  obtain ⟨t, d, ht, hd, spelled⟩ := exists_ofChars_text nonempty contents near shallow parts
  refine ⟨t, ht, ?_⟩
  rw [read, hd]
  exact Document.value_eq_error parts unknown spelled number

end Texts

end EntityGraph.Yaml
