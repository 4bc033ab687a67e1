import EntityGraph.Proofs.ReadBack.Yaml.Spelling

/-!
# Safe forms of values

What is written for a value that is built from parts which can be read back is safe in a column that
leaves room for its depth, if the keys of its mappings are near enough to their colons. Only a text
can be a key that is too far from its colon: one whose characters have long escapes.
-/

namespace EntityGraph.Yaml

open EntityGraph.Text Form

/-- A text is not too long for a key, should it stand in double marks on the line of its value. -/
def IsNear (s : String) : Prop :=
  (tagText "str").length + s.toList.length < keyWidth →
    (Pen.inStyle .double s.toList).length ≤ Token.Cut.keyLength

/-- The texts among the keys of a mapping are not too long. -/
def HasNearKeys : Value → Prop
  | .dict _ entries => ∀ e ∈ entries, ∀ s, e.1.text? = some s → IsNear s
  | _ => True

/-! ### Lengths -/

private theorem Pen.length_marked (ms : List (List Char × Token)) (cs : List Char) :
    (Pen.marked ms cs).length = (ms.flatMap (·.1 ++ [' '])).length + cs.length := by
  induction ms with
  | nil => simp [Pen.marked]
  | cons m ms ih =>
    rw [Pen.marked, List.foldr_cons, ← Pen.marked, List.length_append, List.length_cons, ih,
      List.flatMap_cons, List.length_append, List.length_append, List.length_singleton]
    omega

/-- A text whose characters become no more than some number is not longer than that many times its
length. -/
theorem length_flatMap_le {f : Char → List Char} {most : Nat} {cs : List Char}
    (h : ∀ c ∈ cs, (f c).length ≤ most) : (cs.flatMap f).length ≤ most * cs.length := by
  induction cs with
  | nil => exact Nat.zero_le _
  | cons c cs ih =>
    rw [List.forall_mem_cons] at h
    rw [List.flatMap_cons, List.length_append, List.length_cons, Nat.mul_succ]
    have rest := ih h.2
    omega

private theorem length_escape_le {c : Char} (latin : c.toNat ≤ 0xFF) :
    ((Pen.escape? c).getD [c]).length ≤ 4 := by
  have hex : (hexUpper 2 c.toNat).length = 2 := by
    rw [hexUpper, List.length_map, Text.hex, length_padLeft (by decide) (by omega) (by decide)]
  rw [Pen.escape?]
  split
  · exact Nat.le_of_ble_eq_true rfl
  · cases Pen.escapeLetters.lookup c with
    | some letter => exact Nat.le_of_ble_eq_true rfl
    | none =>
      simp only [Option.getD_some, List.length_cons, hex]
      exact Nat.le_refl 4

private theorem length_inStyle_le (style : ScalarStyle) {cs : List Char}
    (latin : ∀ c ∈ cs, c.toNat ≤ 0xFF) :
    (Pen.inStyle style cs).length ≤ 4 * cs.length + 2 := by
  have doubled : (Quoted.doubled cs).length ≤ 2 * cs.length :=
    length_flatMap_le fun c _ ↦ by
      split
      · exact Nat.le_refl 2
      · exact Nat.le_succ 1
  have escaped : (Pen.escaped cs).length ≤ 4 * cs.length :=
    length_flatMap_le fun c hc ↦ length_escape_le (latin c hc)
  cases style with
  | plain => rw [Pen.inStyle]; omega
  | single => rw [Pen.inStyle, List.length_cons, List.length_append, List.length_singleton]; omega
  | double => rw [Pen.inStyle, List.length_cons, List.length_append, List.length_singleton]; omega
  | literal => rw [Pen.inStyle, List.length_nil]; omega

namespace Form

variable {anchors : List ObjectKey} {key : Option ObjectKey} {tag text : String}
  {isKey isLiteral : Bool}

private theorem scalarMarks_text : scalarMarks isKey "str" isLiteral text = [] := by
  have implied : isImplied isKey "str" isLiteral text = true := by
    rw [isImplied]
    split
    · next plain =>
      rw [style, ScalarStyle.choose] at plain
      by_contra unknown
      rw [Bool.not_eq_true] at unknown
      simp only [unknown, Bool.false_and, Bool.false_eq_true, if_false] at plain
      split at plain
      · split at plain <;> cases plain
      · split at plain <;> cases plain
    · rfl
  rw [scalarMarks, implied]
  rfl

/-- A key on the line of its value is near enough to its colon, unless it is a text with long
escapes. -/
private theorem length_keyChars_le (latin : tag = "str" ∨ ∀ c ∈ text.toList, c.toNat ≤ 0xFF)
    (near : tag = "str" → key = none ∧ IsNear text)
    (simple : (Form.scalar key tag isLiteral text).isSimple anchors = true) :
    ((Form.scalar key tag isLiteral text).keyChars anchors).length ≤ Token.Cut.keyLength := by
  simp only [isSimple, Bool.and_eq_true, decide_eq_true_eq] at simple
  have short := simple.1.1
  rw [keyWidth] at short
  have limit : Token.Cut.keyLength = 1024 := rfl
  rw [keyChars, Pen.length_marked, limit]
  by_cases textual : tag = "str"
  · subst textual
    obtain ⟨rfl, fits⟩ := near rfl
    have short' : (tagText "str").length + text.toList.length < keyWidth := by
      rw [keyWidth]
      omega
    have unmarked : nameMarks anchors none ++ scalarMarks true "str" isLiteral text = [] := by
      rw [scalarMarks_text]
      rfl
    have long : (Pen.inStyle .double text.toList).length ≤ 1024 := fits short'
    have doubled : (Quoted.doubled text.toList).length ≤ 2 * text.toList.length :=
      length_flatMap_le fun c _ ↦ by
        split
        · exact Nat.le_refl 2
        · exact Nat.le_succ 1
    rw [unmarked, List.flatMap_nil, List.length_nil, Nat.zero_add]
    cases style true "str" isLiteral text with
    | plain => rw [Pen.inStyle]; omega
    | single => rw [Pen.inStyle, List.length_cons, List.length_append, List.length_singleton]; omega
    | double => exact long
    | literal => rw [Pen.inStyle, List.length_nil]; omega
  · have styled := length_inStyle_le (style true tag isLiteral text)
      (latin.resolve_left textual)
    have named : ((nameMarks anchors key).flatMap (·.1 ++ [' '])).length ≤
        ((nameOf? anchors key).getD []).length + 2 := by
      rw [nameMarks]
      cases nameOf? anchors key with
      | none => exact Nat.zero_le _
      | some name => simp
    have tagged : ((scalarMarks true tag isLiteral text).flatMap (·.1 ++ [' '])).length ≤
        (tagText tag).length + 1 := by
      rw [scalarMarks]
      split
      · exact Nat.zero_le _
      · simp
    rw [List.flatMap_append, List.length_append]
    omega

/-- A scalar is a safe key unless it is a text with long escapes. -/
theorem isSafeKey_scalar (h : tag ∈ kindNames) (nonempty : text = "" → tag ≠ "null")
    (latin : tag = "str" ∨ ∀ c ∈ text.toList, c.toNat ≤ 0xFF)
    (near : tag = "str" → key = none ∧ IsNear text) :
    (Form.scalar key tag false text).IsSafeKey anchors :=
  ⟨.scalar h nonempty, rfl, length_keyChars_le latin near⟩

/-- A reference to an object that is referred to is a leaf. -/
theorem isLeaf_again {k : ObjectKey} (h : k ∈ anchors) : (Form.again k).IsLeaf anchors := by
  obtain ⟨a, ha⟩ := exists_title h
  obtain ⟨name, hname, -⟩ := Option.map_eq_some_iff.mp ha
  exact .again hname

private theorem isSafeKey_again {k : ObjectKey} (h : k ∈ anchors) :
    (Form.again k).IsSafeKey anchors := by
  refine ⟨isLeaf_again h, rfl, fun simple ↦ ?_⟩
  have short : ((nameOf? anchors (some k)).getD []).length < keyWidth := by
    simpa [isSimple] using simple
  rw [keyWidth] at short
  have limit : Token.Cut.keyLength = 1024 := rfl
  rw [keyChars, List.length_cons, limit]
  omega

end Form

/-! ### Values -/

section Values

variable {anchors seen seen' : List ObjectKey} {f : Form} {room : Nat}

/-- What is written for a value is a reference, or what is written where it occurs first. -/
theorem ofValue_cases {v : Value} (written : ofValue seen v = .ok (f, seen')) :
    (∃ k, f = .again k) ∨ (keyOf v).any seen.contains = false := by
  rw [ofValue] at written
  split at written
  · next again =>
    rw [Option.any_eq_true] at again
    obtain ⟨k, hk, -⟩ := again
    rw [hk] at written
    exact .inl ⟨k, (Prod.mk.inj (Except.ok.inj written)).1.symm⟩
  · next first => exact .inr (Bool.eq_false_iff.mpr first)

/-- An atom is written as its scalar where it occurs first. -/
theorem ofValue_atom {id : Identity} {a : Atom} {tag text : String} (scalar : IsScalar a tag text)
    (first : (keyOf (.atom id a)).any seen.contains = false)
    (written : ofValue seen (.atom id a) = .ok (f, seen')) :
    f = .scalar (keyOf (.atom id a)) tag false text := by
  rw [ofValue] at written
  simp only [first, Bool.false_eq_true, if_false, scalar.form] at written
  exact (Prod.mk.inj (Except.ok.inj written)).1.symm

private theorem ofAtom_of_ofValue {id : Identity} {a : Atom}
    (first : (keyOf (.atom id a)).any seen.contains = false)
    (written : ofValue seen (.atom id a) = .ok (f, seen')) :
    ofAtom (keyOf (.atom id a)) a = .ok f := by
  rw [ofValue] at written
  simp only [first, Bool.false_eq_true, if_false] at written
  obtain ⟨g, hg, written⟩ := (Success.map_eq_ok _ _ _).mp written
  obtain ⟨rfl, -⟩ := Prod.mk.inj written
  exact hg

private theorem isSafe_plain_text (s : String) : (plain "str" s).IsSafe anchors room :=
  .leaf (.scalar (by decide) fun _ ↦ by decide) rfl

/-- What is written for an atom of an unknown kind is safe where there is room for a collection. -/
private theorem isSafe_ofAtom {a : Atom} {key : Option ObjectKey} (unknown : a.isUnknown = true)
    (written : ofAtom key a = .ok f) : f.IsSafe anchors (room + 1) := by
  cases a with
  | bytes growable content =>
    cases growable with
    | false => cases unknown
    | true =>
      obtain rfl := Except.ok.inj written
      refine .seq _ (by decide) ?_
      split
      · exact List.forall_mem_nil _
      · exact List.forall_mem_cons.mpr ⟨isSafe_plain_text _,
          List.forall_mem_singleton.mpr (isSafe_plain_text _)⟩
  | decimal d =>
    obtain rfl := Except.ok.inj written
    exact .seq _ (by decide) (List.forall_mem_singleton.mpr (isSafe_plain_text _))
  | uuid u =>
    obtain rfl := Except.ok.inj written
    refine .map _ (by decide) (List.forall_mem_singleton.mpr ?_) (List.forall_mem_singleton.mpr ?_)
    · have near : IsNear "int" := by
        unfold IsNear
        decide
      exact isSafeKey_scalar (by decide) (fun _ ↦ by decide) (.inl rfl) fun _ ↦ ⟨rfl, near⟩
    · exact .leaf (.scalar (by decide) fun _ ↦ by decide) rfl
  | _ => cases unknown

private theorem ofValue_seq {id : Identity} {kind : SeqKind} {items : List Value}
    (first : (keyOf (.seq id kind items)).any seen.contains = false)
    (written : ofValue seen (.seq id kind items) = .ok (f, seen')) :
    ∃ seen fs, ofItems seen items = .ok (fs, seen') ∧
      f = ofSeq (keyOf (.seq id kind items)) kind fs := by
  rw [ofValue] at written
  simp only [first, Bool.false_eq_true, if_false] at written
  obtain ⟨⟨fs, last⟩, hfs, written⟩ := (Success.map_eq_ok _ _ _).mp written
  obtain ⟨rfl, rfl⟩ := Prod.mk.inj written
  exact ⟨_, fs, hfs, rfl⟩

/-- A mapping is written with its entries where it occurs first. -/
theorem ofValue_dict {id : Identity} {entries : List (Value × Value)}
    (first : (keyOf (.dict id entries)).any seen.contains = false)
    (written : ofValue seen (.dict id entries) = .ok (f, seen')) :
    ∃ seen fs, ofEntries seen entries = .ok (fs, seen') ∧
      f = .map (keyOf (.dict id entries)) "map" fs := by
  rw [ofValue] at written
  simp only [first, Bool.false_eq_true, if_false] at written
  obtain ⟨⟨fs, last⟩, hfs, written⟩ := (Success.map_eq_ok _ _ _).mp written
  obtain ⟨rfl, rfl⟩ := Prod.mk.inj written
  exact ⟨_, fs, hfs, rfl⟩

private theorem IsScalar.eq_text (id : Identity) {a : Atom} {text : String}
    (h : IsScalar a "str" text) :
    a = .text text ∧ keyOf (.atom id a) = none := by
  have read : Except.ok (Value.text text) = .ok (.atom _ a) := h.reads .fresh
  obtain ⟨-, rfl⟩ := Value.atom.inj (Except.ok.inj read)
  exact ⟨rfl, rfl⟩

private theorem isSafeKey_ofValue {id : Identity} {a : Atom} (part : IsPart (.atom id a))
    (near : ∀ s, a = .text s → IsNear s) (written : ofValue seen (.atom id a) = .ok (f, seen'))
    (refers : ∀ k ∈ f.references, k ∈ anchors) : f.IsSafeKey anchors := by
  obtain ⟨tag, text, scalar⟩ := part
  rcases ofValue_cases written with ⟨k, rfl⟩ | first
  · exact isSafeKey_again (refers k List.mem_cons_self)
  · obtain rfl := ofValue_atom scalar first written
    refine isSafeKey_scalar scalar.kind scalar.nonempty scalar.latin fun textual ↦ ?_
    subst textual
    obtain ⟨rfl, unnamed⟩ := scalar.eq_text id
    exact ⟨unnamed, near text rfl⟩

mutual

/-- What is written for a value is safe where there is room for the depth of the value. -/
theorem isSafe_ofValue (v : Value) (parts : v.Every IsWritten) (near : v.Every HasNearKeys)
    {f : Form} {seen seen' : List ObjectKey} {room : Nat}
    (written : ofValue seen v = .ok (f, seen')) (refers : ∀ k ∈ f.references, k ∈ anchors)
    (shallow : v.depth ≤ room) : f.IsSafe anchors room := by
  rcases ofValue_cases written with ⟨k, rfl⟩ | first
  · exact .leaf (isLeaf_again (refers k List.mem_cons_self)) rfl
  cases v with
  | atom id a =>
    rcases parts with ⟨tag, text, scalar⟩ | unknown
    · obtain rfl := ofValue_atom scalar first written
      exact .leaf (.scalar scalar.kind scalar.nonempty) rfl
    · rw [Value.depth, Atom.depth, show a.isUnknown = true from unknown] at shallow
      obtain ⟨room, rfl⟩ := Nat.exists_eq_add_of_le' shallow
      exact isSafe_ofAtom unknown (ofAtom_of_ofValue first written)
  | seq id kind items =>
    obtain ⟨before, fs, hfs, rfl⟩ := ofValue_seq first written
    rw [Value.depth] at shallow
    cases kind with
    | list | tuple =>
      obtain ⟨room, rfl⟩ := Nat.exists_eq_add_of_le' (Nat.le_trans (Nat.le_add_left 1 _) shallow)
      exact .seq _ (by decide) (areSafe_ofItems items parts.2 near.2 hfs refers
        (Nat.le_of_succ_le_succ shallow))
    | frozenset =>
      obtain ⟨room, rfl⟩ := Nat.exists_eq_add_of_le' (Nat.le_trans (Nat.le_add_left 2 _) shallow)
      have inner : ∀ k ∈ itemReferences fs, k ∈ anchors := fun k hk ↦
        refers k (List.mem_append_left _ hk)
      have items := areSafe_ofItems items parts.2 near.2 hfs inner
        (Nat.le_of_add_le_add_right shallow)
      exact .seq _ (by decide) (List.forall_mem_singleton.mpr (.seq _ (by decide) items))
    | set =>
      rcases parts.1 with part | unknown
      · cases part
      · cases unknown
  | dict id entries =>
    obtain ⟨part, parts⟩ := parts
    have atoms := (part.resolve_right Bool.false_ne_true).1
    obtain ⟨before, fs, hfs, rfl⟩ := ofValue_dict first written
    rw [Value.depth] at shallow
    obtain ⟨room, rfl⟩ := Nat.exists_eq_add_of_le' (Nat.le_trans (Nat.le_add_left 1 _) shallow)
    have safe := areSafe_ofEntries entries atoms near.1 parts near.2 hfs refers
      (Nat.le_of_succ_le_succ shallow)
    exact .map _ (by decide) (fun e he ↦ (safe e he).1) (fun e he ↦ (safe e he).2)
  | loop id kind =>
    rcases parts with part | unknown
    · exact part.elim
    · cases unknown
termination_by structural v

/-- What is written for values is safe where there is room for their depth. -/
theorem areSafe_ofItems (vs : List Value) (parts : Value.EveryMember IsWritten vs)
    (near : Value.EveryMember HasNearKeys vs) {fs : List Form} {seen seen' : List ObjectKey}
    {room : Nat} (written : ofItems seen vs = .ok (fs, seen'))
    (refers : ∀ k ∈ itemReferences fs, k ∈ anchors) (shallow : Value.depthItems vs ≤ room) :
    ∀ f ∈ fs, f.IsSafe anchors room := by
  cases vs with
  | nil =>
    obtain ⟨rfl, rfl⟩ := Prod.mk.inj (Except.ok.inj written)
    exact List.forall_mem_nil _
  | cons v vs =>
    obtain ⟨⟨f, seen₁⟩, hf, written⟩ := (Success.bind_eq_ok _ _ _).mp written
    obtain ⟨⟨fs, seen₂⟩, hfs, written⟩ := (Success.bind_eq_ok _ _ _).mp written
    obtain ⟨rfl, rfl⟩ := Prod.mk.inj (Except.ok.inj written)
    rw [itemReferences, List.forall_mem_append] at refers
    rw [Value.depthItems, Nat.max_le] at shallow
    exact List.forall_mem_cons.mpr ⟨isSafe_ofValue v parts.1 near.1 hf refers.1 shallow.1,
      areSafe_ofItems vs parts.2 near.2 hfs refers.2 shallow.2⟩
termination_by structural vs

/-- What is written for the entries of a mapping is safe where there is room for their depth. -/
theorem areSafe_ofEntries (es : List (Value × Value)) (atoms : ∀ e ∈ es, IsKeyAtom e.1)
    (keys : ∀ e ∈ es, ∀ s, e.1.text? = some s → IsNear s) (parts : Value.EveryEntry IsWritten es)
    (near : Value.EveryEntry HasNearKeys es) {fs : List (Form × Form)}
    {seen seen' : List ObjectKey} {room : Nat} (written : ofEntries seen es = .ok (fs, seen'))
    (refers : ∀ k ∈ entryReferences fs, k ∈ anchors) (shallow : Value.depthEntries es ≤ room) :
    ∀ f ∈ fs, f.1.IsSafeKey anchors ∧ f.2.IsSafe anchors room := by
  cases es with
  | nil =>
    obtain ⟨rfl, rfl⟩ := Prod.mk.inj (Except.ok.inj written)
    exact List.forall_mem_nil _
  | cons e es =>
    obtain ⟨k, v⟩ := e
    rw [List.forall_mem_cons] at atoms keys
    obtain ⟨⟨f, seen₁⟩, hf, written⟩ := (Success.bind_eq_ok _ _ _).mp written
    obtain ⟨⟨g, seen₂⟩, hg, written⟩ := (Success.bind_eq_ok _ _ _).mp written
    obtain ⟨⟨fs, seen₃⟩, hfs, written⟩ := (Success.bind_eq_ok _ _ _).mp written
    obtain ⟨rfl, rfl⟩ := Prod.mk.inj (Except.ok.inj written)
    rw [entryReferences, List.forall_mem_append, List.forall_mem_append] at refers
    rw [Value.depthEntries, Nat.max_le] at shallow
    have key : f.IsSafeKey anchors := by
      obtain ⟨⟨id, a, rfl, known⟩, -⟩ := atoms
      refine isSafeKey_ofValue (parts.1.1.isPart known) (fun s hs ↦ keys.1 s ?_) hf refers.1.1
      rw [hs]
      rfl
    exact List.forall_mem_cons.mpr
      ⟨⟨key, isSafe_ofValue v parts.1.2 near.1.2 hg refers.1.2 shallow.1⟩,
        areSafe_ofEntries es atoms.2 keys.2 parts.2 near.2 hfs refers.2 shallow.2⟩
termination_by structural es

end

end Values

end EntityGraph.Yaml
