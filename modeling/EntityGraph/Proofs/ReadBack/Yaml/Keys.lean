import EntityGraph.Proofs.ReadBack.Yaml.Scalars

/-!
# Keys on the line of their values

A key on the line of its value is written without breaks, so its characters are known: its name, its
tag and its text, with a space between them. It is read back if there are not too many.
-/

namespace EntityGraph.Yaml

open EntityGraph.Text Analysis Cursor Token.Cut Plain

namespace Pen

variable {p : Pen} {ms : List (List Char × Token)} {cs : List Char}

/-- The escaped characters of a text. -/
def escaped (cs : List Char) : List Char := cs.flatMap fun c ↦ (escape? c).getD [c]

/-- The characters of a scalar on one line. -/
def inStyle (style : ScalarStyle) (cs : List Char) : List Char :=
  match style with
  | .plain => cs
  | .single => apostrophe :: (Quoted.doubled cs ++ [apostrophe])
  | .double => quotationMark :: (escaped cs ++ [quotationMark])
  | .literal => []

/-- The characters of marks and of what follows them, with a space between them. -/
def marked (ms : List (List Char × Token)) (cs : List Char) : List Char :=
  ms.foldr (fun m cs ↦ m.1 ++ ' ' :: cs) cs

/-- Text in single marks on one line is written with its apostrophes doubled. -/
private theorem singleParts_false (fuel column : Nat) (isFirst : Bool) {cs : List Char}
    (enough : cs.length < fuel) (line : '\n' ∉ cs) (p : Pen) :
    p.singleParts fuel column false isFirst cs = p.put (Quoted.doubled cs) := by
  induction fuel generalizing cs isFirst p with
  | zero => cases enough
  | succ fuel ih =>
    cases cs with
    | nil => rfl
    | cons c cs =>
      have feed : c ≠ '\n' := fun h ↦ line (h ▸ List.mem_cons_self)
      have onward (word rest : List Char) (heq : c :: cs = word ++ rest) (some : word ≠ [])
          (isFirst : Bool) :
            (p.put (Quoted.doubled word)).singleParts fuel column false isFirst rest =
            p.put (Quoted.doubled (c :: cs)) := by
        have positive := List.length_pos_iff.mpr some
        rw [heq, List.length_append] at enough
        rw [ih isFirst (by omega) (fun h ↦ line (heq ▸ List.mem_append_right word h)), put_put, heq,
          Quoted.doubled, Quoted.doubled, Quoted.doubled, List.flatMap_append]
      rw [singleParts]
      by_cases space : c = ' '
      · subst space
        obtain ⟨k, rest, hrun, heq, -⟩ := exists_run_replicate ' ' cs
        have same : Quoted.doubled (List.replicate (k + 1) ' ') = List.replicate (k + 1) ' ' := by
          simp [Quoted.doubled, List.flatMap_replicate, apostrophe]
        have rest' := onward _ rest heq (List.cons_ne_nil _ _) false
        rw [same] at rest'
        simpa [hrun] using rest'
      · obtain ⟨word, rest, hrun, heq, -, hrest⟩ :=
          exists_run_eq (fun c ↦ c ≠ ' ' && c ≠ '\n') (c :: cs)
        have some : word ≠ [] := by
          rintro rfl
          have blank := hrest c (by rw [← List.nil_append rest, ← heq]; rfl)
          simp [space, feed] at blank
        simp only [if_neg space, if_neg feed, hrun]
        exact onward word rest heq some false

private theorem doubleChars_false (column : Nat) (isFirst : Bool) (pending cs : List Char)
    (p : Pen) :
    p.doubleChars column false isFirst pending cs = p.put (pending ++ escaped cs) := by
  induction cs generalizing isFirst pending p with
  | nil => rw [doubleChars, escaped, List.flatMap_nil, List.append_nil]
  | cons c cs ih =>
    rw [doubleChars, escaped, List.flatMap_cons, ← escaped]
    cases escape? c with
    | some out => simp [ih, put_put]
    | none => simp [ih]

private theorem line_marked (h : ∀ m ∈ ms, IsMark m.1 m.2) (line : '\n' ∉ cs) :
    '\n' ∉ marked ms cs := by
  induction ms with
  | nil => exact line
  | cons m ms ih =>
    rw [List.forall_mem_cons] at h
    rw [marked, List.foldr_cons, ← marked, List.mem_append, List.mem_cons, not_or, not_or]
    exact ⟨h.1.line, by decide, ih h.2⟩

/-- A scalar on one line has no breaks. -/
private theorem line_inStyle {style : ScalarStyle}
    (h : style = .plain ∧ '\n' ∉ cs ∨ style = .single ∧ '\n' ∉ cs ∨ style = .double) :
    '\n' ∉ inStyle style cs := by
  rcases h with ⟨rfl, line⟩ | ⟨rfl, line⟩ | rfl
  · exact line
  · rw [inStyle, List.mem_cons, List.mem_append, List.mem_singleton, not_or, not_or]
    exact ⟨by decide, fun h ↦ line (Quoted.mem_of_mem_doubled h), by decide⟩
  · rw [inStyle, List.mem_cons, List.mem_append, List.mem_singleton, not_or, not_or]
    refine ⟨by decide, fun h ↦ ?_, by decide⟩
    rw [escaped, List.mem_flatMap] at h
    obtain ⟨c, -, hc⟩ := h
    cases escape : escape? c with
    | some out =>
      rw [escape, Option.getD_some] at hc
      exact absurd ((Quoted.visible_escape escape).1 _ hc) (by decide)
    | none =>
      rw [escape, Option.getD_none, List.mem_singleton] at hc
      subst hc
      cases escape

/-- What is written of a scalar on one line. -/
private theorem written_scalar {style : ScalarStyle} (column : Nat)
    (h : style = .plain ∧ cs ≠ [] ∨ style = .single ∧ '\n' ∉ cs ∨ style = .double) :
    (p.scalar style column false cs).written =
      (inStyle style cs).reverse ++ (p.gap.reverse ++ p.written) := by
  have opened (mark : Char) : (p.mark [mark]).written = mark :: (p.gap.reverse ++ p.written) := by
    rw [Pen.mark, gap]
    split <;> rfl
  rcases h with ⟨rfl, some⟩ | ⟨rfl, line⟩ | rfl
  · rw [scalar, plain, List.isEmpty_eq_false_iff.mpr some]
    simp only [Bool.false_eq_true, if_false, plainWords_false _ _ (Nat.lt_succ_self cs.length), gap]
    split <;> rfl
  · rw [scalar, single, singleParts_false _ _ _ (Nat.lt_succ_self _) line]
    show _ :: (Quoted.doubled cs).reverse ++ (p.mark [apostrophe]).written = _
    rw [opened, inStyle, List.reverse_cons, List.reverse_append]
    simp
  · rw [scalar, double, doubleChars_false]
    show _ :: ([] ++ escaped cs).reverse ++ (p.mark [quotationMark]).written = _
    rw [opened, inStyle, List.reverse_cons, List.reverse_append]
    simp

private theorem written_marks (h : ∀ m ∈ ms, IsMark m.1 m.2) (cs : List Char) :
    cs.reverse ++ ((p.marks ms).gap.reverse ++ (p.marks ms).written) =
      (marked ms cs).reverse ++ (p.gap.reverse ++ p.written) := by
  induction ms generalizing p with
  | nil => rfl
  | cons m ms ih =>
    rw [List.forall_mem_cons] at h
    have rest := ih (p := p.mark m.1) h.2
    rw [h.1.written] at rest
    rw [marked, List.foldr_cons, ← marked, List.reverse_append, List.reverse_cons]
    simpa [marks] using rest

end Pen

namespace Form

variable {anchors : List ObjectKey} {key : Option ObjectKey} {p : Pen} {f : Form}

/-- The mark of the name of an object, if it has one. -/
def nameMarks (anchors : List ObjectKey) (key : Option ObjectKey) : List (List Char × Token) :=
  (nameOf? anchors key).toList.map fun name ↦ ('&' :: name, .anchor (String.ofList name))

/-- A name is written as its mark. -/
theorem putName_eq : putName anchors key p = p.marks (nameMarks anchors key) := by
  rw [putName, nameMarks]
  cases nameOf? anchors key <;> rfl

/-- The names of objects are names. -/
theorem isName_of_nameOf? {name : List Char} (h : nameOf? anchors key = some name) :
    IsName name := by
  rw [nameOf?, Option.map_eq_some_iff] at h
  obtain ⟨i, -, rfl⟩ := h
  refine ⟨List.cons_ne_nil _ _, fun c hc ↦ ?_⟩
  rw [List.mem_append] at hc
  rcases hc with hc | hc
  · have letters : ∀ c ∈ "id".toList, isNameChar c = true ∧ IsVisible c :=
      List.all_iff_forall_prop.mp (by decide)
    exact letters c hc
  · have digit := isDigit_of_isDigitOf (isDigitOf_of_mem (by decide) hc)
    have letter : c.isDigit = true := by
      simpa [isDigit, Char.isDigit, UInt32.le_iff_toNat_le] using digit
    have range : '0'.toNat ≤ c.toNat ∧ c.toNat ≤ '9'.toNat := by simpa [isDigit] using digit
    have low : '0'.toNat = 48 := rfl
    have high : '9'.toNat = 57 := rfl
    exact ⟨by simp [isNameChar, Char.isAlphanum, letter], by omega, by omega⟩

/-- The name of an object is a mark. -/
theorem isMark_nameMarks : ∀ m ∈ nameMarks anchors key, IsMark m.1 m.2 := by
  rw [nameMarks]
  cases h : nameOf? anchors key with
  | none => exact List.forall_mem_nil _
  | some name => exact List.forall_mem_singleton.mpr (isMark_anchor (isName_of_nameOf? h))

/-- A reference or a scalar that can be read back. -/
inductive IsLeaf (anchors : List ObjectKey) : Form → Prop
  | again {key : ObjectKey} {name : List Char} (h : nameOf? anchors (some key) = some name) :
      IsLeaf anchors (.again key)
  | scalar {key : Option ObjectKey} {tag text : String} {isLiteral : Bool} (h : tag ∈ kindNames)
      (nonempty : text = "" → tag ≠ "null") : IsLeaf anchors (.scalar key tag isLiteral text)

/-- The tokens of a reference or a scalar. -/
def leafTokens (anchors : List ObjectKey) (isKey : Bool) : Form → List Token
  | .again key => [.alias (String.ofList ((nameOf? anchors (some key)).getD []))]
  | .scalar key tag isLiteral text =>
    (nameMarks anchors key).map (·.2) ++ scalarTokens isKey tag isLiteral text
  | _ => []

/-- The characters of a key on the line of its value. -/
def keyChars (anchors : List ObjectKey) : Form → List Char
  | .again key => '*' :: (nameOf? anchors (some key)).getD []
  | .scalar key tag isLiteral text =>
    Pen.marked (nameMarks anchors key ++ scalarMarks true tag isLiteral text)
      (Pen.inStyle (style true tag isLiteral text) text.toList)
  | _ => []

/-- The style of a key on the line of its value allows its text. -/
theorem style_key {tag text : String} {isLiteral : Bool} (h : tag ∈ kindNames)
    (nonempty : text = "" → tag ≠ "null") :
    (style true tag isLiteral text = .plain ∧ IsPlain text.toList) ∨
      (style true tag isLiteral text = .single ∧ (Analysis.of text.toList).allowsSingle = true ∧
        '\n' ∉ text.toList) ∨
      style true tag isLiteral text = .double := by
  have literal : isLiteral = true → true = true := fun _ ↦ rfl
  rcases style_cases h nonempty literal with plain | ⟨single, allowed, line⟩ | double
  · exact .inl plain
  · refine .inr (.inl ⟨single, allowed, fun feed ↦ ?_⟩)
    have multiline := line rfl
    obtain ⟨c, cs, heq⟩ := List.exists_cons_of_ne_nil (List.ne_nil_of_mem feed)
    rw [heq] at feed multiline
    exact absurd rfl (List.any_eq_false.mp multiline '\n' feed)
  · exact .inr (.inr double)

/-- A key that is a scalar is written as marks and a text. -/
theorem put_scalar (key : Option ObjectKey) (tag text : String) (isLiteral : Bool) (column : Nat)
    (p : Pen) : (Form.scalar key tag isLiteral text).put anchors (some column) .key p =
      (p.marks (nameMarks anchors key ++ scalarMarks true tag isLiteral text)).scalar
        (style true tag isLiteral text) (column + indentWidth) false text.toList := by
  rw [put, putName_eq, decide_eq_true rfl, putScalar_eq, Pen.marks, Pen.marks, Pen.marks,
    List.foldl_append]
  rfl

/-- The name and the tag of a scalar are marks. -/
theorem isMark_scalar {tag : String} (h : tag ∈ kindNames) {isKey isLiteral : Bool}
    {text : String} :
    ∀ m ∈ nameMarks anchors key ++ scalarMarks isKey tag isLiteral text, IsMark m.1 m.2 :=
  List.forall_mem_append.mpr ⟨isMark_nameMarks, isMark_scalarMarks h⟩

/-- A key on the line of its value is cut into its tokens. -/
theorem isLexed_key (h : f.IsLeaf anchors) (placed : p.IsPlaced) (column : Nat) :
    p.IsLexed AtColon (f.put anchors (some column) .key p) (f.leafTokens anchors true) := by
  cases h with
  | @again key name h =>
    have named := isName_of_nameOf? h
    rw [put, leafTokens, h, Option.getD_some]
    refine ⟨'*' :: name, Pen.writes_mark ?_, fun ahead _ ↦ ?_,
      (lexes_alias named).mono fun _ ↦ .inr⟩
    · rw [List.forall_mem_cons]
      exact ⟨by decide, fun c hc ↦
        ⟨(named.2 c hc).2.isOrdinary, (named.2 c hc).2.ne (by decide)⟩⟩
    · exact .cons (by decide) (by decide) (by decide) (by decide) _
  | @scalar key tag text isLiteral h nonempty =>
    rw [put_scalar, leafTokens, scalarTokens, ← List.append_assoc, ← List.map_append]
    have marks := @isMark_scalar anchors key _ h true isLiteral text
    apply Pen.IsLexed.of_marks marks
    have placed := (Pen.placed_marks marks placed).1
    have positive : 0 < column + indentWidth := Nat.add_pos_right _ (by decide)
    have same : String.ofList text.toList = text := String.ofList_toList
    rcases style_key h nonempty with ⟨plain, isPlain⟩ | ⟨single, allowed, -⟩ | double
    · rw [plain]
      have lexed := Pen.isLexed_plain isPlain placed (column + indentWidth)
      rw [same] at lexed
      exact lexed
    · rw [single]
      have marked := Pen.isMarked_single positive (absurd · Bool.false_ne_true) allowed
        (p.marks (nameMarks anchors key ++ scalarMarks true tag isLiteral text))
      have lexed := marked.isLexed (.inl rfl)
      rw [same] at lexed
      exact lexed.mono fun _ ↦ .inr
    · rw [double]
      have marked := Pen.isMarked_double positive (absurd · Bool.false_ne_true) text.toList
        (p.marks (nameMarks anchors key ++ scalarMarks true tag isLiteral text))
      have lexed := marked.isLexed (.inr rfl)
      rw [same] at lexed
      exact lexed.mono fun _ ↦ .inr

/-- What is written of a key on the line of its value. -/
theorem written_key (h : f.IsLeaf anchors) (column : Nat) :
    (f.put anchors (some column) .key p).written =
      (f.keyChars anchors).reverse ++ (p.gap.reverse ++ p.written) := by
  cases h with
  | @again key name h =>
    rw [put, keyChars, Pen.mark, Pen.gap]
    split <;> simp [Pen.inText, Pen.put]
  | @scalar key tag text isLiteral h nonempty =>
    rw [put_scalar, keyChars, ← Pen.written_marks (isMark_scalar h)]
    apply Pen.written_scalar
    rcases style_key h nonempty with ⟨plain, isPlain⟩ | ⟨single, -, line⟩ | double
    · exact .inl ⟨plain, isPlain.nonempty⟩
    · exact .inr (.inl ⟨single, line⟩)
    · exact .inr (.inr double)

/-- A key on the line of its value has no breaks. -/
theorem line_key (h : f.IsLeaf anchors) :
    '\n' ∉ f.keyChars anchors := by
  cases h with
  | @again key name h =>
    rw [keyChars, h, Option.getD_some, List.mem_cons, not_or]
    exact ⟨by decide, fun hc ↦ absurd ((isName_of_nameOf? h).2 _ hc).2 (by decide)⟩
  | @scalar key tag text isLiteral h nonempty =>
    refine Pen.line_marked (isMark_scalar h) (Pen.line_inStyle ?_)
    rcases style_key h nonempty with ⟨plain, isPlain⟩ | ⟨single, -, line⟩ | double
    · exact .inl ⟨plain, fun feed ↦ (isPlain.printable _ feed).2 rfl⟩
    · exact .inr (.inl ⟨single, line⟩)
    · exact .inr (.inr double)

end Form

end EntityGraph.Yaml
