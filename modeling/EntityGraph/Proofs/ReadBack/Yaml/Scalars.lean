import EntityGraph.Proofs.ReadBack.Yaml.Layout

/-!
# Scalars read back

The tokens of a scalar: its tag, if it is not the one that its style stands for, and its text. A
scalar on the line of a value is cut in front of the colon behind it.
-/

namespace EntityGraph.Yaml

open EntityGraph.Text Analysis Cursor Token Token.Cut Plain

/-- The names of the kinds that are read as values. -/
def kindNames : List String :=
  ["null", "bool", "int", "float", "timestamp", "str", "binary", "seq", "map", "set"]

/-- The names of kinds of collections that are not known. -/
def unknownNames : List String :=
  ["python/tuple", Form.callTag "builtins.frozenset", Form.callTag "builtins.bytearray",
    Form.callTag "decimal.Decimal", "python/object:uuid.UUID"]

private theorem tagText_of_mem : ∀ tag ∈ kindNames ++ unknownNames,
    Form.tagText tag = '!' :: '!' :: tag.toList ∧ IsKind tag.toList := by
  decide +kernel

/-- The token of a tag. -/
def tagToken (tag : String) : Token := .tag ⟨some "!!", tag⟩

/-- The tag of a kind is a mark. -/
theorem isMark_tagText {tag : String} (h : tag ∈ kindNames ++ unknownNames) :
    IsMark (Form.tagText tag) (tagToken tag) := by
  obtain ⟨text, kind⟩ := tagText_of_mem tag h
  have mark := isMark_tag kind
  rwa [← text, String.ofList_toList] at mark

namespace Form

/-- Whether a scalar without a tag would be of its kind. -/
def isRecognised (tag text : String) : Bool :=
  Tag.ofName (Tag.root ++ tag) ≠ .other && Tag.ofPlain text = Tag.ofName (Tag.root ++ tag)

/-- The style that a scalar is written in. -/
def style (isKey : Bool) (tag : String) (isLiteral : Bool) (text : String) : ScalarStyle :=
  ScalarStyle.choose isKey isLiteral (isRecognised tag text) text

/-- Whether the style of a scalar stands for its kind. -/
def isImplied (isKey : Bool) (tag : String) (isLiteral : Bool) (text : String) : Bool :=
  if style isKey tag isLiteral text = .plain then isRecognised tag text else tag = "str"

/-- The tag of a scalar, if it is written. -/
def scalarMarks (isKey : Bool) (tag : String) (isLiteral : Bool) (text : String) :
    List (List Char × Token) :=
  if isImplied isKey tag isLiteral text then [] else [(tagText tag, tagToken tag)]

/-- The tokens of a scalar. -/
def scalarTokens (isKey : Bool) (tag : String) (isLiteral : Bool) (text : String) : List Token :=
  (scalarMarks isKey tag isLiteral text).map (·.2) ++
    [.scalar (style isKey tag isLiteral text = .plain) text]

variable {column : Nat} {isKey isLiteral : Bool} {tag text : String} {p : Pen}

/-- A scalar is written behind its tag. -/
theorem putScalar_eq : putScalar (some column) isKey tag isLiteral text p =
    (p.marks (scalarMarks isKey tag isLiteral text)).scalar (style isKey tag isLiteral text)
      (column + indentWidth) (!isKey) text.toList := by
  have marked : p.marks (scalarMarks isKey tag isLiteral text) =
      if isImplied isKey tag isLiteral text then p else p.mark (tagText tag) := by
    rw [scalarMarks]
    split <;> rfl
  rw [marked]
  rfl

/-- The tag is a mark. -/
theorem isMark_scalarMarks (h : tag ∈ kindNames) :
    ∀ m ∈ scalarMarks isKey tag isLiteral text, IsMark m.1 m.2 := by
  rw [scalarMarks]
  split
  · exact List.forall_mem_nil _
  · exact List.forall_mem_singleton.mpr (isMark_tagText (List.mem_append_left _ h))

/-- A scalar that is a key or no literal is written plainly or in marks, as its text allows. -/
theorem style_cases (h : tag ∈ kindNames) (nonempty : text = "" → tag ≠ "null")
    (literal : isLiteral = true → isKey = true) :
    (style isKey tag isLiteral text = .plain ∧ IsPlain text.toList) ∨
      (style isKey tag isLiteral text = .single ∧ (Analysis.of text.toList).allowsSingle = true ∧
        (isKey = true → (Analysis.of text.toList).isMultiline = false)) ∨
      style isKey tag isLiteral text = .double := by
  rw [style, ScalarStyle.choose]
  by_cases hliteral : isLiteral = true
  · simp [hliteral, literal hliteral]
  simp only [hliteral, Bool.false_eq_true, if_false]
  split
  · next plain =>
    simp only [Bool.and_eq_true] at plain
    refine .inl ⟨rfl, isPlain_of_allowsPlain plain.1.2 fun empty ↦ ?_⟩
    have empty : text = "" := String.toList_eq_nil_iff.mp empty
    have kinds : ∀ tag ∈ kindNames, isRecognised tag "" = true → tag = "null" := by
      decide +kernel
    exact nonempty empty (kinds tag h (empty ▸ plain.1.1))
  · split
    · next single =>
      simp only [Bool.and_eq_true, Bool.not_eq_true', Bool.and_eq_false_iff] at single
      exact .inr (.inl ⟨rfl, single.1, fun key ↦ single.2.resolve_left (by simp [key])⟩)
    · exact .inr (.inr rfl)

/-- A value that is no literal is cut into its tokens at the end of its line. -/
theorem isClosed_scalar (h : tag ∈ kindNames) (nonempty : text = "" → tag ≠ "null")
    (placed : p.IsPlaced) (before : column ≤ p.column) (narrow : column + indentWidth < lineWidth) :
    p.IsClosed column (putScalar (some column) false tag false text p)
      (scalarTokens false tag false text) := by
  have marks := @isMark_scalarMarks false false _ text h
  rw [putScalar_eq, scalarTokens]
  apply Pen.IsClosed.of_marks marks
  obtain ⟨placed, further⟩ := Pen.placed_marks marks placed
  have positive : 0 < column + indentWidth := Nat.add_pos_right _ (by decide)
  have same : String.ofList text.toList = text := String.ofList_toList
  have literal : false = true → false = true := id
  rcases style_cases h nonempty literal with ⟨plain, isPlain⟩ | ⟨single, allowed, -⟩ | double
  · rw [plain]
    have closed := Pen.isClosed_plain isPlain placed true (before.trans further)
    rw [same] at closed
    exact closed
  · rw [single]
    have marked := Pen.isMarked_single positive (fun _ : true = true ↦ Nat.le_of_lt narrow) allowed
      (p.marks (scalarMarks false tag false text))
    have lexed := marked.isLexed (.inl rfl)
    rw [same] at lexed
    exact (lexed.mono fun _ ↦ .inl).isClosed rfl
  · rw [double]
    have marked := Pen.isMarked_double positive (fun _ : true = true ↦ narrow) text.toList
      (p.marks (scalarMarks false tag false text))
    have lexed := marked.isLexed (.inr rfl)
    rw [same] at lexed
    exact (lexed.mono fun _ ↦ .inl).isClosed rfl

end Form

end EntityGraph.Yaml
