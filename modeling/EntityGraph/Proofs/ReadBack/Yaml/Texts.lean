import EntityGraph.Proofs.ReadBack.Yaml.Trees

/-!
# Texts of trees

A tree of nodes that is not too deep is cut into its tokens, and so is the text of a document: the
tokens of its mapping and the end of the text. Deeper than the width of a line, a text in double
marks is broken where it cannot be read back.
-/

namespace EntityGraph.Yaml

open EntityGraph.Text Analysis Cursor Token.Cut

namespace Form

variable {anchors : List ObjectKey} {key : Option ObjectKey} {tag : String} {f : Form}
  {items : List Form} {entries : List (Form × Form)} {column room : Nat} {place : Place}

/-- Whether a node is a scalar that is written as a literal. -/
def isLiteral : Form → Bool
  | .scalar _ _ isLiteral _ => isLiteral
  | _ => false

/-- A key that can be read back: a reference or a scalar, which is near enough to its colon where
they are on one line. -/
structure IsSafeKey (anchors : List ObjectKey) (k : Form) : Prop where
  leaf : k.IsLeaf anchors
  notLiteral : k.isLiteral = false
  short : k.isSimple anchors = true → (k.keyChars anchors).length ≤ keyLength

/-- A node with room for so many levels that can be read back. -/
inductive IsSafe (anchors : List ObjectKey) : Nat → Form → Prop
  | leaf {room : Nat} {f : Form} (h : f.IsLeaf anchors) (notLiteral : f.isLiteral = false) :
      IsSafe anchors room f
  | seq {room : Nat} (key : Option ObjectKey) {tag : String} {items : List Form}
      (htag : tag ∈ kindNames ++ unknownNames) (h : ∀ f ∈ items, IsSafe anchors room f) :
      IsSafe anchors (room + 1) (.seq key tag items)
  | map {room : Nat} (key : Option ObjectKey) {tag : String} {entries : List (Form × Form)}
      (htag : tag ∈ kindNames ++ unknownNames) (keys : ∀ e ∈ entries, e.1.IsSafeKey anchors)
      (values : ∀ e ∈ entries, IsSafe anchors room e.2) :
      IsSafe anchors (room + 1) (.map key tag entries)

/-- A leaf is cut into its tokens unless the column is too far. -/
theorem IsLeaf.isCut (h : f.IsLeaf anchors) (notLiteral : f.isLiteral = false)
    (narrow : column + indentWidth < lineWidth) (hplace : place ≠ .key) :
    f.IsCut anchors column place := by
  cases h with
  | again named => exact isCut_again named column place
  | @scalar key tag text isLiteral htag nonempty =>
    obtain rfl : isLiteral = false := notLiteral
    exact isCut_scalar htag nonempty key narrow hplace

/-- A safe key is cut in a column that is not too far. -/
theorem IsSafeKey.isKeyCut (h : f.IsSafeKey anchors) (narrow : column + indentWidth < lineWidth) :
    f.IsKeyCut anchors column :=
  ⟨fun _ ↦ h.leaf, h.short, fun _ ↦ h.leaf.isCut h.notLiteral narrow nofun⟩

private theorem IsSafe.isCut (h : f.IsSafe anchors room)
    (narrow : column + indentWidth * room + indentWidth < lineWidth) (hplace : place ≠ .key) :
    f.IsCut anchors column place := by
  induction h generalizing column place with
  | leaf h notLiteral => exact h.isCut notLiteral (by omega) hplace
  | seq key htag h ih =>
    rw [indentWidth] at narrow
    exact isCut_seq htag (fun f hf ↦ ⟨ih f hf (by rw [indentWidth]; omega) (by decide),
      ih f hf (by rw [indentWidth]; omega) (by decide)⟩) key
  | map key htag keys values ih =>
    rw [indentWidth] at narrow
    exact isCut_map htag (fun e he ↦ ⟨(keys e he).isKeyCut (by rw [indentWidth]; omega),
      ih e he (by rw [indentWidth]; omega) (by decide)⟩) key

end Form

namespace Token

private theorem ends_on {w : List Char} {tokens : List Token} (fresh : columnOf w = 0) :
    Ends (on ⟨tokens, 0, [-1]⟩ w [] true) (tokens.reverse ++ [.blockEnd, .streamEnd]) := by
  have here := @here_place w [] tokens 0 [-1] true [] .nil
  have next := @next_place w [] tokens 0 [-1] true [] .nil (List.forall_mem_nil _)
  have stays : (on ⟨tokens, 0, [-1]⟩ w [] true).unindent (behind w []).column =
      on ⟨tokens, 0, [-1]⟩ w [] true :=
    closeBlocks_of_le (by rw [show (behind w []).column = 0 from fresh]; exact Int.le_refl _) _
  have closed : (on ⟨tokens, 0, [-1]⟩ w [] true).take =
      .ok (on ⟨.streamEnd :: .blockEnd :: tokens, -1, []⟩ w [] true) := rfl
  have ended := Ends.last (s := on ⟨tokens, 0, [-1]⟩ w [] true)
    (by rw [on, here]; rfl) (next.trans ((congrArg take stays).trans closed))
  simpa [on, place] using ended

/-- A text is cut into the tokens that reading it from its start ends with. -/
private theorem ofChars_eq {cs : List Char} {ts : List Token}
    (ordinary : ∀ c ∈ cs, isOrdinary c = true)
    (h : Ends (on ⟨[], -1, []⟩ [] cs true) ts) : ofChars cs = ts := by
  have allowed : cs.all isAllowed = true :=
    List.all_eq_true.mpr fun c hc ↦ isAllowed_of_isOrdinary (ordinary c hc)
  have unmarked : (Cursor.start cs).sees byteOrderMark = false := by
    cases cs with
    | nil => rfl
    | cons c cs =>
      exact decide_eq_false fun h ↦ ne_byteOrderMark (ordinary c List.mem_cons_self)
        (Option.some.inj h)
  have started : Cut.start cs = on ⟨[], -1, []⟩ [] cs true := by
    rw [Cut.start]
    simp only [unmarked, Bool.false_eq_true, if_false]
    rfl
  rw [ofChars, if_pos allowed, started]
  exact h.run_eq (by
    show cs.length < cs.length + 2
    omega)

end Token

namespace Form

variable {entries : List (Form × Form)} {room : Nat}

/-- The text of a document is cut into the tokens of its mapping. -/
theorem ofChars_text (nonempty : entries ≠ [])
    (keys : ∀ e ∈ entries, e.1.IsSafeKey (Form.map none "map" entries).anchors)
    (values : ∀ e ∈ entries, e.2.IsSafe (Form.map none "map" entries).anchors room)
    (narrow : indentWidth * room + indentWidth < lineWidth) :
    Token.ofChars (Form.map none "map" entries).text.toList =
      (Form.map none "map" entries).tokens (Form.map none "map" entries).anchors .entry true ++
        [.streamEnd] := by
  let f := Form.map none "map" entries
  have some : entries.isEmpty = false := List.isEmpty_eq_false_iff.mpr nonempty
  have fresh : Pen.start.IsFresh 0 := ⟨Pen.isPlaced_start, rfl, rfl, rfl⟩
  have put : f.put f.anchors none .entry .start = putEntries f.anchors 0 entries .start := by
    rw [Form.put]
    simp only [some, Bool.false_eq_true, if_false]
    rfl
  obtain ⟨out, goesOn, writes, reads⟩ := exists_entries (fun e he ↦
    ⟨(keys e he).isKeyCut (by omega), (values e he).isCut (by omega) (by decide)⟩) nonempty
    Pen.start 0 fresh (Nat.le_refl _)
  have written : (f.text).toList = out := by
    rw [text, Pen.text, put, writes.written, String.toList_ofList, List.reverse_append]
    simp [Pen.start]
  have last : columnOf ((putEntries f.anchors 0 entries .start).indent 0).written = 0 :=
    (Pen.isFresh_indent (writes.placed Pen.isPlaced_start)).columnOf_eq
  have start := reads ⟨[], -1, []⟩ [] (by decide) .nil
  rw [List.append_nil] at start
  have tokens : f.tokens f.anchors .entry true ++ [.streamEnd] =
      ((Token.blockMapStart :: entryTokens f.anchors entries).reverse).reverse ++
        [.blockEnd, .streamEnd] := by
    have unnamed : collectionMarks f.anchors none "map" "map" = [] := rfl
    rw [Form.tokens]
    simp [some, unnamed]
  rw [written, tokens]
  refine Token.ofChars_eq writes.ordinary (start _ ?_)
  have ended := @Token.ends_on _ ((Token.blockMapStart :: entryTokens f.anchors entries).reverse)
    last
  simpa [Level.enter, Level.push] using ended

end Form

end EntityGraph.Yaml
