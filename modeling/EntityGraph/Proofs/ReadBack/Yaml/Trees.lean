import EntityGraph.Proofs.ReadBack.Yaml.Keys

/-!
# Trees of nodes

The tokens of a tree of nodes, as the text of the tree is cut into. A collection is a block in a
column further on, but a sequence may start in the column of the mapping around it. By induction on
the tree, every node is cut into its tokens up to the start of the next line.
-/

namespace EntityGraph.Yaml

open EntityGraph.Text Analysis Cursor Token.Cut Plain

namespace Form

/-! ### Tokens -/

/-- The name and the tag of a collection. -/
def collectionMarks (anchors : List ObjectKey) (key : Option ObjectKey) (tag default : String) :
    List (List Char × Token) :=
  nameMarks anchors key ++ if tag = default then [] else [(tagText tag, tagToken tag)]

mutual

/-- The tokens of a node in a place, which may be one of a line on which nothing else is but marks
of entries. -/
def tokens (anchors : List ObjectKey) (place : Place) (isIndenting : Bool) : Form → List Token
  | .seq key tag items =>
    let ms := collectionMarks anchors key tag "seq"
    ms.map (·.2) ++
      if items.isEmpty then [.flowSeqStart, .flowSeqEnd]
      else if place ≠ .entry && !(isIndenting && ms.isEmpty) then itemTokens anchors items
      else .blockSeqStart :: (itemTokens anchors items ++ [.blockEnd])
  | .map key tag entries =>
    (collectionMarks anchors key tag "map").map (·.2) ++
      if entries.isEmpty then [.flowMapStart, .flowMapEnd]
      else .blockMapStart :: (entryTokens anchors entries ++ [.blockEnd])
  | .scalar key tag isLiteral text =>
    leafTokens anchors (place = .key) (.scalar key tag isLiteral text)
  | .again key => leafTokens anchors (place = .key) (.again key)

/-- The tokens of the entries of a sequence. -/
def itemTokens (anchors : List ObjectKey) : List Form → List Token
  | [] => []
  | f :: fs => .blockEntry :: (f.tokens anchors .entry true ++ itemTokens anchors fs)

/-- The tokens of the entries of a mapping. -/
def entryTokens (anchors : List ObjectKey) : List (Form × Form) → List Token
  | [] => []
  | (k, v) :: es =>
    let simple := k.isSimple anchors
    .key :: (k.tokens anchors (if simple then .key else .pair) true ++
      .value :: (v.tokens anchors .pair (!simple) ++ entryTokens anchors es))

end

variable {anchors : List ObjectKey} {key : Option ObjectKey} {tag default : String} {f : Form}
  {items : List Form} {entries : List (Form × Form)} {column : Nat} {place : Place}

private theorem tokens_leaf (h : f.IsLeaf anchors) (place : Place) (isIndenting : Bool) :
    f.tokens anchors place isIndenting = f.leafTokens anchors (place = .key) := by
  cases h <;> rw [tokens]

/-- A name and a tag are written as marks. -/
theorem putTag_eq (p : Pen) : putTag tag default (putName anchors key p) =
    p.marks (collectionMarks anchors key tag default) := by
  rw [putName_eq, putTag, collectionMarks]
  split
  · rw [List.append_nil]
  · rw [Pen.marks, Pen.marks, List.foldl_append]
    rfl

/-- The name and the tag of a collection are marks. -/
theorem isMark_collectionMarks (h : tag ∈ kindNames ++ unknownNames) :
    ∀ m ∈ collectionMarks anchors key tag default, IsMark m.1 m.2 := by
  rw [collectionMarks, List.forall_mem_append]
  refine ⟨isMark_nameMarks, ?_⟩
  split
  · exact List.forall_mem_nil _
  · exact List.forall_mem_singleton.mpr (isMark_tagText h)

end Form

namespace Pen

/-- A pen stands where a node of a collection at a column starts. -/
structure Starts (column : Nat) (p : Pen) : Prop where
  placed : p.IsPlaced
  spaced : p.isSpaced = false
  inside : column < p.column
  indenting : p.isIndenting = true → p.column = column + 1

/-- A node starts further on than the collection. -/
theorem Starts.behind_space {column : Nat} {p : Pen} (h : p.Starts column) :
    column < columnOf (' ' :: p.written) := by
  have line : '\n' ∉ [' '] := by decide
  have further := columnOf_append (w := p.written) line
  have placed : columnOf p.written = p.column := h.placed.symm
  show column < columnOf ([' '].reverse ++ p.written)
  rw [further, placed]
  exact Nat.lt_add_left _ h.inside

/-- A pen stands in a column of a fresh line, or of a line on which nothing else is but marks of
entries. -/
structure IsFresh (column : Nat) (p : Pen) : Prop where
  placed : p.IsPlaced
  column_eq : p.column = column
  spaced : p.isSpaced = true
  indenting : p.isIndenting = true

variable {p q : Pen} {column : Nat}

/-- A pen that goes to a column stands there. -/
theorem isFresh_indent {column : Nat} (placed : (p.indent column).IsPlaced) :
    (p.indent column).IsFresh column := by
  by_cases h : p.Breaks column
  · obtain ⟨-, hcolumn, spaced, indenting⟩ := indent_of_breaks h
    exact ⟨placed, hcolumn, spaced, indenting⟩
  · obtain ⟨-, hcolumn, spaced, indenting⟩ := indent_of_not_breaks h
    exact ⟨placed, hcolumn, spaced, indenting⟩

namespace IsFresh

variable (h : p.IsFresh column)

include h

/-- A pen that stands in a column stays there. -/
theorem indent_eq : p.indent column = p := by
  have stays : ¬ p.Breaks column := by
    simp [Breaks, h.indenting, h.column_eq, h.spaced]
  rw [Pen.indent_eq]
  simp only [if_neg stays, h.column_eq, Nat.lt_irrefl, if_false]

/-- The column of a reader there. -/
theorem columnOf_eq : columnOf p.written = column := h.placed.symm.trans h.column_eq

/-- The mark of an entry is written there, and a node starts behind it. -/
theorem starts (mark : Char) (visible : IsVisible mark) :
    p.Writes [mark] (p.markEntry [mark]) ∧ (p.markEntry [mark]).Starts column ∧
      (p.markEntry [mark]).isIndenting = true := by
  have writes : p.Writes [mark] (p.markEntry [mark]) := by
    have writes := @writes_mark p [mark]
      (List.forall_mem_singleton.mpr ⟨visible.isOrdinary, visible.ne (by decide)⟩)
    rw [gap, if_pos h.spaced] at writes
    exact writes.of_eq rfl rfl
  have further : (p.markEntry [mark]).column = column + 1 := by
    rw [← h.column_eq, markEntry, Pen.mark, if_pos h.spaced]
    rfl
  exact ⟨writes, ⟨writes.placed h.placed, rfl, by omega, fun _ ↦ further⟩, h.indenting⟩

end IsFresh

end Pen

namespace Form

/-! ### Nodes -/

variable {anchors : List ObjectKey} {key : Option ObjectKey} {tag default : String} {f : Form}
  {items : List Form} {entries : List (Form × Form)} {column : Nat} {place : Place}

/-- A node in a collection at a column is cut into its tokens, up to the start of a line that does
not belong to it. -/
def IsCut (anchors : List ObjectKey) (column : Nat) (place : Place) (f : Form) : Prop :=
  ∀ (p : Pen) (k : Nat), p.Starts column → k ≤ column →
    ∃ out, Blank out ∧ p.Writes out ((f.put anchors (some column) place p).indent k) ∧
      ∀ (l : Level) ahead, l.indent = column → GoesOn ahead →
        Reads (on l p.written (out ++ ahead) p.isIndenting)
          (on (l.push (f.tokens anchors place p.isIndenting))
            ((f.put anchors (some column) place p).indent k).written ahead true)

/-- What a line ends behind is cut so. -/
theorem isCut_of_isClosed (h : ∀ p : Pen, p.Starts column →
    p.IsClosed column (f.put anchors (some column) place p)
      (f.tokens anchors place p.isIndenting)) : f.IsCut anchors column place := by
  intro p k starts inside
  obtain ⟨out, writes, goesOn', closes⟩ := h p starts
  have gap : p.gap = [' '] := by rw [Pen.gap, starts.spaced]; rfl
  rw [gap] at writes closes
  have writes := writes k
  refine ⟨' ' :: (out ++ '\n' :: List.replicate k ' '), ⟨' ', _, rfl, .inl rfl⟩, writes,
    fun l ahead indent goesOn ↦ ?_⟩
  have spaces := @reads_spaces p.written _ l.tokens l.indent l.outer p.isIndenting [] 1
    (goesOn' (List.replicate k ' ' ++ ahead))
  have rest := closes ahead l.tokens l.outer p.isIndenting [] k goesOn inside starts.behind_space
    (fun _ ↦ rfl)
    (List.forall_mem_nil _)
  rw [← indent] at rest
  have whole := spaces.trans rest
  rw [writes.written]
  simpa [on, Level.push] using whole

/-- A reference is cut so. -/
theorem isCut_again {key : ObjectKey} {name : List Char}
    (h : nameOf? anchors (some key) = some name)
    (column : Nat) (place : Place) : (Form.again key).IsCut anchors column place := by
  refine isCut_of_isClosed fun p _ ↦ ?_
  have named := isName_of_nameOf? h
  rw [put, tokens, leafTokens, h, Option.getD_some]
  refine Pen.IsLexed.isClosed ⟨'*' :: name, Pen.writes_mark ?_, fun ahead _ ↦ ?_,
    (lexes_alias named).mono fun _ ↦ .inl⟩ rfl
  · rw [List.forall_mem_cons]
    exact ⟨by decide, fun c hc ↦ ⟨(named.2 c hc).2.isOrdinary, (named.2 c hc).2.ne (by decide)⟩⟩
  · exact .cons (by decide) (by decide) (by decide) (by decide) _

/-- A scalar is cut so, as a value or as a key with lines of its own. -/
theorem isCut_scalar {text : String} (h : tag ∈ kindNames) (nonempty : text = "" → tag ≠ "null")
    (key : Option ObjectKey) (narrow : column + indentWidth < lineWidth) (hplace : place ≠ .key) :
    (Form.scalar key tag false text).IsCut anchors column place := by
  refine isCut_of_isClosed fun p starts ↦ ?_
  rw [put, tokens, leafTokens, decide_eq_false hplace, putName_eq]
  apply Pen.IsClosed.of_marks isMark_nameMarks
  obtain ⟨placed, further⟩ := Pen.placed_marks isMark_nameMarks starts.placed
  exact isClosed_scalar h nonempty placed ((Nat.le_of_lt starts.inside).trans further) narrow

/-! ### Collections -/

/-- A pen goes to the first of some entries by itself. -/
theorem putItems_indent (nonempty : items ≠ []) {p : Pen} (h : (p.indent column).IsFresh column) :
    putItems anchors column items (p.indent column) = putItems anchors column items p := by
  obtain ⟨f, fs, rfl⟩ := List.exists_cons_of_ne_nil nonempty
  rw [putItems, putItems, h.indent_eq]

/-- A pen goes to the first of some entries by itself. -/
theorem putEntries_indent (nonempty : entries ≠ []) {p : Pen}
    (h : (p.indent column).IsFresh column) :
    putEntries anchors column entries (p.indent column) = putEntries anchors column entries p := by
  obtain ⟨⟨k, v⟩, es, rfl⟩ := List.exists_cons_of_ne_nil nonempty
  rw [putEntries, putEntries, h.indent_eq]

/-- A pen stands in a column behind a node. -/
theorem IsCut.isFresh (h : f.IsCut anchors column place) {p : Pen} (starts : p.Starts column) :
    ((f.put anchors (some column) place p).indent column).IsFresh column := by
  obtain ⟨out, -, writes, -⟩ := h p column starts (Nat.le_refl _)
  exact Pen.isFresh_indent (writes.placed starts.placed)

/-- The entries of a sequence are cut into their tokens. -/
private theorem exists_items (h : ∀ f ∈ items, f.IsCut anchors column .entry)
    (nonempty : items ≠ []) (p : Pen) (k : Nat) (fresh : p.IsFresh column) (hk : k ≤ column) :
    ∃ out, (∀ more, GoesOn (out ++ more)) ∧
      p.Writes out ((putItems anchors column items p).indent k) ∧
      ∀ (l : Level) ahead, l.indent ≤ column → GoesOn ahead →
        Reads (on l p.written (out ++ ahead) true)
          (on ((l.enter .blockSeqStart column).push (itemTokens anchors items))
            ((putItems anchors column items p).indent k).written ahead true) := by
  induction items generalizing p with
  | nil => exact absurd rfl nonempty
  | cons f fs ih =>
    rw [List.forall_mem_cons] at h
    have mark : ('-', Token.blockEntry, Token.blockSeqStart) ∈ blockMarks := by
      simp [blockMarks]
    obtain ⟨writes, starts, indenting⟩ := fresh.starts '-' (by decide)
    have marked (l : Level) (inside : l.indent ≤ column) (more : List Char) (blank : Blank more) :=
      reads_mark (w := p.written) mark blank (fresh.columnOf_eq.symm ▸ inside)
    rw [fresh.columnOf_eq] at marked
    have cut := h.1 (p.markEntry ['-'])
    rw [indenting, writes.written] at cut
    rw [putItems, fresh.indent_eq]
    cases fs with
    | nil =>
      obtain ⟨out, blank, writes', reads⟩ := cut k starts hk
      refine ⟨'-' :: out, fun more ↦ goesOn_mark mark (blank.append more), writes.trans writes',
        fun l ahead inside goesOn ↦ ?_⟩
      have whole := (marked l inside _ (blank.append ahead)).trans
        (reads _ ahead (Level.indent_enter inside) goesOn)
      simpa [itemTokens, putItems] using whole
    | cons g gs =>
      have fresh' := h.1.isFresh starts
      obtain ⟨out', goesOn', writes₂, reads₂⟩ := ih h.2 (List.cons_ne_nil _ _) _ fresh'
      rw [putItems_indent (List.cons_ne_nil _ _) fresh'] at writes₂ reads₂
      obtain ⟨out, blank, writes₁, reads₁⟩ := cut column starts (Nat.le_refl _)
      refine ⟨'-' :: (out ++ out'), fun more ↦ goesOn_mark mark ((blank.append out').append more),
        writes.trans (writes₁.trans writes₂), fun l ahead inside goesOn ↦ ?_⟩
      have enters : ((l.enter .blockSeqStart column).push
          (.blockEntry :: f.tokens anchors .entry true)).indent = column :=
        Level.indent_enter inside
      have first := (marked l inside _ (blank.append (out' ++ ahead))).trans
        (reads₁ _ _ enters (goesOn' ahead))
      have rest := reads₂ ((l.enter .blockSeqStart column).push
        (.blockEntry :: f.tokens anchors .entry true)) ahead (Int.le_of_eq enters) goesOn
      rw [Level.enter_of_eq enters] at rest
      have whole := first.trans (by simpa using rest)
      simpa [itemTokens, putItems] using whole

/-- The pen behind a key, where its value starts. -/
def behindKey (anchors : List ObjectKey) (column : Nat) (k : Form) (p : Pen) : Pen :=
  if k.isSimple anchors then (k.put anchors (some column) .key p).markClose [':']
  else ((k.put anchors (some column) .pair (p.markEntry ['?'])).indent column).markEntry [':']

/-- The place of a key: on the line of its value, or not. -/
def keyPlace (anchors : List ObjectKey) (k : Form) : Place :=
  if k.isSimple anchors then .key else .pair

/-- A key that can be read back: on the line of its value it has not too many characters, and else
it is cut as a node. -/
structure IsKeyCut (anchors : List ObjectKey) (column : Nat) (k : Form) : Prop where
  leaf : k.isSimple anchors = true → k.IsLeaf anchors
  short : k.isSimple anchors = true → (k.keyChars anchors).length ≤ keyLength
  cut : k.isSimple anchors = false → k.IsCut anchors column .pair

/-- A key on the line of its value is cut into its tokens and that of the value. -/
private theorem exists_key_of_simple {k : Form} (leaf : k.IsLeaf anchors)
    (short : (k.keyChars anchors).length ≤ keyLength) {p : Pen} (fresh : p.IsFresh column) :
    ((k.put anchors (some column) .key p).markClose [':']).Starts column ∧
      ∃ out, (∀ more, Blank more → GoesOn (out ++ more)) ∧
        p.Writes out ((k.put anchors (some column) .key p).markClose [':']) ∧
        ∀ (l : Level) ahead, l.indent ≤ column → Blank ahead →
          Reads (on l p.written (out ++ ahead) true)
            (on ((l.enter .blockMapStart column).push
                (.key :: (k.leafTokens anchors true ++ [.value])))
              ((k.put anchors (some column) .key p).markClose [':']).written ahead false) := by
  have gap : p.gap = [] := by rw [Pen.gap, if_pos fresh.spaced]
  obtain ⟨out, writes, goesOn, lexes⟩ := isLexed_key leaf fresh.placed column
  have chars := written_key leaf (p := p) column
  rw [gap, List.nil_append] at writes
  rw [gap, List.reverse_nil, List.nil_append] at lexes chars
  have same : out = k.keyChars anchors := by
    have both := writes.written.symm.trans chars
    exact List.reverse_inj.mp (List.append_cancel_right both)
  have colon : ∀ c ∈ [':'], isOrdinary c = true ∧ c ≠ '\n' :=
    List.forall_mem_singleton.mpr (by decide)
  have whole := writes.trans (Pen.writes_markClose colon)
  have line : '\n' ∉ out := same ▸ line_key leaf
  refine ⟨⟨whole.placed fresh.placed, rfl, ?_, (absurd · Bool.false_ne_true)⟩, out ++ [':'],
    fun more blank ↦ ?_, whole, fun l ahead inside blank ↦ ?_⟩
  · have line' : '\n' ∉ out ++ [':'] := by simp [line]
    have further := columnOf_append (w := p.written) line'
    have placed : _ = columnOf _ := whole.placed fresh.placed
    rw [placed, whole.written, further, fresh.columnOf_eq, List.length_append,
      List.length_singleton]
    omega
  · rw [List.append_assoc]
    exact goesOn _ ⟨more, rfl, blank⟩
  · have reads := reads_key lexes line (same ▸ short) blank
      (show l.indent ≤ columnOf p.written by rwa [fresh.columnOf_eq])
    rw [fresh.columnOf_eq] at reads
    rw [whole.written]
    simpa using reads

/-- A key with lines of its own is cut into its tokens and that of its value. -/
private theorem exists_key_of_isCut {k : Form} (cut : k.IsCut anchors column .pair) {p : Pen}
    (fresh : p.IsFresh column) :
    (((k.put anchors (some column) .pair (p.markEntry ['?'])).indent column).markEntry
        [':']).Starts column ∧
      (((k.put anchors (some column) .pair (p.markEntry ['?'])).indent column).markEntry
        [':']).isIndenting = true ∧
      ∃ out, (∀ more, Blank more → GoesOn (out ++ more)) ∧
        p.Writes out (((k.put anchors (some column) .pair (p.markEntry ['?'])).indent
          column).markEntry [':']) ∧
        ∀ (l : Level) ahead, l.indent ≤ column → Blank ahead →
          Reads (on l p.written (out ++ ahead) true)
            (on ((l.enter .blockMapStart column).push
                (.key :: (k.tokens anchors .pair true ++ [.value])))
              (((k.put anchors (some column) .pair (p.markEntry ['?'])).indent column).markEntry
                [':']).written ahead true) := by
  have mark : ('?', Token.key, Token.blockMapStart) ∈ blockMarks := by simp [blockMarks]
  have mark' : (':', Token.value, Token.blockMapStart) ∈ blockMarks := by simp [blockMarks]
  obtain ⟨writes, starts, indenting⟩ := fresh.starts '?' (by decide)
  have fresh' := cut.isFresh starts
  obtain ⟨writes', starts', indenting'⟩ := fresh'.starts ':' (by decide)
  obtain ⟨out, blank, written, reads⟩ := cut _ column starts (Nat.le_refl _)
  refine ⟨starts', indenting', '?' :: (out ++ [':']), fun more _ ↦ ?_,
    writes.trans (written.trans writes'), fun l ahead inside blank' ↦ ?_⟩
  · exact goesOn_mark mark ((blank.append [':']).append more)
  · have enters : ((l.enter .blockMapStart column).push
        (.key :: k.tokens anchors .pair true)).indent = column := Level.indent_enter inside
    have first := reads_mark (w := p.written) mark (blank.append (':' :: ahead))
      (show l.indent ≤ columnOf p.written by rwa [fresh.columnOf_eq])
    rw [fresh.columnOf_eq] at first
    have second := reads ((l.enter .blockMapStart column).push [.key]) (':' :: ahead) enters
      (goesOn_mark mark' blank')
    have inside' : ((l.enter .blockMapStart column).push
        (.key :: k.tokens anchors .pair true)).indent ≤
          columnOf ((k.put anchors (some column) .pair
            (p.markEntry ['?'])).indent column).written := by
      simp only [enters, fresh'.columnOf_eq, Int.le_refl]
    have third := reads_mark mark' blank' inside'
    rw [fresh'.columnOf_eq, Level.enter_of_eq enters] at third
    rw [indenting, writes.written] at second
    rw [writes'.written]
    have whole := first.trans (second.trans (by simpa using third))
    simpa using whole

/-- A key is cut into its tokens and that of its value, and the value starts behind it. -/
private theorem exists_key {k : Form} (h : k.IsKeyCut anchors column) {p : Pen}
    (fresh : p.IsFresh column) :
    (behindKey anchors column k p).Starts column ∧
      (behindKey anchors column k p).isIndenting = !k.isSimple anchors ∧
      ∃ out, (∀ more, Blank more → GoesOn (out ++ more)) ∧
        p.Writes out (behindKey anchors column k p) ∧
        ∀ (l : Level) ahead, l.indent ≤ column → Blank ahead →
          Reads (on l p.written (out ++ ahead) true)
            (on ((l.enter .blockMapStart column).push
                (.key :: (k.tokens anchors (keyPlace anchors k) true ++ [.value])))
              (behindKey anchors column k p).written ahead (!k.isSimple anchors)) := by
  cases simple : k.isSimple anchors with
  | true =>
    have leaf := h.leaf simple
    simp only [behindKey, keyPlace, simple, if_true, Bool.not_true]
    rw [tokens_leaf leaf, decide_eq_true rfl]
    obtain ⟨starts, rest⟩ := exists_key_of_simple leaf (h.short simple) fresh
    exact ⟨starts, rfl, rest⟩
  | false =>
    simp only [behindKey, keyPlace, simple, Bool.false_eq_true, if_false, Bool.not_false]
    exact exists_key_of_isCut (h.cut simple) fresh

/-- The entries of a mapping are cut into their tokens. -/
theorem exists_entries (h : ∀ e ∈ entries, e.1.IsKeyCut anchors column ∧
      e.2.IsCut anchors column .pair) (nonempty : entries ≠ [])
    (p : Pen) (k : Nat) (fresh : p.IsFresh column) (hk : k ≤ column) :
    ∃ out, (∀ more, GoesOn (out ++ more)) ∧
      p.Writes out ((putEntries anchors column entries p).indent k) ∧
      ∀ (l : Level) ahead, l.indent ≤ column → GoesOn ahead →
        Reads (on l p.written (out ++ ahead) true)
          (on ((l.enter .blockMapStart column).push (entryTokens anchors entries))
            ((putEntries anchors column entries p).indent k).written ahead true) := by
  induction entries generalizing p with
  | nil => exact absurd rfl nonempty
  | cons e es ih =>
    obtain ⟨key, v⟩ := e
    rw [List.forall_mem_cons] at h
    obtain ⟨starts, indenting, out₁, goesOn₁, writes₁, reads₁⟩ := exists_key h.1.1 fresh
    have cut := h.1.2 (behindKey anchors column key p)
    rw [indenting] at cut
    have unfolded : putEntries anchors column ((key, v) :: es) p = putEntries anchors column es
        (v.put anchors (some column) .pair (behindKey anchors column key p)) := by
      rw [putEntries, fresh.indent_eq]
      rfl
    rw [unfolded]
    cases es with
    | nil =>
      obtain ⟨out₂, blank, writes₂, reads₂⟩ := cut k starts hk
      refine ⟨out₁ ++ out₂, fun more ↦ ?_, writes₁.trans writes₂, fun l ahead inside goesOn ↦ ?_⟩
      · rw [List.append_assoc]
        exact goesOn₁ _ (blank.append more)
      · have whole := (reads₁ l _ inside (blank.append ahead)).trans
          (reads₂ _ ahead (Level.indent_enter inside) goesOn)
        simpa [entryTokens, putEntries, keyPlace] using whole
    | cons e es =>
      have fresh' := h.1.2.isFresh starts
      obtain ⟨out₃, goesOn₃, writes₃, reads₃⟩ := ih h.2 (List.cons_ne_nil _ _) _ fresh'
      rw [putEntries_indent (List.cons_ne_nil _ _) fresh'] at writes₃ reads₃
      obtain ⟨out₂, blank, writes₂, reads₂⟩ := cut column starts (Nat.le_refl _)
      refine ⟨out₁ ++ (out₂ ++ out₃), fun more ↦ ?_, writes₁.trans (writes₂.trans writes₃),
        fun l ahead inside goesOn ↦ ?_⟩
      · rw [List.append_assoc]
        exact goesOn₁ _ ((blank.append out₃).append more)
      · let new := .key :: (key.tokens anchors (keyPlace anchors key) true ++
          .value :: v.tokens anchors .pair (!key.isSimple anchors))
        have enters : ((l.enter .blockMapStart column).push new).indent = column :=
          Level.indent_enter inside
        have first := reads₁ l _ inside (blank.append (out₃ ++ ahead))
        have second := reads₂ ((l.enter .blockMapStart column).push
          (.key :: (key.tokens anchors (keyPlace anchors key) true ++ [.value]))) _
          (Level.indent_enter inside) (goesOn₃ ahead)
        have third := reads₃ ((l.enter .blockMapStart column).push new) ahead
          (Int.le_of_eq enters) goesOn
        rw [Level.enter_of_eq enters] at third
        have whole := (first.trans second).trans (by simpa [new] using third)
        simpa [entryTokens, putEntries, keyPlace, new] using whole

private theorem isLexed_marks {ms : List (List Char × Token)} (h : ∀ m ∈ ms, IsMark m.1 m.2)
    (nonempty : ms ≠ []) (p : Pen) : p.IsLexed Blank (p.marks ms) (ms.map (·.2)) := by
  induction ms generalizing p with
  | nil => exact absurd rfl nonempty
  | cons m ms ih =>
    rw [List.forall_mem_cons] at h
    cases ms with
    | nil => exact ⟨m.1, h.1.writes, fun ahead _ ↦ h.1.goesOn ahead, h.1.lexes _⟩
    | cons m' ms => exact (ih h.2 (List.cons_ne_nil _ _) (p.mark m.1)).of_mark h.1

/-- Behind a mark nothing is indented. -/
theorem isIndenting_marks (ms : List (List Char × Token)) (p : Pen) :
    (p.marks ms).isIndenting = (p.isIndenting && ms.isEmpty) := by
  induction ms generalizing p with
  | nil => rw [List.isEmpty_nil, Bool.and_true]; rfl
  | cons m ms ih =>
    rw [Pen.marks, List.foldl_cons]
    show ((p.mark m.1).marks ms).isIndenting = _
    rw [ih, List.isEmpty_cons, Bool.and_false]
    rfl

/-- The entries of a collection start behind its marks, on the line if nothing else is on it and
else on the next. -/
theorem exists_opening {ms : List (List Char × Token)} (h : ∀ m ∈ ms, IsMark m.1 m.2) {p : Pen}
    (starts : p.Starts column) (inner : Nat)
    (stays : (p.marks ms).isIndenting = true → inner = column + indentWidth) :
    ∃ out, Blank out ∧ p.Writes out ((p.marks ms).indent inner) ∧
      ∀ (l : Level) ahead, l.indent = column → GoesOn ahead →
        Reads (on l p.written (out ++ ahead) p.isIndenting)
          (on (l.push (ms.map (·.2))) ((p.marks ms).indent inner).written ahead true) := by
  have gap : p.gap = [' '] := by rw [Pen.gap, starts.spaced]; rfl
  by_cases indenting : (p.marks ms).isIndenting = true
  · obtain rfl := stays indenting
    rw [isIndenting_marks, Bool.and_eq_true, List.isEmpty_iff] at indenting
    obtain ⟨indenting, rfl⟩ := indenting
    have here := starts.indenting indenting
    have onLine : ¬ p.Breaks (column + indentWidth) := by
      simp [Pen.Breaks, indenting, here, indentWidth]
    have writes := (Pen.indent_of_not_breaks onLine).1
    have one : column + indentWidth - p.column = 1 := by
      rw [here, indentWidth]
      omega
    rw [one] at writes
    refine ⟨[' '], ⟨' ', [], rfl, .inl rfl⟩, writes, fun l ahead indent goesOn ↦ ?_⟩
    show Reads _ (on (l.push []) (p.indent (column + indentWidth)).written ahead true)
    rw [writes.written, indenting]
    exact reads_spaces 1 goesOn
  · rw [Bool.not_eq_true] at indenting
    have line := (@Pen.indent_of_breaks (p.marks ms) inner (.inl indenting)).1
    by_cases nonempty : ms = []
    · subst nonempty
      refine ⟨_, ⟨'\n', _, rfl, .inr rfl⟩, line, fun l ahead indent goesOn ↦ ?_⟩
      have reads := @reads_lineFeed p.written _ l.tokens l.indent l.outer p.isIndenting [] inner
        goesOn
        (List.forall_mem_nil _)
      rw [line.written]
      simpa [on, Pen.marks] using reads
    · obtain ⟨out, writes, goesOn', lexes⟩ := isLexed_marks h nonempty p
      rw [gap] at writes lexes
      have whole := writes.trans line
      refine ⟨_, ⟨' ', _, rfl, .inl rfl⟩, whole, fun l ahead indent goesOn ↦ ?_⟩
      have spaces := @reads_spaces p.written _ l.tokens l.indent l.outer p.isIndenting [] 1
        (goesOn' ('\n' :: (List.replicate inner ' ' ++ ahead)) ⟨'\n', _, rfl, .inr rfl⟩)
      have inside : l.indent < columnOf (' ' :: p.written) := by
        rw [indent]
        exact Int.ofNat_lt.mpr starts.behind_space
      have reads := @Lexes.reads_lineFeed _ _ _ l.tokens _ _ l.outer p.isIndenting [] lexes goesOn
        inner inside (fun _ ↦ rfl) (List.forall_mem_nil _)
      have whole' := spaces.trans reads
      rw [whole.written]
      simpa [on, Level.push] using whole'

/-- An empty collection is cut into its tokens. -/
theorem isLexed_flow {start stop : Char} {tstart tstop : Token}
    (h : (start, stop, tstart, tstop) = ('[', ']', .flowSeqStart, .flowSeqEnd) ∨
      (start, stop, tstart, tstop) = (openBrace, closeBrace, .flowMapStart, .flowMapEnd))
    (p : Pen) :
    p.IsLexed Blank ({ p.mark [start] with isSpaced := true }.markClose [stop])
      [tstart, tstop] := by
  have visible : IsVisible start ∧ IsVisible stop := by
    rcases h with h | h <;> cases h <;> decide
  have plain {c : Char} (h : IsVisible c) : ∀ x ∈ [c], isOrdinary x = true ∧ x ≠ '\n' :=
    List.forall_mem_singleton.mpr ⟨h.isOrdinary, h.ne (by decide)⟩
  have opened : p.Writes (p.gap ++ [start]) { p.mark [start] with isSpaced := true } :=
    (Pen.writes_mark (plain visible.1)).of_eq rfl rfl
  have whole := opened.trans (Pen.writes_markClose (plain visible.2))
  rw [List.append_assoc] at whole
  refine ⟨[start, stop], whole, fun ahead _ ↦ ?_, lexes_flow h⟩
  rcases h with h | h <;> cases h <;>
    exact .cons (by decide) (by decide) (by decide) (by decide) _

/-- What starts at a pen in a column is cut into tokens of a block there, up to another column. -/
def IsBody (column k : Nat) (start : Token) (new : List Token) (p q : Pen) : Prop :=
  ∃ out, (∀ more, GoesOn (out ++ more)) ∧ p.Writes out (q.indent k) ∧
    ∀ (l : Level) ahead, l.indent ≤ column → GoesOn ahead →
      Reads (on l p.written (out ++ ahead) true)
        (on ((l.enter start column).push new) (q.indent k).written ahead true)

/-- A block further on is opened behind the marks of its collection and closed behind its end. -/
theorem exists_block {ms : List (List Char × Token)} (h : ∀ m ∈ ms, IsMark m.1 m.2) {p q : Pen}
    (starts : p.Starts column) {k : Nat} (hk : k ≤ column) {start : Token} {new : List Token}
    (body : ((p.marks ms).indent (column + indentWidth)).IsFresh (column + indentWidth) →
      IsBody (column + indentWidth) k start new ((p.marks ms).indent (column + indentWidth)) q) :
    ∃ out, Blank out ∧ p.Writes out (q.indent k) ∧
      ∀ (l : Level) ahead, l.indent = column → GoesOn ahead →
        Reads (on l p.written (out ++ ahead) p.isIndenting)
          (on (l.push (ms.map (·.2) ++ start :: (new ++ [.blockEnd]))) (q.indent k).written ahead
            true) := by
  obtain ⟨out₁, blank, writes₁, reads₁⟩ := exists_opening h starts (column + indentWidth)
    fun _ ↦ rfl
  obtain ⟨out₂, goesOn₂, writes₂, reads₂⟩ :=
    body (Pen.isFresh_indent (writes₁.placed starts.placed))
  have whole := writes₁.trans writes₂
  refine ⟨out₁ ++ out₂, blank.append out₂, whole, fun l ahead indent goesOn ↦ ?_⟩
  have wide : 0 < indentWidth := by decide
  have further : (l.push (ms.map (·.2))).indent < (column + indentWidth : Nat) := by
    rw [Level.indent_push, indent]
    omega
  have first := reads₁ l (out₂ ++ ahead) indent (goesOn₂ ahead)
  have second := reads₂ (l.push (ms.map (·.2))) ahead (Int.le_of_lt further) goesOn
  have fresh := Pen.isFresh_indent (whole.placed starts.placed)
  have outside : (columnOf (q.indent k).written : Int) <
      (((l.push (ms.map (·.2))).enter start (column + indentWidth)).push new).indent := by
    rw [fresh.columnOf_eq, Level.indent_push, Level.indent_enter (Int.le_of_lt further)]
    omega
  have left : (((l.push (ms.map (·.2))).enter start (column + indentWidth)).push new).leave =
      l.push (ms.map (·.2) ++ start :: (new ++ [.blockEnd])) := by
    rw [Level.enter_of_lt further]
    simp [Level.leave, Level.push]
  have third := reads_leave goesOn outside true
  rw [left] at third
  rw [List.append_assoc]
  exact (first.trans second).trans third

/-- A sequence is cut into its tokens if its entries are, in either column. -/
theorem isCut_seq (htag : tag ∈ kindNames ++ unknownNames)
    (h : ∀ f ∈ items, f.IsCut anchors column .entry ∧
      f.IsCut anchors (column + indentWidth) .entry) (key : Option ObjectKey) :
    (Form.seq key tag items).IsCut anchors column place := by
  have marks := @isMark_collectionMarks anchors key tag ("seq") htag
  by_cases empty : items = []
  · subst empty
    refine isCut_of_isClosed fun p starts ↦ ?_
    rw [put, tokens, putTag_eq]
    exact (Pen.IsLexed.isClosed (isLexed_flow (.inl rfl) _) rfl).of_marks marks
  have some : items.isEmpty = false := List.isEmpty_eq_false_iff.mpr empty
  intro p k starts hk
  rw [put, tokens, putTag_eq]
  simp only [some, Bool.false_eq_true, if_false, ← isIndenting_marks]
  split
  · next level =>
    obtain ⟨out₁, blank, writes₁, reads₁⟩ := exists_opening marks starts column fun indenting ↦ by
      simp [indenting] at level
    have fresh := Pen.isFresh_indent (writes₁.placed starts.placed)
    obtain ⟨out₂, goesOn₂, writes₂, reads₂⟩ := exists_items (fun f hf ↦ (h f hf).1) empty _ k
      fresh hk
    rw [Option.getD_some]
    rw [putItems_indent empty fresh] at writes₂ reads₂
    refine ⟨out₁ ++ out₂, blank.append out₂, writes₁.trans writes₂,
      fun l ahead indent goesOn ↦ ?_⟩
    have first := reads₁ l (out₂ ++ ahead) indent (goesOn₂ ahead)
    have second := reads₂ (l.push ((collectionMarks anchors key tag "seq").map (·.2))) ahead
      (Int.le_of_eq indent) goesOn
    rw [Level.enter_of_eq (by exact indent), Level.push_push] at second
    rw [List.append_assoc]
    exact first.trans second
  · rw [inside, Option.map_some, Option.getD_some]
    refine exists_block marks starts hk fun fresh ↦ ?_
    have body := exists_items (fun f hf ↦ (h f hf).2) empty _ k fresh (by omega)
    rw [putItems_indent empty fresh] at body
    exact body

/-- A mapping is cut into its tokens if its keys and values are. -/
theorem isCut_map (htag : tag ∈ kindNames ++ unknownNames)
    (h : ∀ e ∈ entries, e.1.IsKeyCut anchors (column + indentWidth) ∧
      e.2.IsCut anchors (column + indentWidth) .pair) (key : Option ObjectKey) :
    (Form.map key tag entries).IsCut anchors column place := by
  have marks := @isMark_collectionMarks anchors key tag ("map") htag
  by_cases empty : entries = []
  · subst empty
    refine isCut_of_isClosed fun p starts ↦ ?_
    rw [put, tokens, putTag_eq]
    exact (Pen.IsLexed.isClosed (isLexed_flow (.inr rfl) _) rfl).of_marks marks
  have some : entries.isEmpty = false := List.isEmpty_eq_false_iff.mpr empty
  intro p k starts hk
  rw [put, tokens, putTag_eq]
  simp only [some, Bool.false_eq_true, if_false]
  rw [inside, Option.map_some, Option.getD_some]
  refine exists_block marks starts hk fun fresh ↦ ?_
  have body := exists_entries h empty _ k fresh (by omega)
  rw [putEntries_indent empty fresh] at body
  exact body

end Form

end EntityGraph.Yaml
