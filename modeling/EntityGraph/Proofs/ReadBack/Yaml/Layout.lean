import EntityGraph.Proofs.ReadBack.Yaml.Blocks
import EntityGraph.Yaml.Writer

/-!
# Pens and lexemes

What a pen writes, cut into tokens. A node is written as marks for its name and its tag and then a
scalar or a collection. A pen writes a space before a mark unless one is there, and the lexemes
start behind it.
-/

namespace EntityGraph.Yaml

open EntityGraph.Text Analysis Cursor Token Token.Cut Plain

/-! ### Marks of nodes -/

/-- A mark stands for a token wherever it stands. -/
structure IsMark (m : List Char) (t : Token) : Prop where
  lexes : ∀ w, Lexes Blank w m [t]
  visible : ∀ c ∈ m, IsVisible c
  goesOn : ∀ more, GoesOn (m ++ more)

/-- The name of an anchor is a mark. -/
theorem isMark_anchor {cs : List Char} (h : IsName cs) :
    IsMark ('&' :: cs) (.anchor (String.ofList cs)) where
  lexes _ := (lexes_anchor h).mono fun _ ↦ .inl
  visible := List.forall_mem_cons.mpr ⟨by decide, fun c hc ↦ (h.2 c hc).2⟩
  goesOn _ := .cons (by decide) (by decide) (by decide) (by decide) _

/-- The tag of a kind is a mark. -/
theorem isMark_tag {cs : List Char} (h : IsKind cs) :
    IsMark ('!' :: '!' :: cs) (.tag ⟨some "!!", String.ofList cs⟩) where
  lexes _ := lexes_tag h
  visible := by
    rw [List.forall_mem_cons, List.forall_mem_cons]
    exact ⟨by decide, by decide, fun c hc ↦ (h.2 c hc).2.2⟩
  goesOn _ := .cons (by decide) (by decide) (by decide) (by decide) _

namespace IsMark

variable {p : Pen} {m : List Char} {t : Token} (h : IsMark m t)

include h

/-- A mark is on the line of what is before it. -/
theorem line : '\n' ∉ m := fun hm ↦ absurd (h.visible '\n' hm) (by decide)

/-- A mark is written behind a space. -/
theorem writes : p.Writes (p.gap ++ m) (p.mark m) :=
  Pen.writes_mark fun c hc ↦ ⟨(h.visible c hc).isOrdinary, (h.visible c hc).ne (by decide)⟩

/-- Behind a mark a space is written before the next. -/
theorem written : (p.mark m).gap.reverse ++ (p.mark m).written =
    ' ' :: (m.reverse ++ (p.gap.reverse ++ p.written)) := by
  rw [h.writes.written, List.reverse_append, List.append_assoc]
  rfl

end IsMark

namespace Pen

/-- The pen behind several marks. -/
def marks (ms : List (List Char × Token)) (p : Pen) : Pen := ms.foldl (fun p m ↦ p.mark m.1) p

variable {p q : Pen} {ms : List (List Char × Token)} {m : List Char} {t : Token} {new : List Token}
  {follow : List Char → Prop} {column : Nat} {canSplit : Bool} {cs : List Char}

/-- Marks are written behind one another on a line. -/
theorem placed_marks (h : ∀ m ∈ ms, IsMark m.1 m.2) (placed : p.IsPlaced) :
    (p.marks ms).IsPlaced ∧ p.column ≤ (p.marks ms).column := by
  induction ms generalizing p with
  | nil => exact ⟨placed, Nat.le_refl _⟩
  | cons m ms ih =>
    rw [List.forall_mem_cons] at h
    obtain ⟨placed', further⟩ := ih h.2 (h.1.writes.placed placed)
    exact ⟨placed', (Nat.le_add_right _ _).trans further⟩

/-- What is written from one pen to another is cut into tokens. -/
def IsLexed (follow : List Char → Prop) (p q : Pen) (new : List Token) : Prop :=
  ∃ out, p.Writes (p.gap ++ out) q ∧ (∀ ahead, follow ahead → GoesOn (out ++ ahead)) ∧
    Lexes follow (p.gap.reverse ++ p.written) out new

/-- What is written from one pen to another and to the next line is cut into tokens inside of a
block. -/
def IsClosed (column : Nat) (p q : Pen) (new : List Token) : Prop :=
  ∃ out, (∀ k, p.Writes (p.gap ++ (out ++ '\n' :: List.replicate k ' ')) (q.indent k)) ∧
    (∀ more, GoesOn (out ++ '\n' :: more)) ∧ Closes column (p.gap.reverse ++ p.written) out new

/-- What is lexed in front of some characters is so in front of fewer. -/
theorem IsLexed.mono {follow' : List Char → Prop} (h : p.IsLexed follow q new)
    (fewer : ∀ ahead, follow' ahead → follow ahead) : p.IsLexed follow' q new := by
  obtain ⟨out, writes, goesOn, lexes⟩ := h
  exact ⟨out, writes, fun ahead h ↦ goesOn ahead (fewer ahead h), lexes.mono fewer⟩

/-- A mark stands before what follows it. -/
theorem IsLexed.of_mark (h : IsMark m t) (rest : IsLexed follow (p.mark m) q new) :
    IsLexed follow p q (t :: new) := by
  obtain ⟨out, writes, goesOn, lexes⟩ := rest
  rw [h.written] at lexes
  refine ⟨m ++ ' ' :: out, ?_, fun ahead _ ↦ ?_, (h.lexes _).append lexes h.line goesOn⟩
  · have whole := h.writes.trans writes
    rwa [List.append_assoc] at whole
  · rw [List.append_assoc]
    exact h.goesOn _

private theorem IsClosed.of_mark (h : IsMark m t) (rest : IsClosed column (p.mark m) q new) :
    IsClosed column p q (t :: new) := by
  obtain ⟨out, writes, goesOn, closes⟩ := rest
  rw [h.written] at closes
  refine ⟨m ++ ' ' :: out, fun k ↦ ?_, fun more ↦ ?_,
    (h.lexes _).append_closes closes h.line goesOn⟩
  · have whole := h.writes.trans (writes k)
    rw [List.append_assoc] at whole
    rw [List.append_assoc]
    exact whole
  · rw [List.append_assoc]
    exact h.goesOn _

/-- Marks stand before what follows them. -/
theorem IsLexed.of_marks (h : ∀ m ∈ ms, IsMark m.1 m.2) (rest : IsLexed follow (p.marks ms) q new) :
    IsLexed follow p q (ms.map (·.2) ++ new) := by
  induction ms generalizing p with
  | nil => exact rest
  | cons m ms ih =>
    rw [List.forall_mem_cons] at h
    exact (ih h.2 rest).of_mark h.1

/-- Marks stand before what ends with the line. -/
theorem IsClosed.of_marks (h : ∀ m ∈ ms, IsMark m.1 m.2)
    (rest : IsClosed column (p.marks ms) q new) : IsClosed column p q (ms.map (·.2) ++ new) := by
  induction ms generalizing p with
  | nil => exact rest
  | cons m ms ih =>
    rw [List.forall_mem_cons] at h
    exact (ih h.2 rest).of_mark h.1

/-- A line may end behind what is not indented on. -/
theorem IsLexed.isClosed (h : IsLexed Blank p q new) (indenting : q.isIndenting = false) :
    IsClosed column p q new := by
  obtain ⟨out, writes, goesOn, lexes⟩ := h
  refine ⟨out, fun k ↦ ?_, fun more ↦ goesOn _ ⟨'\n', more, rfl, .inr rfl⟩, lexes.closes⟩
  have whole := writes.trans (@indent_of_breaks q k (.inl indenting)).1
  rwa [List.append_assoc] at whole

/-! ### Scalars -/

/-- A scalar in marks is cut into one token. -/
theorem IsMarked.isLexed {mark : Char} (hmark : mark = apostrophe ∨ mark = quotationMark)
    (h : IsMarked mark cs p q) : IsLexed Delimits p q [.scalar false (String.ofList cs)] := by
  obtain ⟨out, writes, reads⟩ := h
  refine ⟨mark :: out, writes, fun ahead _ ↦ ?_, lexes_quoted hmark reads⟩
  rcases hmark with rfl | rfl <;>
    exact .cons (by decide) (by decide) (by decide) (by decide) _

private theorem isIndenting_plainWords (fuel column : Nat) (canSplit : Bool) (cs : List Char)
    {p : Pen}
    (h : p.isIndenting = false) : (p.plainWords fuel column canSplit cs).isIndenting = false := by
  induction fuel generalizing cs p with
  | zero => exact h
  | succ fuel ih =>
    rw [plainWords]
    split
    · exact h
    · apply ih
      split
      · rfl
      · exact h

private theorem isIndenting_plain (nonempty : cs ≠ []) :
    (p.plain column canSplit cs).isIndenting = false := by
  rw [plain, List.isEmpty_eq_false_iff.mpr nonempty]
  exact isIndenting_plainWords _ _ _ _ rfl

/-- A plain scalar is cut into one token at the end of its line. -/
theorem isClosed_plain (h : IsPlain cs) (placed : p.IsPlaced) (canSplit : Bool)
    (before : column ≤ p.column) :
    IsClosed column p (p.plain (column + indentWidth) canSplit cs)
      [.scalar true (String.ofList cs)] := by
  have inside : (column : Int) < (column + indentWidth : Nat) := by
    rw [indentWidth]
    omega
  obtain ⟨out, writes, first, scanned⟩ := exists_plain (Nat.add_pos_right _ (by decide)) inside
    canSplit h placed (by omega)
  have read : IsRead column (p.gap.reverse ++ p.written) out cs := ⟨h, first, scanned⟩
  refine ⟨out, fun k ↦ ?_, fun more ↦ read.goesOn nofun nofun, closes_plain read⟩
  have whole := writes.trans (@indent_of_breaks _ k
    (.inl (@isIndenting_plain p (column + indentWidth) canSplit _ h.nonempty))).1
  rwa [List.append_assoc] at whole

/-- Words on one line do not depend on where lines would be broken. -/
theorem plainWords_false (fuel column : Nat) {cs : List Char}
    (enough : cs.length < fuel) (p : Pen) :
    p.plainWords fuel column false cs = p.put cs := by
  induction fuel generalizing cs p with
  | zero => cases enough
  | succ fuel ih =>
    rw [plainWords]
    cases cs with
    | nil => rfl
    | cons c cs =>
      have shorter : (((c :: cs).dropWhile (· ≠ ' ')).dropWhile (· = ' ')).length < fuel := by
        have first := List.length_dropWhile_le (· ≠ ' ') cs
        have second := List.length_dropWhile_le (· = ' ') (cs.dropWhile (· ≠ ' '))
        have blanks := List.length_dropWhile_le (· = ' ') cs
        rw [List.length_cons] at enough
        by_cases space : c = ' ' <;> simp only [List.dropWhile_cons, space, ne_eq,
          not_true_eq_false,
          not_false_eq_true, decide_true, decide_false, if_true, Bool.false_eq_true, if_false]
          at first second ⊢ <;> omega
      simp only [List.isEmpty_cons, Bool.false_eq_true, if_false, run, Bool.false_and,
        ih shorter, put_put, List.append_assoc, List.takeWhile_append_dropWhile]

/-- A plain scalar is cut into one token in front of the colon behind it. -/
theorem isLexed_plain (h : IsPlain cs) (placed : p.IsPlaced) (column : Nat) :
    IsLexed AtColon p (p.plain column false cs) [.scalar true (String.ofList cs)] := by
  have here : columnOf (p.gap.reverse ++ p.written) = p.column + p.gap.length := by
    rw [columnOf, List.takeWhile_append_of_pos, List.length_append, List.length_reverse,
      Nat.add_comm, placed]
    rw [gap]
    split <;> simp
  have exists_read (indent : Int) (inside : indent ≤ columnOf (p.gap.reverse ++ p.written)) :
      ∃ out, p.Writes (p.gap ++ out) (p.plain column false cs) ∧
        IsRead indent (p.gap.reverse ++ p.written) out cs := by
    have same : p.plain column false cs = p.plain (p.column + p.gap.length + 1) false cs := by
      simp only [plain, plainWords_false _ _ (Nat.lt_succ_self cs.length)]
    rw [here] at inside
    have bound : indent < (p.column + p.gap.length + 1 : Nat) := by omega
    obtain ⟨out, writes, first, scanned⟩ := exists_plain (Nat.succ_pos _) bound false h placed
      (by omega)
    exact ⟨out, same ▸ writes, h, first, scanned⟩
  obtain ⟨out, writes, read⟩ := exists_read _ (Int.le_refl _)
  refine ⟨out, writes, fun ahead hfollow ↦
    read.goesOn (hfollow.head_ne (by decide)) (hfollow.head_ne (by decide)),
    lexes_plain fun indent inside ↦ ?_⟩
  -- The same is written whichever block it is read in.
  obtain ⟨out', writes', read'⟩ := exists_read indent inside
  rwa [List.append_cancel_left (writes'.unique writes)] at read'

end Pen

end EntityGraph.Yaml
