import EntityGraph.Yaml.Pen
import EntityGraph.Yaml.Scalar
import Mathlib.Data.Bool.AllAny

/-!
# Places in written texts

A pen writes printable ASCII and line feeds. So the place of a reader behind what was written is
known from what was written: every character is one step, and only a line feed starts a line. All
statements on reading say what a reader finds at the place behind what a pen had written.
-/

namespace EntityGraph.Yaml

open EntityGraph.Text Analysis

/-! ### Ordinary characters -/

/-- A line feed is ordinary. -/
theorem isOrdinary_lineFeed : isOrdinary '\n' = true := rfl

/-- A printable ASCII character is ordinary. -/
theorem isOrdinary_of_printable {c : Char} (low : 0x20 ≤ c.toNat) (high : c.toNat ≤ 0x7E) :
    isOrdinary c = true := by
  simp [isOrdinary, low, high]

/-- An ordinary character other than a line feed is printable. -/
theorem printable_of_isOrdinary {c : Char} (h : isOrdinary c = true) (feed : c ≠ '\n') :
    0x20 ≤ c.toNat ∧ c.toNat ≤ 0x7E := by
  simpa [isOrdinary, feed] using h

/-- Of the ordinary characters only the line feed ends a line. -/
theorem isBreak_of_isOrdinary {c : Char} (h : isOrdinary c = true) :
    isBreak c = decide (c = '\n') := by
  by_cases feed : c = '\n'
  · subst feed
    rfl
  · have range := printable_of_isOrdinary h feed
    have other : ∀ d : Char, ¬ (0x20 ≤ d.toNat ∧ d.toNat ≤ 0x7E) → c ≠ d := by
      rintro d hd rfl
      exact hd range
    simp [isBreak, feed, other '\r' (by decide), other '\x85' (by decide),
      other '\u2028' (by decide), other '\u2029' (by decide)]

/-- An ordinary character takes a column. -/
theorem ne_byteOrderMark {c : Char} (h : isOrdinary c = true) : c ≠ byteOrderMark := by
  rintro rfl
  exact absurd h (by decide)

/-- A printable ASCII character other than a space. -/
def IsVisible (c : Char) : Prop := 0x20 < c.toNat ∧ c.toNat ≤ 0x7E

instance (c : Char) : Decidable (IsVisible c) :=
  inferInstanceAs (Decidable (0x20 < c.toNat ∧ c.toNat ≤ 0x7E))

namespace IsVisible

variable {c : Char} (h : IsVisible c)

include h

/-- A visible character is ordinary. -/
theorem isOrdinary : Analysis.isOrdinary c = true :=
  isOrdinary_of_printable (Nat.le_of_lt h.1) h.2

/-- A visible character is none that is not visible. -/
theorem ne {d : Char} (hd : ¬ IsVisible d) : c ≠ d := by
  rintro rfl
  exact hd h

private theorem isBreak_eq_false : isBreak c = false := by
  rw [isBreak_of_isOrdinary h.isOrdinary]
  exact decide_eq_false (h.ne (by decide))

/-- A visible character is part of a word. -/
theorem endsWord_eq_false : endsWord (some c) = false := by
  simp [endsWord, h.ne (d := ' ') (by decide), h.ne (d := '\t') (by decide), h.isBreak_eq_false]

end IsVisible

/-- An ordinary character other than a space and a line feed is visible. -/
theorem isVisible_of_isOrdinary {c : Char} (h : isOrdinary c = true) (space : c ≠ ' ')
    (feed : c ≠ '\n') : IsVisible c := by
  have range := printable_of_isOrdinary h feed
  have other : c.toNat ≠ 0x20 := fun heq ↦ space (by rw [← Char.ofNat_toNat c, heq])
  exact ⟨by omega, range.2⟩

/-- A text starts with a visible character. -/
def Shows (cs : List Char) : Prop := ∃ c more, cs = c :: more ∧ IsVisible c

/-- A text starts with a visible character if it is not empty. -/
def Opens (cs : List Char) : Prop := ∀ c, cs.head? = some c → IsVisible c

/-- A visible character shows. -/
theorem Shows.cons {c : Char} (h : IsVisible c) (more : List Char) : Shows (c :: more) :=
  ⟨c, more, rfl, h⟩

namespace Opens

/-- Nothing has no start that is not visible. -/
theorem nil : Opens [] := fun _ ↦ nofun

/-- A visible character is a visible start. -/
theorem cons {c : Char} (h : IsVisible c) (more : List Char) : Opens (c :: more) := by
  rintro _ ⟨⟩
  exact h

/-- What shows has a visible start. -/
theorem of_shows {cs : List Char} (h : Shows cs) : Opens cs := by
  obtain ⟨c, more, rfl, hc⟩ := h
  exact .cons hc more

/-- In front of what shows, what has a visible start shows. -/
theorem append {cs more : List Char} (h : Opens cs) (shows : Shows more) : Shows (cs ++ more) := by
  cases cs with
  | nil => exact shows
  | cons c cs => exact .cons (h c rfl) _

end Opens

/-- Ordinary characters may stand in a text. -/
theorem isAllowed_of_isOrdinary {c : Char} (h : isOrdinary c = true) : isAllowed c = true := by
  by_cases feed : c = '\n'
  · subst feed
    rfl
  · have range := printable_of_isOrdinary h feed
    simp [isAllowed, range]

namespace Cursor

/-- The place behind characters, latest first, in front of others. -/
def behind (before ahead : List Char) : Cursor :=
  ⟨ahead, before.length, before.count '\n', (before.takeWhile (· ≠ '\n')).length⟩

variable {before ahead out : List Char} {c : Char}

@[simp] theorem chars_behind : (behind before ahead).chars = ahead := rfl

/-- The column is the number of characters since the last line feed. -/
theorem column_behind :
    (behind before ahead).column = (before.takeWhile (· ≠ '\n')).length := rfl

/-- A step goes behind one more character. -/
theorem step_behind (h : isOrdinary c = true) :
    (behind before (c :: ahead)).step = behind (c :: before) ahead := by
  have ends := isBreak_of_isOrdinary h
  by_cases feed : c = '\n'
  · subst feed
    simp [behind, step, ends]
  · simp [behind, step, ends, feed, ne_byteOrderMark h]

/-- Several steps go behind several characters. -/
theorem drop_behind (h : ∀ c ∈ out, isOrdinary c = true) :
    (behind before (out ++ ahead)).drop out.length = behind (out.reverse ++ before) ahead := by
  induction out generalizing before with
  | nil => rfl
  | cons c out ih =>
    rw [List.forall_mem_cons] at h
    rw [List.length_cons, drop, List.cons_append, step_behind h.1, ih h.2, List.reverse_cons,
      List.append_assoc, List.singleton_append]

/-- The characters of a kind are read up to one of another kind. -/
theorem span_behind {p : Char → Bool} (ordinary : ∀ c ∈ out, isOrdinary c = true)
    (h : ∀ c ∈ out, p c = true) (hahead : ∀ c, ahead.head? = some c → p c = false) :
    (behind before (out ++ ahead)).span p = (out, behind (out.reverse ++ before) ahead) := by
  have ends : ahead.takeWhile p = [] := by
    cases ahead with
    | nil => rfl
    | cons c cs => rw [List.takeWhile_cons, hahead c rfl]; rfl
  have word : (out ++ ahead).takeWhile p = out := by
    rw [List.takeWhile_append_of_pos h, ends, List.append_nil]
  rw [span, chars_behind, word, drop_behind ordinary]

/-- Nothing of a kind is read in front of a character of another kind. -/
theorem span_of_head {p : Char → Bool} (hahead : ∀ c, ahead.head? = some c → p c = false) :
    (behind before ahead).span p = ([], behind before ahead) :=
  @span_behind _ _ [] _ (List.forall_mem_nil _) (List.forall_mem_nil _) hahead

/-- No line ends in front of an ordinary character other than a line feed. -/
theorem lineBreak?_of_printable (h : isOrdinary c = true) (feed : c ≠ '\n') :
    (behind before (c :: ahead)).lineBreak? = none := by
  have ends : isBreak c = false := by rw [isBreak_of_isOrdinary h, decide_eq_false feed]
  have other : ∀ {d : Char} {cs : List Char}, isBreak d = true → c :: ahead ≠ d :: cs := by
    rintro d cs hd heq
    rw [(List.cons.inj heq).1, hd] at ends
    cases ends
  rw [lineBreak?, chars_behind]
  split
  · next heq => exact absurd heq (other rfl)
  · next heq => exact absurd heq (other rfl)
  · next heq => exact absurd heq (other rfl)
  · next heq => exact absurd heq (other rfl)
  · next x _ heq =>
    obtain ⟨rfl, rfl⟩ := List.cons.inj heq
    rw [ends]
    rfl
  · next heq => cases heq

/-- A line ends at a line feed. -/
theorem lineBreak?_lineFeed :
    (behind before ('\n' :: ahead)).lineBreak? = some ('\n', behind ('\n' :: before) ahead) := by
  rw [← step_behind isOrdinary_lineFeed]
  rfl

/-- No separator starts with a character other than the two marks. -/
theorem seesSeparator_of_head (h : ∀ c, ahead.head? = some c → c ≠ '-' ∧ c ≠ '.') :
    (behind before ahead).seesSeparator = false := by
  cases ahead with
  | nil => rfl
  | cons c cs =>
    obtain ⟨hyphen, point⟩ := h c rfl
    simp [seesSeparator, seesMark, hyphen, point]

end Cursor

/-! ### Pens -/

namespace Pen

variable {p q r : Pen} {out more cs : List Char} {column : Nat}

/-- The column of a pen is the number of characters that it has written on the line. -/
def IsPlaced (p : Pen) : Prop := p.column = (p.written.takeWhile (· ≠ '\n')).length

/-- A pen has written ordinary characters and then is another pen, whose column is right if that of
the first was. -/
structure Writes (p : Pen) (out : List Char) (q : Pen) : Prop where
  written : q.written = out.reverse ++ p.written
  ordinary : ∀ c ∈ out, isOrdinary c = true
  placed : p.IsPlaced → q.IsPlaced

namespace Writes

/-- A pen that writes nothing. -/
theorem refl (p : Pen) : p.Writes [] p := ⟨rfl, List.forall_mem_nil _, id⟩

/-- One text after another. -/
theorem trans (h : p.Writes out q) (h' : q.Writes more r) : p.Writes (out ++ more) r where
  written := by rw [h'.written, h.written, List.reverse_append, List.append_assoc]
  ordinary := List.forall_mem_append.mpr ⟨h.ordinary, h'.ordinary⟩
  placed := h'.placed ∘ h.placed

/-- Whether a space comes before and whether the line is indented changes nothing that is
written. -/
theorem of_eq (h : p.Writes out q) (written : r.written = q.written)
    (column : r.column = q.column) : p.Writes out r where
  written := written.trans h.written
  ordinary := h.ordinary
  placed hp := by
    have placed := h.placed hp
    rw [IsPlaced] at placed ⊢
    rw [written, column, placed]

end Writes

/-- Characters of one line are written. -/
theorem writes_put (h : ∀ c ∈ cs, isOrdinary c = true ∧ c ≠ '\n') : p.Writes cs (p.put cs) where
  written := rfl
  ordinary c hc := (h c hc).1
  placed hp := by
    have line : ∀ c ∈ cs.reverse, decide (c ≠ '\n') = true := fun c hc ↦
      decide_eq_true (h c (List.mem_reverse.mp hc)).2
    rw [IsPlaced] at hp ⊢
    rw [put, List.takeWhile_append_of_pos line, List.length_append, List.length_reverse, hp,
      Nat.add_comm]

/-- Spaces are characters of one line. -/
theorem writes_spaces (k : Nat) : p.Writes (List.replicate k ' ') (p.put (List.replicate k ' ')) :=
  writes_put fun c hc ↦ by
    rw [List.eq_of_mem_replicate hc]
    decide

/-- The end of a line is written. -/
theorem writes_breakLine : p.Writes ['\n'] p.breakLine where
  written := rfl
  ordinary := List.forall_mem_singleton.mpr isOrdinary_lineFeed
  placed _ := by simp [IsPlaced, breakLine]

/-- A pen behind nothing is placed. -/
theorem isPlaced_start : start.IsPlaced := rfl

/-- The space that a pen writes before a mark. -/
def gap (p : Pen) : List Char := if p.isSpaced then [] else [' ']

/-- A mark is written behind a space. -/
theorem writes_mark (h : ∀ c ∈ cs, isOrdinary c = true ∧ c ≠ '\n') :
    p.Writes (p.gap ++ cs) (p.mark cs) := by
  have spaced : ∀ c ∈ p.gap ++ cs, isOrdinary c = true ∧ c ≠ '\n' := by
    rw [List.forall_mem_append, gap]
    refine ⟨?_, h⟩
    split
    · exact List.forall_mem_nil _
    · exact List.forall_mem_singleton.mpr (by decide)
  have same : p.gap ++ cs = if p.isSpaced then cs else ' ' :: cs := by
    rw [gap]
    split <;> rfl
  rw [mark, ← same]
  exact (writes_put spaced).of_eq rfl rfl

/-- A mark is written directly behind what was written. -/
theorem writes_markClose (h : ∀ c ∈ cs, isOrdinary c = true ∧ c ≠ '\n') :
    p.Writes cs (p.markClose cs) :=
  (writes_put h).of_eq rfl rfl

/-- Characters in two parts are the characters. -/
theorem put_put (cs more : List Char) (p : Pen) : (p.put cs).put more = p.put (cs ++ more) := by
  simp [put, Nat.add_assoc]

/-- What is written by two ways to one pen is the same. -/
theorem Writes.unique (h : p.Writes out q) (h' : p.Writes more q) : out = more :=
  List.reverse_inj.mp (List.append_cancel_right (h.written.symm.trans h'.written))

/-! ### Indentation -/

/-- Whether a pen ends its line before it goes to a column. -/
def Breaks (column : Nat) (p : Pen) : Prop :=
  p.isIndenting = false ∨ column < p.column ∨ p.column = column ∧ p.isSpaced = false

instance : Decidable (p.Breaks column) := inferInstanceAs (Decidable (_ ∨ _ ∨ _ ∧ _))

/-- Going to a column ends the line or not, and writes spaces up to the column. -/
theorem indent_eq (column : Nat) (p : Pen) :
    p.indent column =
      let q := if p.Breaks column then p.breakLine else p
      if q.column < column then
        { q.put (List.replicate (column - q.column) ' ') with isSpaced := true }
      else q := by
  have same : (!p.isIndenting || column < p.column || (p.column = column && !p.isSpaced)) =
      decide (p.Breaks column) := by
    rw [Bool.eq_iff_iff, decide_eq_true_iff]
    simp [Breaks, or_assoc]
  simp only [indent, same, decide_eq_true_eq]

/-- A pen that ends its line goes to the column on a fresh line. -/
theorem indent_of_breaks (h : p.Breaks column) :
    p.Writes ('\n' :: List.replicate column ' ') (p.indent column) ∧
      (p.indent column).column = column ∧ (p.indent column).isSpaced = true ∧
      (p.indent column).isIndenting = true := by
  have line := writes_breakLine (p := p)
  rw [indent_eq]
  simp only [if_pos h]
  split
  · next inside =>
    refine ⟨line.trans ((writes_spaces column).of_eq rfl rfl), ?_, rfl, rfl⟩
    simp [put, breakLine]
  · next inside =>
    obtain rfl : column = 0 := Nat.eq_zero_of_not_pos inside
    exact ⟨line, rfl, rfl, rfl⟩

/-- A pen that stays on its line writes the spaces up to the column. -/
theorem indent_of_not_breaks (h : ¬ p.Breaks column) :
    p.Writes (List.replicate (column - p.column) ' ') (p.indent column) ∧
      (p.indent column).column = column ∧ (p.indent column).isSpaced = true ∧
      (p.indent column).isIndenting = true := by
  have stays : p.isIndenting = true ∧ p.column ≤ column ∧
      (p.column = column → p.isSpaced = true) := by
    simpa [Breaks] using h
  obtain ⟨indenting, before, spaced⟩ := stays
  rw [indent_eq]
  simp only [if_neg h]
  split
  · next inside =>
    refine ⟨(writes_spaces _).of_eq rfl rfl, ?_, rfl, indenting⟩
    simp [put]
    omega
  · next inside =>
    have here : p.column = column := by omega
    have writes : p.Writes (List.replicate (column - p.column) ' ') p := by
      rw [here, Nat.sub_self]
      exact Writes.refl p
    exact ⟨writes, here, spaced here, indenting⟩

end Pen

end EntityGraph.Yaml
