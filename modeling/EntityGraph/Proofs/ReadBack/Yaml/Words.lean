import EntityGraph.Proofs.ReadBack.Yaml.Marks

/-!
# Plain scalars read back

A plain scalar is read word by word. A line may be broken at a single space, and the rest stands in
a column inside of the block. The scalar ends where a line ends that nothing of it follows, or at
the colon behind a key.
-/

namespace EntityGraph.Yaml

open EntityGraph.Text Analysis Cursor

namespace Analysis

variable {as bs : List Char} {a b : Char}

private theorem holdsMark_append_right (h : holdsMark b (as ++ a :: bs) = false) :
    holdsMark a bs = false := by
  induction as generalizing b with
  | nil =>
    rw [List.nil_append, holdsMark, Bool.or_eq_false_iff] at h
    exact h.2
  | cons c as ih =>
    rw [List.cons_append, holdsMark, Bool.or_eq_false_iff] at h
    exact ih h.2

private theorem head_of_colon (h : holdsMark b (as ++ ':' :: bs) = false) :
    ∃ c, bs.head? = some c ∧ isSpace c = false := by
  induction as generalizing b with
  | nil =>
    rw [List.nil_append, holdsMark, Bool.or_eq_false_iff, Bool.or_eq_false_iff] at h
    cases bs with
    | nil => simp at h
    | cons c bs => exact ⟨c, rfl, by simpa using h.1.1⟩
  | cons c as ih =>
    rw [List.cons_append, holdsMark, Bool.or_eq_false_iff] at h
    exact ih h.2

/-- What a text is that may be written plainly. -/
structure IsPlain (cs : List Char) : Prop where
  nonempty : cs ≠ []
  printable : ∀ c ∈ cs, isOrdinary c = true ∧ c ≠ '\n'
  first : cs.head? ≠ some ' '
  last : cs.getLast? ≠ some ' '
  noMark : holdsMark ' ' cs = false
  leading : ∀ c, cs.head? = some c → isLeadingMark c cs[1]? = false
  separator : cs.take 3 ≠ "---".toList ∧ cs.take 3 ≠ "...".toList

/-- A text that is not empty and may be written plainly is such a text. -/
theorem isPlain_of_allowsPlain {cs : List Char} (h : (Analysis.of cs).allowsPlain = true)
    (nonempty : cs ≠ []) : IsPlain cs := by
  obtain ⟨c, cs, rfl⟩ := List.exists_cons_of_ne_nil nonempty
  simp only [Analysis.of, Bool.not_eq_true', Bool.or_eq_false_iff, List.any_eq_false,
    Bool.not_eq_true, Bool.not_eq_false] at h
  obtain ⟨⟨⟨⟨⟨⟨first, last⟩, -⟩, -⟩, ordinary⟩, multiline⟩, ⟨leading, inner⟩, separator⟩ := h
  have start : isSpace ' ' = true := rfl
  refine ⟨nonempty, fun x hx ↦ ⟨ordinary x hx, ?_⟩, ?_, fun final ↦ ?_, ?_, ?_, ?_⟩
  · exact of_decide_eq_false (multiline x hx).1.1.1
  · rintro ⟨⟩
    cases first.1
  · rw [final] at last
    cases last
  · rw [holdsMark, Bool.or_eq_false_iff, Bool.or_eq_false_iff]
    refine ⟨⟨?_, ?_⟩, inner⟩
    · rw [Bool.and_eq_false_iff, ← Bool.not_eq_true (cs.head?.all isSpace), or_iff_not_imp_right,
        not_not]
      intro blank
      rw [decide_eq_false_iff_not]
      rintro rfl
      rw [isLeadingMark, blank] at leading
      exact absurd leading (by simp)
    · rw [start, Bool.and_true, decide_eq_false_iff_not]
      rintro rfl
      exact absurd leading (by simp [isLeadingMark])
  · rintro _ ⟨⟩
    rwa [List.head?_eq_getElem?] at leading
  · simpa using separator

/-- What a text is that is written as words with spaces between them. -/
structure IsWords (cs : List Char) : Prop where
  nonempty : cs ≠ []
  printable : ∀ c ∈ cs, isOrdinary c = true ∧ c ≠ '\n'
  first : cs.head? ≠ some ' '
  last : cs.getLast? ≠ some ' '
  noMark : holdsMark ' ' cs = false

/-- A text that may be written plainly is written as words. -/
theorem IsPlain.isWords {cs : List Char} (h : IsPlain cs) : IsWords cs :=
  ⟨h.nonempty, h.printable, h.first, h.last, h.noMark⟩

/-- Words start with a visible character that starts no comment. -/
theorem IsWords.exists_cons {cs : List Char} (h : IsWords cs) :
    ∃ c more, cs = c :: more ∧ IsVisible c ∧ c ≠ '#' := by
  obtain ⟨c, cs, rfl⟩ := List.exists_cons_of_ne_nil h.nonempty
  obtain ⟨ordinary, feed⟩ := h.printable c List.mem_cons_self
  refine ⟨c, cs, rfl, isVisible_of_isOrdinary ordinary (fun space ↦ h.first ?_) feed, ?_⟩
  · rw [space]
    rfl
  · rintro rfl
    exact absurd h.noMark (by simp [holdsMark, isSpace])

/-- Behind a word and all the spaces after it there are words again. -/
private theorem IsWords.behind_spaces {word rest : List Char} {k : Nat}
    (h : IsWords (word ++ (List.replicate (k + 1) ' ' ++ rest))) (first : rest.head? ≠ some ' ') :
    IsWords rest where
  nonempty := by
    rintro rfl
    apply h.last
    rw [List.append_nil, List.replicate_succ', ← List.append_assoc, List.getLast?_append]
    rfl
  printable c hc := h.printable c (List.mem_append_right _ (List.mem_append_right _ hc))
  first := first
  last final := by
    apply h.last
    rw [List.getLast?_append, List.getLast?_append, final]
    rfl
  noMark := by
    have noMark := h.noMark
    rw [List.replicate_succ', List.append_assoc, ← List.append_assoc] at noMark
    exact holdsMark_append_right noMark

end Analysis

namespace Plain

variable {w word tail : List Char} {indent : Int}

/-- A word has all its characters in front of what is no part of a word. -/
private theorem wordLength_append (visible : ∀ c ∈ word, IsVisible c)
    (last : word.getLast? ≠ some ':')
    (htail : wordLength false tail = 0) : wordLength false (word ++ tail) = word.length := by
  induction word with
  | nil => exact htail
  | cons c word ih =>
    rw [List.forall_mem_cons] at visible
    have inside : (c = ':' && endsWord (word ++ tail).head?) = false := by
      rw [Bool.and_eq_false_iff, decide_eq_false_iff_not]
      cases word with
      | nil =>
        left
        rintro rfl
        exact last rfl
      | cons d word => exact .inr (visible.2 d List.mem_cons_self).endsWord_eq_false
    have more : word.getLast? ≠ some ':' := by
      cases word with
      | nil => nofun
      | cons d word => rwa [List.getLast?_cons_cons] at last
    simp only [List.cons_append, wordLength, visible.1.endsWord_eq_false, ih visible.2 more, inside,
      Bool.false_and, Bool.or_false, Bool.false_eq_true, if_false, List.length_cons]

private theorem between_spaces (k : Nat) {c : Char} (h : IsVisible c) :
    between (behind w (List.replicate k ' ' ++ c :: tail)) =
      (List.replicate k ' ', behind (List.replicate k ' ' ++ w) (c :: tail), false) := by
  have spaces : ∀ x ∈ List.replicate k ' ', x = ' ' := fun x ↦ List.eq_of_mem_replicate
  have read := @span_behind w (c :: tail) _ ((· = ' '))
    (fun x hx ↦ by rw [spaces x hx]; rfl) (fun x hx ↦ by rw [spaces x hx]; rfl) (by
      rintro _ ⟨⟩
      exact decide_eq_false (h.ne (by decide)))
  rw [List.reverse_replicate] at read
  simp only [between, read, lineBreak?_of_printable h.isOrdinary (h.ne (by decide))]

/-- Spaces that indent a line are no breaks. -/
private theorem breaks_spaces (k : Nat) (h : Opens tail) {fuel : Nat} (enough : k < fuel) :
    breaks fuel (behind w (List.replicate k ' ' ++ tail)) =
      (some [], behind (List.replicate k ' ' ++ w) tail) := by
  induction k generalizing fuel w with
  | zero =>
    obtain ⟨fuel, rfl⟩ : ∃ n, fuel = n + 1 := ⟨fuel - 1, by omega⟩
    have noSpace : (behind w tail).sees ' ' = false := by
      rw [sees, decide_eq_false_iff_not]
      exact fun head ↦ absurd (h ' ' head) (by decide)
    have noBreak : (behind w tail).lineBreak? = none := by
      cases tail with
      | nil => rfl
      | cons c tail =>
        have visible := h c rfl
        exact lineBreak?_of_printable visible.isOrdinary (visible.ne (by decide))
    rw [List.replicate_zero, List.nil_append, breaks, noSpace]
    simp [noBreak]
  | succ k ih =>
    obtain ⟨fuel, rfl⟩ : ∃ n, fuel = n + 1 := ⟨fuel - 1, by omega⟩
    have moved : List.replicate k ' ' ++ ' ' :: w = List.replicate (k + 1) ' ' ++ w := by
      rw [List.replicate_succ', List.append_assoc, List.singleton_append]
    rw [← moved, ← @ih (' ' :: w) fuel (by omega), List.replicate_succ,
      List.cons_append, breaks]
    simp only [sees, next?, chars_behind, List.head?_cons, decide_true, if_true,
      step_behind (isOrdinary_of_printable (c := ' ') (by decide) (by decide))]

/-- Behind a line feed and spaces a line has ended, unless a mark that separates documents is
there. -/
theorem between_lineFeed (k : Nat) (h : Opens tail)
    (noMark : (behind ('\n' :: w) (List.replicate k ' ' ++ tail)).seesSeparator = false) :
    between (behind w ('\n' :: (List.replicate k ' ' ++ tail))) =
      ([' '], behind (List.replicate k ' ' ++ '\n' :: w) tail, true) := by
  have stays : (behind w ('\n' :: (List.replicate k ' ' ++ tail))).span (· = ' ') =
      ([], behind w ('\n' :: (List.replicate k ' ' ++ tail))) :=
    span_of_head (by rintro _ ⟨⟩; rfl)
  have skipped := @breaks_spaces ('\n' :: w) tail k h
    ((List.replicate k ' ' ++ tail).length + 1)
    (by simp only [List.length_append, List.length_replicate]; omega)
  simp only [between, stays, lineBreak?_lineFeed, noMark, Bool.false_eq_true, if_false,
    chars_behind, skipped]
  rfl

/-- The characters of a text up to the first blank. -/
def firstWord (cs : List Char) : List Char := cs.takeWhile (IsVisible ·)

private theorem firstWord_append (visible : ∀ c ∈ word, IsVisible c)
    (blank : ∀ c, tail.head? = some c → ¬ IsVisible c) : firstWord (word ++ tail) = word := by
  rw [firstWord, List.takeWhile_append_of_pos fun c hc ↦ decide_eq_true (visible c hc)]
  cases tail with
  | nil => exact List.append_nil word
  | cons c tail => simp [blank c rfl]

/-- A text starts as its first word does. -/
theorem exists_of_firstWord {cs out : List Char} {c : Char} (h : IsVisible c)
    (first : firstWord out = firstWord (c :: cs)) : ∃ more, out = c :: more := by
  simp only [firstWord, List.takeWhile_cons, h, decide_true, if_true] at first
  cases out with
  | nil => cases first
  | cons d out =>
    rw [List.takeWhile_cons] at first
    split at first
    · exact ⟨out, congrArg (· :: out) (List.cons.inj first).1⟩
    · cases first

/-- What stands between the blanks of a plain scalar. -/
structure IsWord (word : List Char) : Prop where
  nonempty : word ≠ []
  visible : ∀ c ∈ word, IsVisible c
  comment : word.head? ≠ some '#'
  colon : word.getLast? ≠ some ':'

/-- A word is read up to what is no part of it. -/
theorem words_append {before : List Char} (h : IsWord word) (htail : wordLength false tail = 0)
    (fuel : Nat) (ended : Bool) :
    words (fuel + 1) false indent before (behind w (word ++ tail)) ended =
      match between (behind (word.reverse ++ w) tail) with
      | (after, c, ended) =>
        if after.isEmpty || c.sees '#' || (c.column : Int) < indent then (before ++ word, c, ended)
        else
          match words fuel false indent after c ended with
          | (rest, c, ended) => (before ++ word ++ rest, c, ended) := by
  have length := wordLength_append h.visible h.colon htail
  have noComment : (behind w (word ++ tail)).sees '#' = false := by
    obtain ⟨c, word, rfl⟩ := List.exists_cons_of_ne_nil h.nonempty
    exact decide_eq_false h.comment
  have positive : decide (word.length = 0) = false := by simpa using h.nonempty
  have moved := @drop_behind w tail _ fun c hc ↦ (h.visible c hc).isOrdinary
  rw [words, chars_behind, length, noComment, moved, List.take_left]
  simp only [positive, Bool.or_self, Bool.false_eq_true, if_false, Bool.not_false, Bool.true_and]

/-- The words of a plain scalar end in front of something, with the place after them and whether a
line has ended there. -/
structure Stops (indent : Int) (w tail : List Char) (c : Cursor) (ended : Bool) : Prop where
  word : wordLength false tail = 0
  between : ∃ after, between (behind w tail) = (after, c, ended) ∧
    (after.isEmpty || c.sees '#' || (c.column : Int) < indent) = true

/-- They end at a colon in front of a blank. -/
theorem stops_colon {c : Char} (h : endsWord (some c) = true) :
    Stops indent w (':' :: c :: tail) (behind w (':' :: c :: tail)) false where
  word := by
    have colon : endsWord (some ':') = false := by decide
    simp [wordLength, colon, h]
  between := by
    refine ⟨[], ?_, rfl⟩
    have stays : (behind w (':' :: c :: tail)).span (· = ' ') = ([], behind w (':' :: c :: tail)) :=
      span_of_head (by rintro _ ⟨⟩; rfl)
    simp only [between, stays, lineBreak?_of_printable (c := ':') (by decide) (by decide)]

/-- What is ahead goes on with neither a blank nor a comment nor a mark that separates documents. -/
structure GoesOn (cs : List Char) : Prop where
  opens : Opens cs
  comment : cs.head? ≠ some '#'
  separator : ∀ w, (behind w cs).seesSeparator = false

/-- Nothing goes on at the end of the text. -/
theorem GoesOn.nil : GoesOn [] := ⟨.nil, nofun, fun _ ↦ rfl⟩

/-- A text goes on with a visible character that starts neither a comment nor a separator. -/
theorem GoesOn.cons {c : Char} (h : IsVisible c) (comment : c ≠ '#') (hyphen : c ≠ '-')
    (point : c ≠ '.') (tail : List Char) : GoesOn (c :: tail) :=
  ⟨.cons h tail, fun head ↦ comment (Option.some.inj head),
    fun _ ↦ seesSeparator_of_head (by rintro _ ⟨⟩; exact ⟨hyphen, point⟩)⟩

private theorem GoesOn.seesSeparator_eq_false (h : GoesOn tail) (k : Nat) :
    (behind w (List.replicate k ' ' ++ tail)).seesSeparator = false := by
  cases k with
  | zero => exact h.separator w
  | succ k => exact seesSeparator_of_head (by rintro _ ⟨⟩; decide)

/-- They end with a line that is followed by one in a column outside of the block. -/
theorem stops_lineFeed {k : Nat} (outside : (k : Int) < indent) (h : GoesOn tail) :
    Stops indent w ('\n' :: (List.replicate k ' ' ++ tail))
      (behind (List.replicate k ' ' ++ '\n' :: w) tail) true where
  word := by
    have ends : endsWord (some '\n') = true := rfl
    simp [wordLength, ends]
  between := by
    refine ⟨_, between_lineFeed k h.opens (h.seesSeparator_eq_false k), ?_⟩
    have column : (behind (List.replicate k ' ' ++ '\n' :: w) tail).column = k := by
      rw [column_behind, List.takeWhile_append_of_pos (by simp)]
      simp
    rw [column, decide_eq_true outside, Bool.or_true]

/-! ### Words in front of others -/

/-- Characters are read as words of a text, up to where the words end, with the first word as it
stands in the text. -/
structure Reads (indent : Int) (w out cs : List Char) : Prop where
  first : firstWord out = firstWord cs
  words_eq : ∀ {tail c ended}, Stops indent (out.reverse ++ w) tail c ended →
    ∀ fuel before e, (out ++ tail).length < fuel →
      words fuel false indent before (behind w (out ++ tail)) e = (before ++ cs, c, ended)

private theorem reads_word (h : IsWord word) : Reads indent w word word where
  first := rfl
  words_eq {tail c ended} stops fuel before e large := by
    obtain ⟨fuel, rfl⟩ : ∃ n, fuel = n + 1 := ⟨fuel - 1, by omega⟩
    obtain ⟨after, hbetween, stop⟩ := stops.between
    rw [words_append h stops.word, hbetween]
    simp only [stop, if_true]

/-- What stands between two words, and what it stands for. -/
structure Parts (indent : Int) (w gap spaces : List Char) : Prop where
  blank : ∃ c more, gap = c :: more ∧ (c = ' ' ∨ c = '\n')
  some : spaces ≠ []
  inside : indent ≤ ((gap.reverse ++ w).takeWhile (· ≠ '\n')).length
  between_eq : ∀ {c} tail, IsVisible c →
    ∃ ended, between (behind w (gap ++ c :: tail)) =
      (spaces, behind (gap.reverse ++ w) (c :: tail), ended)

private theorem parts_spaces (k : Nat)
    (inside : indent ≤ (w.takeWhile (· ≠ '\n')).length) :
    Parts indent w (List.replicate (k + 1) ' ') (List.replicate (k + 1) ' ') where
  blank := ⟨' ', _, List.replicate_succ, .inl rfl⟩
  some := List.cons_ne_nil _ _
  inside := by
    rw [List.reverse_replicate, List.takeWhile_append_of_pos (by simp), List.length_append]
    omega
  between_eq tail visible :=
    ⟨false, by rw [List.reverse_replicate]; exact between_spaces (k + 1) visible⟩

private theorem parts_lineFeed {column : Nat} (positive : 0 < column) (inside : indent ≤ column) :
    Parts indent w ('\n' :: List.replicate column ' ') [' '] where
  blank := ⟨'\n', _, rfl, .inr rfl⟩
  some := List.cons_ne_nil _ _
  inside := by
    rw [List.reverse_cons, List.reverse_replicate, List.append_assoc,
      List.takeWhile_append_of_pos (by simp)]
    simpa using inside
  between_eq {c} tail visible := by
    obtain ⟨column, rfl⟩ : ∃ n, column = n + 1 := ⟨column - 1, by omega⟩
    refine ⟨true, ?_⟩
    rw [List.reverse_cons, List.reverse_replicate, List.append_assoc]
    exact between_lineFeed (column + 1) (.cons visible tail)
      (seesSeparator_of_head (by rintro _ ⟨⟩; decide))

/-- A word is read before the words behind it. -/
private theorem Reads.cons {gap spaces out cs : List Char} {x : Char} (h : IsWord word)
    (parts : Parts indent (word.reverse ++ w) gap spaces) (hx : IsVisible x) (comment : x ≠ '#')
    (blank : spaces.head? = some ' ')
    (rest : Reads indent (gap.reverse ++ (word.reverse ++ w)) out (x :: cs)) :
    Reads indent w (word ++ (gap ++ out)) (word ++ (spaces ++ x :: cs)) where
  first := by
    obtain ⟨c, more, rfl, hc⟩ := parts.blank
    obtain ⟨spaces, rfl⟩ := List.head?_eq_some_iff.mp blank
    rw [firstWord_append h.visible, firstWord_append h.visible]
    · rintro _ ⟨⟩
      decide
    · rintro _ ⟨⟩
      rcases hc with rfl | rfl <;> decide
  words_eq {tail c ended} stops fuel before e large := by
    obtain ⟨fuel, rfl⟩ : ∃ n, fuel = n + 1 := ⟨fuel - 1, by omega⟩
    obtain ⟨out, rfl⟩ := exists_of_firstWord hx rest.first
    obtain ⟨e', hbetween⟩ := parts.between_eq (out ++ tail) hx
    have stop : wordLength false (gap ++ (x :: out ++ tail)) = 0 := by
      obtain ⟨c, more, rfl, hc⟩ := parts.blank
      have ends : endsWord (Option.some c) = true := by rcases hc with rfl | rfl <;> rfl
      rw [List.cons_append, wordLength, if_pos ends]
    have inside : decide (((behind (gap.reverse ++ (word.reverse ++ w))
        (x :: (out ++ tail))).column : Int) < indent) = false := by
      rw [decide_eq_false_iff_not, Int.not_lt]
      exact parts.inside
    have noComment : (behind (gap.reverse ++ (word.reverse ++ w)) (x :: (out ++ tail))).sees '#' =
        false := by
      simp [sees, next?, comment]
    have after : spaces.isEmpty = false := List.isEmpty_eq_false_iff.mpr parts.some
    have place : (word ++ (gap ++ x :: out)).reverse ++ w =
        (x :: out).reverse ++ (gap.reverse ++ (word.reverse ++ w)) := by
      simp
    rw [place] at stops
    have positive := List.length_pos_iff.mpr h.nonempty
    have read := rest.words_eq stops fuel spaces e' (by
      simp only [List.length_append, List.length_cons] at large ⊢
      omega)
    rw [List.cons_append] at read
    rw [List.append_assoc, List.append_assoc, words_append h stop, List.cons_append, hbetween]
    simp only [inside, noComment, after, Bool.or_self, Bool.false_eq_true, if_false, read,
      List.append_assoc]

end Plain

namespace Pen

open Plain

variable {p : Pen} {column : Nat}

/-- A plain scalar starts with a word, in front of its end or of spaces and the rest. -/
private theorem exists_word {cs : List Char} (h : IsWords cs) :
    ∃ word rest, run (· ≠ ' ') cs = (word, rest) ∧ cs = word ++ rest ∧ IsWord word ∧
      ∀ c, rest.head? = some c → c = ' ' := by
  obtain ⟨word, rest, hword, rfl, noSpace, hrest⟩ := exists_run_eq (· ≠ ' ') cs
  have space : ∀ c, rest.head? = some c → c = ' ' := fun c hc ↦ by simpa using hrest c hc
  refine ⟨word, rest, hword, rfl, ⟨?_, fun c hc ↦ ?_, fun head ↦ ?_, fun final ↦ ?_⟩, space⟩
  · rintro rfl
    obtain ⟨c, rest, rfl⟩ := List.exists_cons_of_ne_nil h.nonempty
    exact h.first (congrArg some (space c rfl))
  · obtain ⟨ordinary, feed⟩ := h.printable c (List.mem_append_left rest hc)
    exact isVisible_of_isOrdinary ordinary (by simpa using noSpace c hc) feed
  · obtain ⟨more, rfl⟩ := List.head?_eq_some_iff.mp head
    exact absurd h.noMark (by simp [holdsMark, isSpace])
  · obtain ⟨front, rfl⟩ := List.getLast?_eq_some_iff.mp final
    have noMark := h.noMark
    rw [List.append_assoc] at noMark
    obtain ⟨c, hc, blank⟩ := head_of_colon noMark
    obtain rfl := space c hc
    cases blank

/-- The words of a plain scalar are read back up to where they end. -/
theorem exists_plainWords (positive : 0 < column) {indent : Int} (inside : indent ≤ column)
    (canSplit : Bool) {fuel : Nat} {cs : List Char} (enough : cs.length < fuel) (h : IsWords cs)
    {p : Pen} (indenting : p.isIndenting = false) (placed : p.IsPlaced)
    (before : indent ≤ p.column + 1) :
    ∃ out, p.Writes out (p.plainWords fuel column canSplit cs) ∧ Reads indent p.written out cs := by
  induction fuel generalizing cs p with
  | zero => cases enough
  | succ fuel ih =>
    obtain ⟨word, rest, hword, rfl, isWord, space⟩ := exists_word h
    have written := writes_put (p := p) fun c hc ↦
      ⟨(isWord.visible c hc).isOrdinary, (isWord.visible c hc).ne (by decide)⟩
    rw [plainWords, hword]
    simp only [List.isEmpty_eq_false_iff.mpr h.nonempty, Bool.false_eq_true, if_false]
    cases rest with
    | nil =>
      have ends (q : Pen) : q.plainWords fuel column canSplit [] = q := by
        cases fuel <;> rfl
      refine ⟨word, ?_, ?_⟩
      · simpa [run, put, ends] using written
      · rw [List.append_nil]
        exact reads_word isWord
    | cons c rest =>
      obtain rfl := space c rfl
      obtain ⟨k, rest, hrun, heq, hrest⟩ := exists_run_replicate ' ' rest
      rw [heq] at enough h hrun ⊢
      have more := h.behind_spaces hrest
      obtain ⟨x, rest, rfl, visible, comment⟩ := more.exists_cons
      have shorter : (x :: rest).length < fuel := by
        simp only [List.length_append, List.length_replicate] at enough
        omega
      -- Whatever stands for the spaces, the words behind it are read next.
      have onward {q : Pen} {gap : List Char} (writes : (p.put word).Writes gap q)
          (indenting : q.isIndenting = false) (inside : indent ≤ q.column)
          (parts : Parts indent (word.reverse ++ p.written) gap (List.replicate (k + 1) ' ')) :
          ∃ out, p.Writes out (q.plainWords fuel column canSplit (x :: rest)) ∧
            Reads indent p.written out (word ++ (List.replicate (k + 1) ' ' ++ x :: rest)) := by
        obtain ⟨out, houtWrites, reads⟩ :=
          ih shorter more indenting ((written.trans writes).placed placed) (by omega)
        rw [writes.written, written.written] at reads
        exact ⟨_, written.trans (writes.trans houtWrites),
          reads.cons isWord parts visible comment rfl⟩
      simp only [hrun, List.length_replicate]
      split
      · next breaks =>
        simp only [Bool.and_eq_true, decide_eq_true_eq] at breaks
        obtain rfl : k = 0 := by omega
        obtain ⟨line, hcolumn, -, -⟩ := @indent_of_breaks (p.put word) column
          (.inl indenting)
        refine onward (line.of_eq rfl rfl) rfl ?_ (parts_lineFeed positive inside)
        rw [inText, hcolumn]
        exact inside
      · next stays =>
        have length := List.length_pos_iff.mpr isWord.nonempty
        have here : indent ≤ (p.put word).column := by
          rw [put]
          show indent ≤ ((p.column + word.length : Nat) : Int)
          omega
        refine onward (writes_spaces (k + 1)) indenting ?_ (parts_spaces k ?_)
        · simp only [put, List.length_replicate] at here ⊢
          omega
        · rwa [← written.written, ← written.placed placed]

/-- A plain scalar is read back up to where it ends. -/
theorem exists_plain (positive : 0 < column) {indent : Int} (inside : indent < column)
    (canSplit : Bool) {cs : List Char} (h : IsPlain cs) (placed : p.IsPlaced)
    (before : indent ≤ p.column + p.gap.length) :
    ∃ out, p.Writes (p.gap ++ out) (p.plain column canSplit cs) ∧ firstWord out = firstWord cs ∧
      ∀ {tail c ended},
        Stops (indent + 1) (out.reverse ++ (p.gap.reverse ++ p.written)) tail c ended →
          scan false indent (behind (p.gap.reverse ++ p.written) (out ++ tail)) =
            (cs, c, ended) := by
  have opened : p.Writes p.gap (if p.isSpaced then p else p.put [' ']).inText := by
    have mark := @writes_mark p [] (List.forall_mem_nil _)
    rw [List.append_nil] at mark
    apply mark.of_eq
    · rw [Pen.mark]
      split <;> rfl
    · rw [Pen.mark]
      split <;> rfl
  obtain ⟨out, writes, reads⟩ := @exists_plainWords _ positive (indent + 1) (by omega) canSplit _ _
    (Nat.lt_succ_self _) h.isWords (if p.isSpaced then p else p.put [' ']).inText rfl
    (opened.placed placed) (by
      have further : (if p.isSpaced then p else p.put [' ']).inText.column =
          p.column + p.gap.length := by
        rw [gap]
        split <;> rfl
      omega)
  refine ⟨out, ?_, reads.first, fun {tail c ended} stops ↦ ?_⟩
  · simpa [plain, h.nonempty] using opened.trans writes
  · rw [← opened.written] at stops ⊢
    exact reads.words_eq stops _ [] false (Nat.lt_succ_self _)

end Pen

end EntityGraph.Yaml
