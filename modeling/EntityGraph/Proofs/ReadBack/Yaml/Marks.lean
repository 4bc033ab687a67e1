import EntityGraph.Proofs.ReadBack.Digits
import EntityGraph.Proofs.ReadBack.Yaml.Places
import Mathlib.Data.List.TakeWhile

/-!
# Scalars in marks read back

A scalar that is written in single or double marks is read as its text, wherever its lines are
broken. In single marks a broken space is a line feed, and line feeds are one more than in the text.
In double marks a line ends with a backslash, and a space that starts the next line is escaped.
-/

namespace EntityGraph.Yaml

open EntityGraph.Text Analysis Cursor

namespace Quoted

/-! ### Reading in parts -/

/-- The text up to the closing mark, and the place behind the mark. -/
inductive Reads (mark : Char) : Cursor → List Char → Cursor → Prop
  | close {c : Cursor} (h : part mark c = .ok none) : Reads mark c [] c.step
  | part {c d e : Cursor} {cs more : List Char} (h : part mark c = .ok (some (cs, d)))
      (shorter : d.chars.length < c.chars.length) (rest : Reads mark d more e) :
      Reads mark c (cs ++ more) e

private theorem Reads.rest_eq {mark : Char} {c d : Cursor} {cs : List Char} (h : Reads mark c cs d)
    {fuel : Nat} (enough : c.chars.length < fuel) : rest fuel mark c = .ok (cs, d) := by
  induction h generalizing fuel with
  | close h =>
    obtain ⟨fuel, rfl⟩ : ∃ n, fuel = n + 1 := ⟨fuel - 1, by omega⟩
    rw [rest, h]
    rfl
  | part h shorter _ ih =>
    obtain ⟨fuel, rfl⟩ : ∃ n, fuel = n + 1 := ⟨fuel - 1, by omega⟩
    rw [rest, h]
    show (Quoted.rest fuel mark _ >>= _) = _
    rw [ih (by omega)]
    rfl

/-- Characters behind others are taken for a part of the text, if what follows is as it should
be. -/
def Takes (mark : Char) (follow : List Char → Prop) (w out cs : List Char) : Prop :=
  ∀ tail more d, follow tail → Reads mark (behind (out.reverse ++ w) tail) more d →
    Reads mark (behind w (out ++ tail)) (cs ++ more) d

/-- Whatever follows. -/
def Anything (_ : List Char) : Prop := True

variable {mark : Char} {follow follow' : List Char → Prop}
  {w tail more out out' cs cs' : List Char} {c : Char} {d : Cursor}

/-- No characters are no part. -/
theorem Takes.nil : Takes mark follow w [] [] := fun _ _ _ _ ↦ id

/-- One part after another. -/
theorem Takes.append (h : Takes mark follow w out cs)
    (h' : Takes mark follow' (out.reverse ++ w) out' cs')
    (follows : ∀ tail, follow' tail → follow (out' ++ tail)) :
    Takes mark follow' w (out ++ out') (cs ++ cs') := by
  intro tail more d hfollow reads
  rw [List.append_assoc, List.append_assoc]
  refine h (out' ++ tail) (cs' ++ more) d (follows tail hfollow) (h' tail more d hfollow ?_)
  rwa [List.reverse_append, List.append_assoc] at reads

/-- A part before any other. -/
theorem Takes.before (h : Takes mark Anything w out cs)
    (h' : Takes mark follow (out.reverse ++ w) out' cs') :
    Takes mark follow w (out ++ out') (cs ++ cs') :=
  h.append h' fun _ _ ↦ trivial

private theorem part_visible (h : IsVisible c) (hmark : c ≠ mark)
    (hslash : ¬ (c = backslash ∧ mark = quotationMark)) :
    part mark (behind w (c :: tail)) = .ok (some ([c], behind (c :: w) tail)) := by
  simp only [part, chars_behind, if_neg hmark, h.endsWord_eq_false, Bool.and_eq_true,
    decide_eq_true_eq, if_neg hslash, Bool.false_eq_true, if_false, step_behind h.isOrdinary]

/-- Such a character is read before the rest. -/
theorem Takes.visible (h : IsVisible c) (hmark : c ≠ mark)
    (hslash : ¬ (c = backslash ∧ mark = quotationMark)) : Takes mark Anything w [c] [c] :=
  fun _ _ _ _ ↦ .part (part_visible h hmark hslash) (Nat.lt_succ_self _)

/-- Blanks are no marks. -/
theorem part_blank (hmark : IsVisible mark) (hc : c = ' ' ∨ c = '\n') :
    part mark (behind w (c :: tail)) = (blanks (behind w (c :: tail))).map some := by
  have noMark : c ≠ mark := by
    rintro rfl
    rcases hc with rfl | rfl <;> exact absurd hmark (by decide)
  have noSlash : c ≠ backslash := by rcases hc with rfl | rfl <;> decide
  have ends : endsWord (some c) = true := by rcases hc with rfl | rfl <;> rfl
  simp only [part, chars_behind, if_neg noMark, noSlash, ends, decide_false, Bool.false_and,
    Bool.false_eq_true, if_false, if_true]

/-- Spaces are read up to a visible character. -/
theorem span_spaces (k : Nat) (h : IsVisible c) :
    (behind w (List.replicate k ' ' ++ c :: tail)).span (fun x ↦ x = ' ' || x = '\t') =
      (List.replicate k ' ', behind (List.replicate k ' ' ++ w) (c :: tail)) := by
  have spaces : ∀ x ∈ List.replicate k ' ', x = ' ' := fun x ↦ List.eq_of_mem_replicate
  have read := @span_behind w (c :: tail) _ (fun x ↦ x = ' ' || x = '\t')
    (fun x hx ↦ by rw [spaces x hx]; rfl) (fun x hx ↦ by rw [spaces x hx]; rfl) (by
      rintro _ ⟨⟩
      simp [h.ne (d := ' ') (by decide), h.ne (d := '\t') (by decide)])
  rwa [List.reverse_replicate] at read

private theorem part_spaces (hmark : IsVisible mark) (k : Nat) (h : IsVisible c) :
    part mark (behind w (List.replicate (k + 1) ' ' ++ c :: tail)) =
      .ok (some (List.replicate (k + 1) ' ',
        behind (List.replicate (k + 1) ' ' ++ w) (c :: tail))) := by
  rw [List.replicate_succ, List.cons_append, part_blank hmark (.inl rfl), ← List.cons_append,
    ← List.replicate_succ, blanks, span_spaces (k + 1) h]
  simp only [chars_behind, List.isEmpty_cons, Bool.false_eq_true, if_false,
    lineBreak?_of_printable h.isOrdinary (h.ne (by decide))]
  rfl

/-- Spaces are read before the rest. -/
theorem Takes.spaces (hmark : IsVisible mark) (k : Nat) :
    Takes mark Shows w (List.replicate (k + 1) ' ') (List.replicate (k + 1) ' ') := by
  rintro _ more d ⟨c, tail, rfl, h⟩ rest
  rw [List.reverse_replicate] at rest
  refine .part (part_spaces hmark k h) ?_ rest
  simp [chars_behind]

/-- Line feeds and spaces are read up to a visible character. -/
theorem breaks_feeds (feeds : Nat) {k : Nat} (positive : 0 < k) (h : IsVisible c) {fuel : Nat}
    (enough : feeds < fuel) :
    breaks fuel (behind w (List.replicate feeds '\n' ++ (List.replicate k ' ' ++ c :: tail))) =
      .ok (List.replicate feeds '\n',
        behind (List.replicate k ' ' ++ (List.replicate feeds '\n' ++ w)) (c :: tail)) := by
  induction feeds generalizing w fuel with
  | zero =>
    obtain ⟨fuel, rfl⟩ : ∃ n, fuel = n + 1 := ⟨fuel - 1, by omega⟩
    obtain ⟨k, rfl⟩ : ∃ n, k = n + 1 := ⟨k - 1, by omega⟩
    have noMark : (behind w (List.replicate (k + 1) ' ' ++ c :: tail)).seesSeparator = false :=
      seesSeparator_of_head (by rintro _ ⟨⟩; decide)
    simp only [List.replicate_zero, List.nil_append, breaks, noMark, Bool.false_eq_true, if_false,
      skip, span_spaces (k + 1) h, lineBreak?_of_printable h.isOrdinary (h.ne (by decide))]
  | succ feeds ih =>
    obtain ⟨fuel, rfl⟩ : ∃ n, fuel = n + 1 := ⟨fuel - 1, by omega⟩
    have noMark : (behind w ('\n' :: (List.replicate feeds '\n' ++
        (List.replicate k ' ' ++ c :: tail)))).seesSeparator = false :=
      seesSeparator_of_head (by rintro _ ⟨⟩; decide)
    have rest := @ih ('\n' :: w) fuel (by omega)
    have stays : (behind w ('\n' :: (List.replicate feeds '\n' ++
        (List.replicate k ' ' ++ c :: tail)))).span (fun x ↦ x = ' ' || x = '\t') =
        ([], behind w ('\n' :: (List.replicate feeds '\n' ++
          (List.replicate k ' ' ++ c :: tail)))) :=
      span_of_head (by rintro _ ⟨⟩; rfl)
    have moved : List.replicate feeds '\n' ++ '\n' :: w = List.replicate (feeds + 1) '\n' ++ w := by
      rw [List.replicate_succ', List.append_assoc, List.singleton_append]
    rw [List.replicate_succ, List.cons_append, breaks, noMark]
    simp only [Bool.false_eq_true, if_false, skip, stays, lineBreak?_lineFeed, rest, moved]
    rfl

/-- Line feeds and the spaces that indent the next line are read before the rest. A single line feed
stands for a space, and of several the first does not count. -/
private theorem Takes.feeds (hmark : IsVisible mark) (feeds : Nat) {k : Nat} (positive : 0 < k) :
    Takes mark Shows w (List.replicate (feeds + 1) '\n' ++ List.replicate k ' ')
      (foldBreaks '\n' (List.replicate feeds '\n')) := by
  rintro _ more d ⟨c, tail, rfl, h⟩ rest
  have stays : (behind w ('\n' :: (List.replicate feeds '\n' ++
      (List.replicate k ' ' ++ c :: tail)))).span (fun x ↦ x = ' ' || x = '\t') =
      ([], behind w ('\n' :: (List.replicate feeds '\n' ++ (List.replicate k ' ' ++ c :: tail)))) :=
    span_of_head (by rintro _ ⟨⟩; rfl)
  have ahead := @breaks_feeds ('\n' :: w) tail c feeds k positive h
    ((List.replicate feeds '\n' ++ (List.replicate k ' ' ++ c :: tail)).length + 1) (by
      simp only [List.length_append, List.length_replicate]
      omega)
  have moved : List.replicate feeds '\n' ++ '\n' :: w = List.replicate (feeds + 1) '\n' ++ w := by
    rw [List.replicate_succ', List.append_assoc, List.singleton_append]
  rw [List.reverse_append, List.reverse_replicate, List.reverse_replicate,
    List.append_assoc] at rest
  rw [List.append_assoc]
  refine .part ?_ ?_ rest
  · rw [List.replicate_succ, List.cons_append, part_blank hmark (.inr rfl), blanks, stays]
    simp only [chars_behind, List.isEmpty_cons, Bool.false_eq_true, if_false, lineBreak?_lineFeed,
      breaksAhead, ahead, moved]
    rfl
  · simp only [chars_behind, List.length_append, List.length_cons, List.length_replicate]
    omega

private theorem part_mark (htail : tail.head? ≠ some apostrophe) :
    part mark (behind w (mark :: tail)) = .ok none := by
  simp [part, htail]

private theorem Takes.scan_eq (hmark : IsVisible mark) (h : Takes mark Shows (mark :: w) out cs)
    (htail : tail.head? ≠ some apostrophe) :
    scan mark (behind w (mark :: (out ++ mark :: tail))) =
      .ok (cs, behind ((out ++ [mark]).reverse ++ (mark :: w)) tail) := by
  have reads := h (mark :: tail) [] _ (.cons hmark tail) (.close (part_mark htail))
  rw [List.append_nil, step_behind hmark.isOrdinary] at reads
  rw [scan, step_behind hmark.isOrdinary, List.reverse_append]
  apply reads.rest_eq
  simp only [chars_behind, List.length_append, List.length_cons]
  omega

end Quoted

/-! ### Runs of characters -/

namespace Analysis

variable {pair : Char → Char → Bool} {as bs cs : List Char} {a b : Char}

/-- A text without a pair of neighbours has none in its end. -/
theorem holdsPair_append_right (h : holdsPair pair (as ++ bs) = false) :
    holdsPair pair bs = false := by
  induction as with
  | nil => exact h
  | cons a as ih =>
    apply ih
    cases rest : as ++ bs with
    | nil => rfl
    | cons b cs =>
      rw [List.cons_append, rest, holdsPair, Bool.or_eq_false_iff] at h
      exact h.2

private theorem pair_eq_false (h : holdsPair pair (as ++ a :: b :: cs) = false) :
    pair a b = false := by
  have rest := holdsPair_append_right h
  rw [holdsPair, Bool.or_eq_false_iff] at rest
  exact rest.1

private theorem pair_head_eq_false {k : Nat}
    (h : holdsPair pair (List.replicate (k + 1) a ++ bs) = false)
    (hb : bs.head? = some b) : pair a b = false := by
  obtain ⟨cs, rfl⟩ := List.head?_eq_some_iff.mp hb
  rw [List.replicate_succ', List.append_assoc] at h
  exact pair_eq_false h

end Analysis

/-- The first characters of a kind, and the rest. -/
theorem Pen.exists_run_eq (p : Char → Bool) (cs : List Char) :
    ∃ word rest, Pen.run p cs = (word, rest) ∧ cs = word ++ rest ∧ (∀ c ∈ word, p c = true) ∧
      ∀ c, rest.head? = some c → p c = false := by
  refine ⟨cs.takeWhile p, cs.dropWhile p, rfl, List.takeWhile_append_dropWhile.symm,
    fun c ↦ List.mem_takeWhile_imp, fun c hc ↦ ?_⟩
  have head := List.head?_dropWhile_not p cs
  rw [hc] at head
  simpa using head

/-- The first characters that are one character, and the rest. -/
theorem Pen.exists_run_replicate (c : Char) (cs : List Char) :
    ∃ k rest, Pen.run (· = c) (c :: cs) = (List.replicate (k + 1) c, rest) ∧
      c :: cs = List.replicate (k + 1) c ++ rest ∧ rest.head? ≠ some c := by
  obtain ⟨word, rest, hrun, heq, hword, hrest⟩ := Pen.exists_run_eq (· = c) (c :: cs)
  have same : word = List.replicate word.length c :=
    List.eq_replicate_iff.mpr ⟨rfl, fun x hx ↦ of_decide_eq_true (hword x hx)⟩
  have other : rest.head? ≠ some c := fun head ↦ of_decide_eq_false (hrest c head) rfl
  cases word with
  | nil =>
    obtain rfl : c :: cs = rest := heq
    exact absurd rfl other
  | cons x word =>
    exact ⟨word.length, rest, by rw [hrun, same]; simp, by rw [heq, same]; simp, other⟩

private theorem Pen.exists_run_blanks {c d : Char} {cs : List Char}
    (h : holdsPair (fun a b ↦ a = c && b = d) (c :: cs) = false) :
    ∃ k rest, Pen.run (· = c) (c :: cs) = (List.replicate (k + 1) c, rest) ∧
      c :: cs = List.replicate (k + 1) c ++ rest ∧
      ∀ x, rest.head? = some x → x ≠ c ∧ x ≠ d := by
  obtain ⟨k, rest, hrun, heq, hrest⟩ := Pen.exists_run_replicate c cs
  refine ⟨k, rest, hrun, heq, fun x head ↦ ⟨?_, ?_⟩⟩
  · rintro rfl
    exact hrest head
  · rintro rfl
    rw [heq] at h
    simpa using pair_head_eq_false h head

/-! ### Single marks -/

/-- An apostrophe is visible. -/
theorem isVisible_apostrophe : IsVisible apostrophe := by decide

namespace Quoted

/-- A word with its apostrophes doubled. -/
def doubled (word : List Char) : List Char :=
  word.flatMap fun c ↦ if c = apostrophe then [c, c] else [c]

/-- Doubling apostrophes adds no other characters. -/
theorem mem_of_mem_doubled {c : Char} {word : List Char} (h : c ∈ doubled word) : c ∈ word := by
  obtain ⟨x, hx, hc⟩ := List.mem_flatMap.mp h
  have same : c = x := by
    split at hc <;> simpa using hc
  exact same ▸ hx

private theorem head?_doubled (word : List Char) : (doubled word).head? = word.head? := by
  cases word with
  | nil => rfl
  | cons c word =>
    rw [doubled, List.flatMap_cons]
    split <;> rfl

/-- A word is read from its doubled form. -/
private theorem takes_doubled {word w : List Char} (visible : ∀ c ∈ word, IsVisible c) :
    Takes apostrophe Anything w (doubled word) word := by
  induction word generalizing w with
  | nil => exact .nil
  | cons c word ih =>
    rw [List.forall_mem_cons] at visible
    rw [doubled, List.flatMap_cons]
    by_cases hc : c = apostrophe
    · subst hc
      have twice : Takes apostrophe Anything w [apostrophe, apostrophe] [apostrophe] := by
        intro tail more d _ rest
        refine @Reads.part _ _ _ _ [apostrophe] _ ?_ ?_ rest
        · simp only [part, chars_behind, List.cons_append, List.nil_append, List.head?_cons,
            decide_true, Bool.and_self, if_true]
          exact congrArg (fun c ↦ Except.ok (some ([apostrophe], c)))
            (@drop_behind _ _ [apostrophe, apostrophe] (List.all_eq_true.mp rfl))
        · simp only [chars_behind, List.length_append, List.length_cons, List.length_nil]
          omega
      exact twice.before (ih visible.2)
    · rw [if_neg hc]
      have once : Takes apostrophe Anything w [c] [c] := .visible visible.1 hc (by
        simp [apostrophe, quotationMark])
      exact once.before (ih visible.2)

end Quoted

namespace Pen

variable {p : Pen} {column : Nat}

/-- Line feeds are written one more than they are, with spaces up to the column. -/
private theorem writes_breaks (count column : Nat) (p : Pen) :
    p.Writes (List.replicate (count + 1) '\n' ++ List.replicate column ' ')
      (p.breaks count column) := by
  have feeds : ∀ k (p : Pen), p.Writes (List.replicate (k + 1) '\n')
      ((List.replicate (k + 1) ()).foldl (fun p _ ↦ p.breakLine) p) ∧
      ∃ q : Pen, (List.replicate (k + 1) ()).foldl (fun p _ ↦ p.breakLine) p = q.breakLine := by
    intro k
    induction k with
    | zero => exact fun p ↦ ⟨writes_breakLine, p, rfl⟩
    | succ k ih =>
      intro p
      obtain ⟨writes, last⟩ := ih p.breakLine
      exact ⟨writes_breakLine.trans writes, last⟩
  obtain ⟨writes, q, hq⟩ := feeds count p
  rw [breaks]
  have stays : ¬ q.breakLine.Breaks column := by simp [Breaks, breakLine]
  have spaces := (indent_of_not_breaks stays).1
  rw [hq] at writes ⊢
  exact writes.trans spaces

/-- From one pen to another characters are written that are read as a text within single marks. They
start with a visible character if the text does not start with a blank. -/
def WritesSingle (p q : Pen) (cs : List Char) : Prop :=
  ∃ out, p.Writes out q ∧ ((∀ c, cs.head? = some c → c ≠ ' ' ∧ c ≠ '\n') → Opens out) ∧
    Quoted.Takes apostrophe Shows p.written out cs

private theorem WritesSingle.blanks {q r : Pen} {out rest : List Char} {c : Char} (k : Nat)
    (blank : c = ' ' ∨ c = '\n') (visible : ∀ x, rest.head? = some x → x ≠ ' ' ∧ x ≠ '\n')
    (writes : p.Writes out q)
    (takes : Quoted.Takes apostrophe Shows p.written out (List.replicate (k + 1) c))
    (h : q.WritesSingle r rest) : p.WritesSingle r (List.replicate (k + 1) c ++ rest) := by
  obtain ⟨more, writesMore, opens, takesMore⟩ := h
  rw [writes.written] at takesMore
  refine ⟨out ++ more, writes.trans writesMore, fun head ↦ ?_,
    takes.append takesMore fun tail ↦ (opens visible).append⟩
  obtain ⟨noSpace, noFeed⟩ := head c rfl
  exact (blank.elim noSpace noFeed).elim

/-- A word in front of any text. -/
private theorem WritesSingle.word {r : Pen} {word rest : List Char} (some : word ≠ [])
    (visible : ∀ x ∈ word, IsVisible x)
    (h : (p.put (Quoted.doubled word)).WritesSingle r rest) : p.WritesSingle r (word ++ rest) := by
  obtain ⟨more, writesMore, -, takesMore⟩ := h
  have writes : p.Writes (Quoted.doubled word) (p.put (Quoted.doubled word)) :=
    writes_put fun x hx ↦
      have hvisible := visible x (Quoted.mem_of_mem_doubled hx)
      ⟨hvisible.isOrdinary, hvisible.ne (by decide)⟩
  rw [writes.written] at takesMore
  refine ⟨_, writes.trans writesMore, fun _ x hx ↦ ?_,
    (Quoted.takes_doubled visible).before takesMore⟩
  obtain ⟨y, word, rfl⟩ := List.exists_cons_of_ne_nil some
  have head : (Quoted.doubled (y :: word)).head? = Option.some y := Quoted.head?_doubled _
  rw [List.head?_append, head, Option.some_or] at hx
  obtain rfl := Option.some.inj hx
  exact visible y List.mem_cons_self

/-- The parts of a scalar in single marks are read back. -/
theorem writesSingle_parts (positive : 0 < column) {canSplit : Bool}
    (hcolumn : canSplit = true → column ≤ lineWidth) {fuel : Nat} {cs : List Char}
    (enough : cs.length < fuel) (ordinary : ∀ c ∈ cs, isOrdinary c = true)
    (breakSpace : holdsPair (fun a b ↦ a = '\n' && b = ' ') cs = false)
    (spaceBreak : holdsPair (fun a b ↦ a = ' ' && b = '\n') cs = false) (isFirst : Bool) (p : Pen) :
    p.WritesSingle (p.singleParts fuel column canSplit isFirst cs) cs := by
  induction fuel generalizing cs isFirst p with
  | zero => cases enough
  | succ fuel ih =>
    cases cs with
    | nil => exact ⟨[], Writes.refl p, fun _ ↦ .nil, .nil⟩
    | cons c cs =>
      -- What follows a run is shorter, and holds no pair that the text does not hold.
      have after {run rest : List Char} (heq : c :: cs = run ++ rest) (hrun : run ≠ []) (q : Pen) :
          q.WritesSingle (q.singleParts fuel column canSplit false rest) rest := by
        have shorter : rest.length < fuel := by
          have length := congrArg List.length heq
          have positive := List.length_pos_iff.mpr hrun
          simp only [List.length_append] at length
          omega
        rw [heq] at ordinary breakSpace spaceBreak
        exact ih shorter (List.forall_mem_append.mp ordinary).2
          (holdsPair_append_right breakSpace) (holdsPair_append_right spaceBreak) false q
      rw [singleParts.eq_def]
      by_cases space : c = ' '
      · subst space
        obtain ⟨k, rest, hrun, heq, visible⟩ := exists_run_blanks spaceBreak
        have next := after heq (by simp)
        simp only [if_true, hrun]
        rw [heq]
        split
        · next breaks =>
          simp only [List.length_replicate, Bool.and_eq_true, decide_eq_true_eq] at breaks
          obtain ⟨⟨⟨⟨splits, one⟩, wide⟩, -⟩, -⟩ := breaks
          obtain rfl : k = 0 := by omega
          have line := (@indent_of_breaks p column (.inr (.inl (by
            have := hcolumn splits
            omega)))).1
          exact .blanks 0 (.inl rfl) visible line (.feeds isVisible_apostrophe 0 positive) (next _)
        · exact .blanks k (.inl rfl) visible (writes_spaces (k + 1))
            (.spaces isVisible_apostrophe k) (next _)
      by_cases feed : c = '\n'
      · subst feed
        obtain ⟨k, rest, hrun, heq, visible⟩ := exists_run_blanks breakSpace
        have next := after heq (by simp)
        simp only [if_true, if_neg space, hrun, List.length_replicate]
        rw [heq]
        exact .blanks k (.inr rfl) (fun x head ↦ (visible x head).symm)
          (writes_breaks (k + 1) column p) (.feeds isVisible_apostrophe (k + 1) positive) (next _)
      · obtain ⟨word, rest, hrun, heq, hword, hrest⟩ :=
          exists_run_eq (fun c ↦ c ≠ ' ' && c ≠ '\n') (c :: cs)
        have some : word ≠ [] := by
          rintro rfl
          obtain rfl : c :: cs = rest := heq
          simpa [space, feed] using hrest c rfl
        have visible : ∀ x ∈ word, IsVisible x := by
          intro x hx
          have other : x ≠ ' ' ∧ x ≠ '\n' := by simpa using hword x hx
          refine isVisible_of_isOrdinary (ordinary x ?_) other.1 other.2
          rw [heq]
          exact List.mem_append_left rest hx
        have next := after heq some
        simp only [if_neg space, if_neg feed, hrun]
        rw [heq]
        exact .word some visible (next _)

/-- A scalar is written in marks, behind a space, and read back from there in front of anything but
an apostrophe. -/
def IsMarked (mark : Char) (cs : List Char) (p q : Pen) : Prop :=
  ∃ out, p.Writes (p.gap ++ mark :: out) q ∧ ∀ tail, tail.head? ≠ some apostrophe →
    Quoted.scan mark (behind (p.gap.reverse ++ p.written) (mark :: (out ++ tail))) =
      .ok (cs, behind (out.reverse ++ (mark :: (p.gap.reverse ++ p.written))) tail)

/-- What is taken for a text is read back where it stands between marks. -/
theorem isMarked_of_takes {mark : Char} {cs out : List Char} {q : Pen} (hmark : IsVisible mark)
    (writes : (p.mark [mark]).Writes out q)
    (takes : Quoted.Takes mark Shows (p.mark [mark]).written out cs) :
    IsMarked mark cs p (q.markClose [mark]) := by
  have single : ∀ c ∈ [mark], isOrdinary c = true ∧ c ≠ '\n' :=
    List.forall_mem_singleton.mpr ⟨hmark.isOrdinary, hmark.ne (by decide)⟩
  have opened := writes_mark (p := p) single
  have written : (p.mark [mark]).written = mark :: (p.gap.reverse ++ p.written) := by
    rw [opened.written, List.reverse_append]
    rfl
  rw [written] at takes
  refine ⟨out ++ [mark], ?_, fun tail htail ↦ ?_⟩
  · have whole := (opened.trans writes).trans (writes_markClose single)
    rwa [List.append_assoc, List.append_assoc, List.singleton_append] at whole
  · rw [List.append_assoc, List.singleton_append]
    exact takes.scan_eq hmark htail

/-- A text that may stand in single marks is read back from them. -/
theorem isMarked_single (positive : 0 < column) {canSplit : Bool}
    (hcolumn : canSplit = true → column ≤ lineWidth) {cs : List Char}
    (h : (Analysis.of cs).allowsSingle = true) (p : Pen) :
    IsMarked apostrophe cs p (p.single column canSplit cs) := by
  obtain ⟨ordinary, breakSpace, spaceBreak⟩ : (∀ c ∈ cs, isOrdinary c = true) ∧
      holdsPair (fun a b ↦ a = '\n' && b = ' ') cs = false ∧
      holdsPair (fun a b ↦ a = ' ' && b = '\n') cs = false := by
    cases cs with
    | nil => simp [holdsPair]
    | cons c cs =>
      simp only [Analysis.of, Bool.not_eq_true', Bool.or_eq_false_iff] at h
      simpa [h.1.1, h.1.2] using h.2
  obtain ⟨out, writes, -, takes⟩ := writesSingle_parts positive hcolumn (Nat.lt_succ_self _)
    ordinary breakSpace spaceBreak true (p.mark [apostrophe])
  exact isMarked_of_takes isVisible_apostrophe writes takes

end Pen

/-! ### Double marks -/

/-- A quotation mark is visible. -/
theorem isVisible_quotationMark : IsVisible quotationMark := by decide

/-- A backslash is visible. -/
theorem isVisible_backslash : IsVisible backslash := by decide

/-- A character without an escape is a space or a visible character that stands for itself. -/
theorem Pen.eq_space_or_isVisible {c : Char} (h : Pen.escape? c = none) :
    c ≠ quotationMark ∧ c ≠ backslash ∧ (c = ' ' ∨ IsVisible c) := by
  rw [Pen.escape?] at h
  split at h
  · next plain =>
    simp only [Bool.and_eq_true, decide_eq_true_eq] at plain
    obtain ⟨⟨⟨noMark, noSlash⟩, low⟩, high⟩ := plain
    refine ⟨noMark, noSlash, ?_⟩
    by_cases space : c = ' '
    · exact .inl space
    · exact .inr (isVisible_of_isOrdinary (isOrdinary_of_printable low high) space (by
        rintro rfl
        exact absurd low (by decide)))
  · cases h

/-- Characters without escapes start with a visible one, if they do not start with a space. -/
theorem Pen.opens_of_escape?_eq_none {cs : List Char} (h : ∀ c ∈ cs, Pen.escape? c = none)
    (head : cs.head? ≠ some ' ') : Opens cs := by
  intro c hc
  obtain ⟨-, -, rfl | visible⟩ := Pen.eq_space_or_isVisible (h c (List.mem_of_mem_head? hc))
  · exact absurd hc head
  · exact visible

namespace Quoted

variable {w : List Char} {c : Char}

/-- Digits of a code point in capital letters are ordinary. -/
theorem isVisible_of_mem_hexUpper {width n : Nat} (hc : c ∈ hexUpper width n) : IsVisible c := by
  obtain ⟨d, hd, rfl⟩ := List.mem_map.mp hc
  have digit : IsDigitOf 16 d := isDigitOf_of_mem (by decide) hd
  exact digit.of_forall (P := fun d ↦ IsVisible (upperAscii d)) (by decide)

private theorem code?_hexUpper {width n : Nat} (positive : 0 < width) (fits : n < 16 ^ width)
    (tail : List Char) : code? width (behind w (hexUpper width n ++ tail)) =
      some (n, behind ((hexUpper width n).reverse ++ w) tail) := by
  have length : (hexUpper width n).length = width := by
    rw [hexUpper, List.length_map, hex, length_padLeft (by decide) fits positive]
  have digits : (hexUpper width n ++ tail).take width = hexUpper width n :=
    List.take_left' length
  have moved := @drop_behind w tail _
    fun c hc ↦ (@isVisible_of_mem_hexUpper c width n hc).isOrdinary
  rw [length] at moved
  rw [code?, chars_behind, digits, length, if_pos rfl, natIn?_hexUpper, moved]
  rfl

private theorem pairedCode_toNat (c : Char) (d : Cursor) : pairedCode c.toNat d = .ok (c, d) := by
  have valid : c.toNat < 0xD800 ∨ 0xDFFF < c.toNat ∧ c.toNat < 0x110000 := c.valid
  have noHigh : (0xD800 ≤ c.toNat && c.toNat < 0xDC00) = false := by
    simp only [Bool.and_eq_false_iff, decide_eq_false_iff_not]
    omega
  have noHalf : (0xD800 ≤ c.toNat && c.toNat < 0xE000) = false := by
    simp only [Bool.and_eq_false_iff, decide_eq_false_iff_not]
    omega
  have small : ¬ maxWord < c.toNat ∧ ¬ 0x10FFFF < c.toNat := by
    rw [maxWord]
    omega
  rw [pairedCode, noHigh, ofCode, noHalf, if_neg small.1, if_neg small.2, Char.ofNat_toNat]
  rfl

/-- A backslash starts an escape within double marks. -/
theorem part_backslash (tail : List Char) :
    part quotationMark (behind w (backslash :: tail)) =
      (escape (behind (backslash :: w) tail)).map some := by
  simp only [part, chars_behind, show backslash ≠ quotationMark by decide, if_false, decide_true,
    Bool.and_self, if_true, step_behind isVisible_backslash.isOrdinary]

/-- A letter behind a backslash is read as the character that it stands for. -/
theorem takes_letter {letter : Char} (h : escape? letter = some c)
    (visible : isOrdinary letter = true) :
    Takes quotationMark Anything w [backslash, letter] [c] := by
  intro tail more d _ rest
  refine @Reads.part _ _ _ _ [c] _ ?_ ?_ rest
  · rw [List.cons_append, part_backslash, List.singleton_append, escape]
    simp only [next?, chars_behind, List.head?_cons, h, step_behind visible]
    rfl
  · simp only [chars_behind, List.length_append, List.length_cons, List.length_nil]
    omega

private theorem takes_code {letter : Char} {width : Nat} (noLetter : escape? letter = none)
    (length : escapeLength? letter = some width) (visible : isOrdinary letter = true)
    (positive : 0 < width) (fits : c.toNat < 16 ^ width) :
    Takes quotationMark Anything w (backslash :: letter :: hexUpper width c.toNat) [c] := by
  intro tail more d _ rest
  rw [List.reverse_cons, List.reverse_cons, List.append_assoc, List.append_assoc] at rest
  refine @Reads.part _ _ _ _ [c] _ ?_ ?_ rest
  · rw [List.cons_append, part_backslash, List.cons_append, escape]
    simp only [next?, chars_behind, List.head?_cons, noLetter, length, step_behind visible,
      code?_hexUpper positive fits, pairedCode_toNat]
    rfl
  · simp only [chars_behind, List.length_append, List.length_cons]
    omega

/-- An escape is read as its character. -/
private theorem takes_escape {out : List Char} (h : Pen.escape? c = some out) :
    Takes quotationMark Anything w out [c] := by
  have letters : ∀ e ∈ Pen.escapeLetters, escape? e.2 = some e.1 ∧ isOrdinary e.2 = true := by
    decide
  rw [Pen.escape?] at h
  split at h
  · cases h
  · obtain rfl := Option.some.inj h
    split
    · next letter hletter =>
      obtain ⟨before, after, heq, -⟩ := List.lookup_eq_some_iff.mp hletter
      obtain ⟨read, visible⟩ := letters (c, letter) (by rw [heq]; simp)
      exact takes_letter read visible
    · split
      · exact takes_code rfl rfl rfl (by decide) (by omega)
      · split
        · exact takes_code rfl rfl rfl (by decide) (by omega)
        · have valid : c.toNat < 0xD800 ∨ 0xDFFF < c.toNat ∧ c.toNat < 0x110000 := c.valid
          exact takes_code rfl rfl rfl (by decide) (by omega)

/-- Every character of an escape is visible, the first of them a backslash. -/
theorem visible_escape {out : List Char} (h : Pen.escape? c = some out) :
    (∀ x ∈ out, IsVisible x) ∧ out.head? = some backslash := by
  have letters : ∀ e ∈ Pen.escapeLetters, IsVisible e.2 := by decide
  have digits (letter : Char) (hletter : IsVisible letter) (width : Nat) :
      ∀ x ∈ letter :: hexUpper width c.toNat, IsVisible x :=
    List.forall_mem_cons.mpr ⟨hletter, fun x ↦ isVisible_of_mem_hexUpper⟩
  rw [Pen.escape?] at h
  split at h
  · cases h
  · obtain rfl := Option.some.inj h
    refine ⟨List.forall_mem_cons.mpr ⟨isVisible_backslash, ?_⟩, rfl⟩
    split
    · next letter hletter =>
      obtain ⟨before, after, heq, -⟩ := List.lookup_eq_some_iff.mp hletter
      exact List.forall_mem_singleton.mpr (letters (c, letter) (by rw [heq]; simp))
    · split
      · exact digits 'x' (by decide) 2
      · split
        · exact digits 'u' (by decide) 4
        · exact digits 'U' (by decide) 8

/-- Characters without escapes are read as they are. -/
private theorem takes_plain {cs : List Char} (h : ∀ c ∈ cs, Pen.escape? c = none) :
    Takes quotationMark Shows w cs cs := by
  induction length : cs.length using Nat.strongRecOn generalizing cs w with
  | ind n ih =>
    cases cs with
    | nil => exact .nil
    | cons c cs =>
      obtain ⟨noMark, noSlash, space | visible⟩ :=
        Pen.eq_space_or_isVisible (h c List.mem_cons_self)
      · subst space
        obtain ⟨k, rest, -, heq, hrest⟩ := Pen.exists_run_replicate ' ' cs
        rw [heq] at h length ⊢
        have plain := (List.forall_mem_append.mp h).2
        have opens : Opens rest := Pen.opens_of_escape?_eq_none plain hrest
        simp only [List.length_append, List.length_replicate] at length
        exact (Takes.spaces isVisible_quotationMark k).append
          (ih rest.length (by omega) plain rfl) fun tail ↦ opens.append
      · rw [List.forall_mem_cons] at h
        have once : Takes quotationMark Anything w [c] [c] :=
          .visible visible noMark fun hc ↦ noSlash hc.1
        exact once.before (ih cs.length (by rw [← length]; simp) h.2 rfl)

/-- A backslash at the end of a line leaves nothing of the break and the indentation. -/
private theorem takes_break {column : Nat} (positive : 0 < column) :
    Takes quotationMark Shows w (backslash :: '\n' :: List.replicate column ' ') [] := by
  rintro _ more d ⟨c, tail, rfl, h⟩ rest
  have ahead := @breaks_feeds ('\n' :: backslash :: w) tail c 0 column positive h
    ((List.replicate column ' ' ++ c :: tail).length + 1) (by simp)
  rw [List.reverse_cons, List.reverse_cons, List.reverse_replicate, List.append_assoc,
    List.append_assoc] at rest
  refine @Reads.part _ _ _ _ [] _ ?_ ?_ rest
  · have noLetter : escape? '\n' = none ∧ escapeLength? '\n' = none := by decide
    rw [List.cons_append, part_backslash, List.cons_append, escape]
    simp only [next?, chars_behind, List.head?_cons, noLetter.1, noLetter.2, skipBreak,
      lineBreak?_lineFeed, Option.map_some, Option.getD_some, breaksAhead]
    simp only [List.replicate_zero, List.nil_append] at ahead
    rw [ahead]
    rfl
  · simp only [chars_behind, List.length_append, List.length_cons]
    omega

end Quoted

namespace Pen

variable {p : Pen} {column : Nat}

/-- The backslash in front of a space that starts a line. -/
def slash (isSlashed : Bool) : List Char := if isSlashed then [backslash] else []

/-- It is one character at most. -/
theorem reverse_slash (isSlashed : Bool) : (slash isSlashed).reverse = slash isSlashed := by
  cases isSlashed <;> rfl

private theorem writes_escape {c : Char} {out : List Char} (h : escape? c = some out) :
    p.Writes out (p.put out) :=
  writes_put fun x hx ↦
    have visible := (Quoted.visible_escape h).1 x hx
    ⟨visible.isOrdinary, visible.ne (by decide)⟩

/-- Characters without escapes may be written on a line. -/
theorem writes_plain {cs : List Char} (h : ∀ c ∈ cs, escape? c = none) : p.Writes cs (p.put cs) :=
  writes_put fun x hx ↦ by
    obtain ⟨-, -, rfl | visible⟩ := eq_space_or_isVisible (h x hx)
    · decide
    · exact ⟨visible.isOrdinary, visible.ne (by decide)⟩

/-- A line in double marks ends with a backslash, and the next one starts with another in front of a
space. -/
theorem writes_breakDouble (h : p.isIndenting = false) (column : Nat) (next : Option Char) :
    p.Writes (backslash :: '\n' :: List.replicate column ' ' ++ slash (next = some ' '))
        (p.breakDouble column next) ∧
      (p.breakDouble column next).isIndenting = false ∧
      (p.breakDouble column next).column ≤ column + 1 := by
  have single : ∀ c ∈ [backslash], isOrdinary c = true ∧ c ≠ '\n' :=
    List.forall_mem_singleton.mpr (by decide)
  obtain ⟨line, hcolumn, -, -⟩ := @indent_of_breaks (p.put [backslash]) column
    (.inl h)
  have whole := (writes_put (p := p) single).trans line
  by_cases space : next = some ' '
  · simp only [breakDouble, space, if_true, slash, decide_true]
    refine ⟨(whole.of_eq (r := ((p.put [backslash]).indent column).inText) rfl rfl).trans
      (writes_put single), rfl, ?_⟩
    rw [put, inText, hcolumn, List.length_singleton]
  · simp only [breakDouble, space, if_false, slash, decide_false, Bool.false_eq_true,
      List.append_nil]
    refine ⟨whole.of_eq rfl rfl, rfl, ?_⟩
    rw [inText, hcolumn]
    exact Nat.le_succ column

/-- What is not written yet of a scalar in double marks is read back, behind a backslash that only
stands in front of a space. -/
theorem takes_pending {isSlashed : Bool} {pending w : List Char}
    (plain : ∀ c ∈ pending, escape? c = none)
    (slashed : isSlashed = true → pending.head? = some ' ') :
    Quoted.Takes quotationMark Shows w (slash isSlashed ++ pending) pending := by
  cases isSlashed with
  | false => exact Quoted.takes_plain plain
  | true =>
    obtain ⟨pending, rfl⟩ := List.head?_eq_some_iff.mp (slashed rfl)
    rw [List.forall_mem_cons] at plain
    exact (@Quoted.takes_letter _ _ ' ' rfl rfl).before (Quoted.takes_plain plain.2)

/-- Characters without escapes start with a visible one if they start with no space, whatever
visible character follows. -/
theorem opens_pending {pending cs more : List Char} (plain : ∀ c ∈ pending, escape? c = none)
    (head : (pending ++ cs).head? ≠ some ' ') (shows : Shows more) : Opens (pending ++ more) := by
  have opens : Opens pending := opens_of_escape?_eq_none plain fun space ↦ by
    rw [List.head?_append, space] at head
    exact head rfl
  exact .of_shows (opens.append shows)

/-- Behind the characters `w`, and a backslash if there is one, characters are written from one pen
to another that are read as a text within double marks. They start with a visible character if
there is no backslash and the text does not start with a space. -/
def WritesDouble (isSlashed : Bool) (w : List Char) (p q : Pen) (cs : List Char) : Prop :=
  ∃ out, p.Writes out q ∧ (isSlashed = false → cs.head? ≠ some ' ' → Opens out) ∧
    Quoted.Takes quotationMark Shows w (slash isSlashed ++ out) cs

section

variable {isSlashed : Bool} {pending w cs : List Char} {q r : Pen} {c : Char}

private theorem WritesDouble.rest (plain : ∀ c ∈ pending, escape? c = none)
    (slashed : isSlashed = true → pending.head? = some ' ') :
    WritesDouble isSlashed w p (p.put pending) pending :=
  ⟨pending, writes_plain plain, fun _ ↦ opens_of_escape?_eq_none plain, takes_pending plain slashed⟩

/-- The line is broken, and the text goes on behind the indentation. What is written starts with a
backslash. -/
private theorem WritesDouble.exists_break (positive : 0 < column)
    (indenting : q.isIndenting = false) (h : WritesDouble (cs.head? = some ' ')
      ((backslash :: '\n' :: List.replicate column ' ').reverse ++ q.written)
      (q.breakDouble column cs.head?) r cs) :
    ∃ out, q.Writes (backslash :: out) r ∧
      Quoted.Takes quotationMark Shows q.written (backslash :: out) cs := by
  obtain ⟨out, writes, opens, takes⟩ := h
  have line := (writes_breakDouble indenting column cs.head?).1
  refine ⟨'\n' :: List.replicate column ' ' ++ (slash (cs.head? = some ' ') ++ out), ?_, ?_⟩
  · have whole := line.trans writes
    rwa [List.append_assoc] at whole
  · refine (Quoted.takes_break positive).append takes fun tail shows ↦ ?_
    by_cases head : cs.head? = some ' '
    · rw [decide_eq_true head]
      exact .cons isVisible_backslash _
    · rw [decide_eq_false head] at opens ⊢
      exact (opens rfl head).append shows

private theorem WritesDouble.before_break {out : List Char}
    (plain : ∀ c ∈ pending, escape? c = none)
    (slashed : isSlashed = true → pending.head? = some ' ')
    (written : p.written = slash isSlashed ++ w)
    (writes : (p.put pending).Writes (backslash :: out) r)
    (takes : Quoted.Takes quotationMark Shows (p.put pending).written (backslash :: out) cs) :
    WritesDouble isSlashed w p r (pending ++ cs) := by
  have place : (slash isSlashed ++ pending).reverse ++ w = (p.put pending).written := by
    rw [put, written, List.reverse_append, reverse_slash, List.append_assoc]
  rw [← place] at takes
  refine ⟨_, (writes_plain plain).trans writes, fun _ head ↦ ?_, ?_⟩
  · exact opens_pending plain head (.cons isVisible_backslash _)
  · rw [← List.append_assoc]
    exact (takes_pending plain slashed).append takes fun _ _ ↦ .cons isVisible_backslash _

/-- What is pending is written, and an escape, in front of any text. -/
private theorem WritesDouble.escape {escaped more : List Char}
    (plain : ∀ c ∈ pending, escape? c = none)
    (slashed : isSlashed = true → pending.head? = some ' ')
    (written : p.written = slash isSlashed ++ w) (hescape : escape? c = some escaped)
    (writes : ((p.put pending).put escaped).Writes more r)
    (takes : Quoted.Takes quotationMark Shows ((p.put pending).put escaped).written more cs) :
    WritesDouble isSlashed w p r (pending ++ c :: cs) := by
  have shows (more : List Char) : Shows (escaped ++ more) := by
    obtain ⟨rest, rfl⟩ := List.head?_eq_some_iff.mp (Quoted.visible_escape hescape).2
    exact .cons isVisible_backslash _
  have place : escaped.reverse ++ ((slash isSlashed ++ pending).reverse ++ w) =
      ((p.put pending).put escaped).written := by
    rw [put, put, written, List.reverse_append, reverse_slash, List.append_assoc]
  rw [← place] at takes
  refine ⟨_, (writes_plain plain).trans ((writes_escape hescape).trans writes),
    fun _ head ↦ opens_pending plain head (shows more), ?_⟩
  rw [← List.append_assoc]
  exact (takes_pending plain slashed).append ((Quoted.takes_escape hescape).before takes)
    fun tail _ ↦ by
      rw [List.append_assoc]
      exact shows _

end

/-- The characters of a scalar in double marks are read back, those that are not written yet and a
backslash in front of them included. -/
theorem writesDouble_chars (positive : 0 < column) {canSplit : Bool}
    (hcolumn : canSplit = true → column < lineWidth) (cs : List Char) (isFirst : Bool)
    {pending w : List Char} {isSlashed : Bool} {p : Pen} (indenting : p.isIndenting = false)
    (plain : ∀ c ∈ pending, escape? c = none)
    (slashed : isSlashed = true → pending.head? = some ' ' ∨
      pending = [] ∧ cs.head? = some ' ' ∧ p.column ≤ lineWidth)
    (written : p.written = slash isSlashed ++ w) :
    WritesDouble isSlashed w p (p.doubleChars column canSplit isFirst pending cs)
      (pending ++ cs) := by
  induction cs generalizing isFirst pending w isSlashed p with
  | nil =>
    have space : isSlashed = true → pending.head? = some ' ' := fun h ↦
      (slashed h).resolve_right fun ⟨_, head, _⟩ ↦ by cases head
    rw [List.append_nil]
    exact .rest plain space
  | cons c cs ih =>
    -- The line is broken, and the rest goes on behind the indentation.
    have broken (split : canSplit = true) (pending : List Char) {q : Pen}
        (indenting : q.isIndenting = false) (plain : ∀ c ∈ pending, escape? c = none)
        (short : pending.head? = (pending ++ cs).head? ∨ pending = []) :
        ∃ out, q.Writes (backslash :: out)
          ((q.breakDouble column (pending ++ cs).head?).doubleChars column canSplit false pending
            cs) ∧
          Quoted.Takes quotationMark Shows q.written (backslash :: out) (pending ++ cs) := by
      obtain ⟨line, stays, before⟩ := writes_breakDouble indenting column (pending ++ cs).head?
      have limit := hcolumn split
      apply WritesDouble.exists_break positive indenting
      apply ih false stays plain
      · intro head
        rw [decide_eq_true_eq] at head
        rcases short with same | rfl
        · exact .inl (same.trans head)
        · exact .inr ⟨rfl, head, by omega⟩
      · rw [line.written, List.reverse_append, List.append_assoc, reverse_slash]
    rw [doubleChars]
    cases escape : escape? c with
    | some escaped =>
      have space : isSlashed = true → pending.head? = some ' ' := fun h ↦
        (slashed h).resolve_right fun ⟨_, head, _⟩ ↦ by
          rw [Option.some.inj head] at escape
          cases escape
      dsimp only
      split
      · next breaks =>
        simp only [Bool.and_eq_true, decide_eq_true_eq] at breaks
        obtain ⟨out, writes, takes⟩ := broken breaks.1.1.1 [] (q := (p.put pending).put escaped)
          indenting (List.forall_mem_nil _) (.inr rfl)
        exact .escape plain space written escape writes takes
      · obtain ⟨out, writes, -, takes⟩ := @ih false [] ((p.put pending).put escaped).written false
          ((p.put pending).put escaped) indenting (List.forall_mem_nil _) nofun rfl
        exact .escape plain space written escape writes takes
    | none =>
      dsimp only
      split
      · next breaks =>
        simp only [Bool.and_eq_true, decide_eq_true_eq] at breaks
        have space : isSlashed = true → pending.head? = some ' ' := fun h ↦
          (slashed h).resolve_right fun ⟨empty, _, short⟩ ↦ by
            rw [empty, List.length_nil] at breaks
            omega
        obtain ⟨out, writes, takes⟩ := broken breaks.1.1.1.1 [c] (q := p.put pending) indenting
          (List.forall_mem_singleton.mpr escape) (.inl rfl)
        exact .before_break plain space written writes takes
      · have moved := @ih false (pending ++ [c]) _ isSlashed _ indenting
          (List.forall_mem_append.mpr ⟨plain, List.forall_mem_singleton.mpr escape⟩)
          (fun h ↦ .inl (by
            rw [List.head?_append]
            rcases slashed h with head | ⟨rfl, head, -⟩
            · rw [head]
              rfl
            · exact head))
          written
        rwa [List.append_assoc] at moved

/-- A text is read back from double marks. -/
theorem isMarked_double (positive : 0 < column) {canSplit : Bool}
    (hcolumn : canSplit = true → column < lineWidth) (cs : List Char) (p : Pen) :
    IsMarked quotationMark cs p (p.double column canSplit cs) := by
  obtain ⟨out, writes, -, takes⟩ := @writesDouble_chars _ positive _ hcolumn cs true [] _ false
    (p.mark [quotationMark]) rfl (List.forall_mem_nil _) nofun rfl
  exact isMarked_of_takes isVisible_quotationMark writes takes

end Pen

end EntityGraph.Yaml
