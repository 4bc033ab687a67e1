import EntityGraph.Json.Reader
import EntityGraph.Json.Writer
import EntityGraph.Proofs.ReadBack.Digits

/-!
# JSON strings and numbers read back

A written string is read as its characters, one by one: every form of a character is read as that
character, be it short, a unit or a pair of units. A written integer is read as the integer if what
follows is no part of a number.
-/

namespace EntityGraph.Json

open EntityGraph.Text EntityGraph.Number

/-- A reader takes characters for a value, wherever they stand, if what follows them is as it should
be. -/
def Takes {α : Type} (reader : Ahead → Except ReadError (α × Ahead)) (follow : List Char → Prop)
    (cs : List Char) (a : α) : Prop :=
  ∀ rest position, follow rest → ∃ next, reader ⟨cs ++ rest, position⟩ = .ok (a, ⟨rest, next⟩)

/-! ### Characters -/

/-- A unit has four digits. -/
theorem length_hex {n : Nat} (h : n < 0x10000) : (hex 4 n).length = 4 :=
  length_padLeft (by decide) h (by decide)

/-- The digits of a unit are read as the unit. -/
theorem unit?_hex {n : Nat} (h : n < 0x10000) (cs : List Char) :
    unit? (hex 4 n ++ cs) = some n := by
  have digits : (hex 4 n ++ cs).take 4 = hex 4 n := List.take_left' (length_hex h)
  rw [unit?, digits, length_hex h, if_pos rfl]
  exact natIn?_hex 4 n

/-- The unit of a character is no part of a pair. -/
theorem isHighUnit_toNat (c : Char) : isHighUnit c.toNat = false ∧ isLowUnit c.toNat = false := by
  have valid : c.toNat < 0xD800 ∨ 0xDFFF < c.toNat ∧ c.toNat < 0x110000 := c.valid
  simp only [isHighUnit, isLowUnit, Bool.and_eq_false_iff, decide_eq_false_iff_not]
  omega

private theorem unitChar_toNat (c : Char) : unitChar c.toNat = c := by
  rw [unitChar, (isHighUnit_toNat c).1, (isHighUnit_toNat c).2, Char.ofNat_toNat]
  rfl

private theorem unitEscape_hex {c : Char} (h : c.toNat < 0x10000) {cs : List Char} (more : cs ≠ [])
    (position : Nat) : unitEscape (hex 4 c.toNat ++ cs) position = .ok (c, 4) := by
  have long : ¬ (hex 4 c.toNat ++ cs).length ≤ 4 := by
    have positive := List.length_pos_iff.mpr more
    rw [List.length_append, length_hex h]
    omega
  rw [unitEscape, if_neg long, unit?_hex h]
  simp only [(isHighUnit_toNat c).1, Bool.false_eq_true, false_and, if_false, unitChar_toNat]

/-- The escapes of two units that belong together are read as one character. -/
private theorem unitEscape_pair {high low : Nat} (isHigh : isHighUnit high = true)
    (isLow : isLowUnit low = true) {cs : List Char} (more : cs ≠ []) (position : Nat) :
    unitEscape (hex 4 high ++ (escapeUnit low ++ cs)) position = .ok (pairChar high low, 10) := by
  have fits : high < 0x10000 ∧ low < 0x10000 := by
    simp only [isHighUnit, isLowUnit, Bool.and_eq_true, decide_eq_true_eq] at isHigh isLow
    omega
  have escape : escapeUnit low ++ cs = backslash :: 'u' :: (hex 4 low ++ cs) := rfl
  have positive := List.length_pos_iff.mpr more
  have long : ¬ (hex 4 high ++ (escapeUnit low ++ cs)).length ≤ 4 := by
    rw [List.length_append, length_hex fits.1, escape, List.length_cons]
    omega
  have rest : (hex 4 high ++ (escapeUnit low ++ cs)).drop 4 =
      backslash :: 'u' :: (hex 4 low ++ cs) := List.drop_left' (length_hex fits.1)
  have enough : 6 < (backslash :: 'u' :: (hex 4 low ++ cs)).length := by
    rw [List.length_cons, List.length_cons, List.length_append, length_hex fits.2]
    omega
  rw [unitEscape, if_neg long, unit?_hex fits.1]
  simp only [rest, isHigh, enough, List.take_succ_cons, List.take_zero, List.drop_succ_cons,
    List.drop_zero, and_self, if_true, unit?_hex fits.2, isLow]

/-- The characters of a string go on with a character. -/
def Prepends (c : Char) (form : List Char) : Prop :=
  ∀ fuel start cs position, cs ≠ [] →
    stringChars (fuel + 1) start ⟨form ++ cs, position⟩ =
      (stringChars fuel start ⟨cs, position + form.length⟩).map fun (text, rest) ↦ (c :: text, rest)

private theorem prepends_self {c : Char} (noMark : c ≠ quotationMark) (noSlash : c ≠ backslash)
    (high : 0x20 ≤ c.toNat) : Prepends c [c] := by
  intro fuel start cs position _
  rw [stringChars.eq_def]
  simp only [List.singleton_append, noMark, Nat.not_lt.mpr high, noSlash, ne_eq, not_false_eq_true,
    if_true, if_false]
  rfl

/-- A short escape is read as its character. -/
theorem prepends_shortEscape {c d : Char} (escape : shortEscape? d = some c) (noUnit : d ≠ 'u') :
    Prepends c [backslash, d] := by
  intro fuel start cs position _
  rw [stringChars.eq_def]
  simp only [List.cons_append, List.nil_append, show backslash ≠ quotationMark by decide,
    show ¬ backslash.toNat < 0x20 by decide, ne_eq, not_true_eq_false, if_false, escape]
  rfl

private theorem prepends_shortEscape_of_toNat {c d : Char} {n : Nat} (h : c.toNat = n)
    (escape : shortEscape? d = some (Char.ofNat n)) (noUnit : d ≠ 'u') :
    Prepends c [backslash, d] := by
  rw [← h, Char.ofNat_toNat] at escape
  exact prepends_shortEscape escape noUnit

/-- Escapes of units are read as their character. -/
theorem prepends_unitEscape {c : Char} (form : List Char)
    (escape : ∀ cs position, cs ≠ [] → unitEscape (form ++ cs) position = .ok (c, form.length)) :
    Prepends c (backslash :: 'u' :: form) := by
  intro fuel start cs position more
  rw [stringChars.eq_def]
  simp only [List.cons_append, show backslash ≠ quotationMark by decide,
    show ¬ backslash.toNat < 0x20 by decide, ne_eq, not_true_eq_false, if_false, escape cs _ more]
  have rest : Ahead.drop (2 + form.length) ⟨backslash :: 'u' :: (form ++ cs), position⟩ =
      ⟨cs, position + (backslash :: 'u' :: form).length⟩ := by
    rw [Ahead.drop, Nat.add_comm, List.drop_succ_cons, List.drop_succ_cons, List.drop_left,
      List.length_cons, List.length_cons]
  show (stringChars fuel start (Ahead.drop _ _) >>= _) = _
  rw [rest]
  cases stringChars fuel start _ <;> rfl

/-- The escapes of the two units of a character are read as the character. -/
private theorem prepends_pair {c : Char} {offset : Nat} (h : c.toNat = 0x10000 + offset) :
    Prepends c (escapeUnit (0xD800 + offset / 0x400) ++ escapeUnit (0xDC00 + offset % 0x400)) := by
  have valid : c.toNat < 0xD800 ∨ 0xDFFF < c.toNat ∧ c.toNat < 0x110000 := c.valid
  have isHigh : isHighUnit (0xD800 + offset / 0x400) = true := by
    simp only [isHighUnit, Bool.and_eq_true, decide_eq_true_eq]
    omega
  have isLow : isLowUnit (0xDC00 + offset % 0x400) = true := by
    simp only [isLowUnit, Bool.and_eq_true, decide_eq_true_eq]
    omega
  have char : pairChar (0xD800 + offset / 0x400) (0xDC00 + offset % 0x400) = c := by
    have value : 0x10000 + (0xD800 + offset / 0x400 - 0xD800) * 0x400 +
        (0xDC00 + offset % 0x400 - 0xDC00) = c.toNat := by omega
    rw [pairChar, value, Char.ofNat_toNat]
  apply prepends_unitEscape (hex 4 _ ++ escapeUnit _)
  intro cs position more
  rw [List.append_assoc, unitEscape_pair isHigh isLow more, char, List.length_append,
    length_hex (by omega), escapeUnit, List.length_cons, List.length_cons, length_hex (by omega)]

/-- The form of a character is read as the character. -/
theorem prepends_quoteChar (c : Char) : Prepends c (quoteChar c) := by
  rw [quoteChar]
  split
  · next mark =>
    apply prepends_shortEscape
    · exact if_pos (mark.imp_right .inl)
    · rintro rfl
      exact absurd mark (by decide)
  split
  · next noMark printable =>
    rw [not_or] at noMark
    exact prepends_self noMark.1 noMark.2 printable.1
  split
  · next h => exact prepends_shortEscape_of_toNat h rfl (by decide)
  split
  · next h => exact prepends_shortEscape_of_toNat h rfl (by decide)
  split
  · next h => exact prepends_shortEscape_of_toNat h rfl (by decide)
  split
  · next h => exact prepends_shortEscape_of_toNat h rfl (by decide)
  split
  · next h => exact prepends_shortEscape_of_toNat h rfl (by decide)
  split
  · next h =>
    apply prepends_unitEscape
    intro cs position more
    rw [length_hex h]
    exact unitEscape_hex h more position
  · next h => exact prepends_pair (Nat.add_sub_of_le (Nat.not_lt.mp h)).symm

private theorem Prepends.length_pos {c : Char} {form : List Char} (h : Prepends c form) :
    0 < form.length := by
  cases form with
  | nil =>
    have refused : Except.ok ([], _) = Except.error _ := h 0 0 [quotationMark] 0 (by simp)
    cases refused
  | cons d form => exact Nat.succ_pos _

private theorem length_le_flatMap_quoteChar (cs : List Char) :
    cs.length ≤ (cs.flatMap quoteChar).length := by
  induction cs with
  | nil => exact Nat.le_refl 0
  | cons c cs ih =>
    have positive := (prepends_quoteChar c).length_pos
    rw [List.flatMap_cons, List.length_append, List.length_cons]
    omega

/-! ### Strings -/

/-- The forms of characters are read as the characters up to the closing mark. -/
private theorem exists_stringChars (cs : List Char) {fuel : Nat} (h : cs.length < fuel)
    (start : Nat) :
    Takes (stringChars fuel start) (fun _ ↦ True) (cs.flatMap quoteChar ++ [quotationMark]) cs := by
  intro rest position _
  induction cs generalizing fuel position with
  | nil =>
    cases fuel with
    | zero => exact absurd h (Nat.not_lt_zero _)
    | succ fuel =>
      rw [stringChars.eq_def]
      exact ⟨position + 1, rfl⟩
  | cons c cs ih =>
    cases fuel with
    | zero => exact absurd h (Nat.not_lt_zero _)
    | succ fuel =>
      have more : cs.flatMap quoteChar ++ [quotationMark] ++ rest ≠ [] := by simp
      obtain ⟨next, hnext⟩ := ih (Nat.lt_of_succ_lt_succ h) (position + (quoteChar c).length)
      refine ⟨next, ?_⟩
      rw [List.flatMap_cons, List.append_assoc, List.append_assoc, ← List.append_assoc _ _ rest,
        prepends_quoteChar c fuel start _ position more, hnext]
      rfl

/-- A written string is read as the string behind its opening mark. -/
theorem takes_string (s : String) :
    Takes string (fun _ ↦ True) (s.toList.flatMap quoteChar ++ [quotationMark]) s := by
  intro rest position _
  have enough : s.toList.length <
      (s.toList.flatMap quoteChar ++ [quotationMark] ++ rest).length + 1 := by
    have room := length_le_flatMap_quoteChar s.toList
    rw [List.length_append, List.length_append]
    omega
  obtain ⟨next, hnext⟩ := exists_stringChars s.toList enough (position - 1) rest position trivial
  refine ⟨next, ?_⟩
  rw [string, hnext]
  show Except.ok (String.ofList s.toList, _) = _
  rw [String.ofList_toList]

/-! ### Words and numbers -/

/-- No word begins with characters that it does not begin with. -/
theorem find?_words_eq_none (front : List Char)
    (h : ∀ e ∈ words, (e.1.toList.take front.length).isPrefixOf front = false) (rest : List Char) :
    words.find? (fun (word, _) ↦ word.toList.isPrefixOf (front ++ rest)) = none := by
  rw [List.find?_eq_none]
  intro e he
  rw [Bool.not_eq_true, ← Bool.not_eq_true, List.isPrefixOf_iff_prefix]
  intro begins
  have first : e.1.toList.take front.length <+: front :=
    List.prefix_of_prefix_length_le ((List.take_prefix _ _).trans begins) (List.prefix_append _ _)
      (List.length_take_le _ _)
  rw [← List.isPrefixOf_iff_prefix, h e he] at first
  cases first

/-- What follows goes on with no number. -/
def EndsNumber (rest : List Char) : Prop :=
  ∀ c ∈ rest.head?, isDigit c = false ∧ c ≠ '.' ∧ c ≠ 'e' ∧ c ≠ 'E'

private theorem EndsNumber.noParts {rest : List Char} (h : EndsNumber rest) :
    fractionPart? rest = none ∧ exponentPart? rest = none := by
  cases rest with
  | nil => exact ⟨rfl, rfl⟩
  | cons c rest =>
    obtain ⟨-, noPoint, small, large⟩ := h c rfl
    constructor
    · rw [fractionPart?]
      rintro cs heq
      exact noPoint (List.cons.inj heq).1
    · rw [exponentPart?, if_neg (not_or.mpr ⟨small, large⟩)]

/-- The digits of a number, behind a sign or not, are the parts of an integer. -/
private theorem numberParts?_decimal (negative : Bool) (n : Nat) {rest : List Char}
    (h : EndsNumber rest) :
    numberParts? ((if negative then ['-'] else []) ++ (decimal n ++ rest)) =
      some ⟨negative, decimal n, none, none, (if negative then 1 else 0) + (decimal n).length⟩ := by
  have digits : ∀ c ∈ decimal n, IsDigitOf 10 c := fun c hc ↦ isDigitOf_of_mem_decimal hc
  have run := (span_digits rest digits fun c hc ↦ (h c hc).1).1
  have whole : (if (decimal n).head? = some '0' then ['0'] else decimal n) = decimal n := by
    by_cases zero : n = 0
    · rw [zero]
      rfl
    · exact if_neg (head?_decimal_ne zero)
  have nonempty : (decimal n).isEmpty = false := by
    rw [List.isEmpty_eq_false_iff]
    exact Nat.toDigits_ne_nil
  have unsigned : (decimal n ++ rest).head? ≠ some '-' := by
    intro signed
    have digit : IsDigitOf 10 '-' := by
      apply digits
      cases first : decimal n with
      | nil => exact absurd first Nat.toDigits_ne_nil
      | cons c cs =>
        rw [first] at signed
        rw [← Option.some.inj signed]
        exact List.mem_cons_self
    exact absurd (isDigit_of_isDigitOf digit) (by decide)
  generalize hcs : (if negative then ['-'] else []) ++ (decimal n ++ rest) = cs
  have signed : cs.head? = some '-' ↔ negative = true := by
    rw [← hcs]
    cases negative
    · exact iff_of_false unsigned Bool.false_ne_true
    · exact iff_of_true rfl rfl
  have unsignedPart : (if negative = true then cs.drop 1 else cs) = decimal n ++ rest := by
    rw [← hcs]
    cases negative <;> rfl
  simp only [numberParts?, signed, unsignedPart, run, whole, nonempty, List.drop_left, h.noParts,
    Bool.decide_eq_true, Bool.false_eq_true, if_false, Option.map_none, Option.getD_none,
    List.drop_zero, Nat.add_zero]

private theorem find?_words_decimal (negative : Bool) (n : Nat) (rest : List Char) :
    words.find? (fun (word, _) ↦ word.toList.isPrefixOf
      ((if negative then ['-'] else []) ++ (decimal n ++ rest))) = none := by
  cases first : decimal n with
  | nil => exact absurd first Nat.toDigits_ne_nil
  | cons c cs =>
    have digit : IsDigitOf 10 c := isDigitOf_of_mem_decimal (first ▸ List.mem_cons_self)
    cases negative
    · apply find?_words_eq_none [c]
      exact digit.of_forall (P := fun c ↦ ∀ e ∈ words, (e.1.toList.take 1).isPrefixOf [c] = false)
        (by decide)
    · apply find?_words_eq_none ['-', c]
      exact digit.of_forall
        (P := fun c ↦ ∀ e ∈ words, (e.1.toList.take 2).isPrefixOf ['-', c] = false) (by decide)

/-- An integer is read from its digits, behind a sign or not. -/
private theorem takes_decimal (negative : Bool) {n : Nat}
    (short : n < Nat.pow 10 Integer.digitLimit) :
    Takes scalar EndsNumber ((if negative then ['-'] else []) ++ decimal n)
      (.int (if negative then -n else n)) := by
  intro rest position ends
  have short : ¬ Integer.digitLimit < (decimal n).length :=
    Nat.not_lt.mpr (length_decimal_le (by decide) short)
  have length : (if negative then 1 else 0) + (decimal n).length =
      ((if negative then ['-'] else []) ++ decimal n).length := by
    rw [List.length_append]
    cases negative <;> rfl
  have parts := numberParts?_decimal negative n ends
  have noWord := find?_words_decimal negative n rest
  rw [← List.append_assoc] at parts noWord
  refine ⟨position + ((if negative then ['-'] else []) ++ decimal n).length, ?_⟩
  rw [scalar, noWord]
  simp only [parts, numberValue, short, if_false, nat?_decimal, Option.getD_some, length,
    Ahead.drop, List.drop_left]
  rfl

/-- An integer that is short enough is read from its text. -/
theorem takes_decimalInt {i : Int} (short : Integer.isTooLong i = false) :
    Takes scalar EndsNumber (decimalInt i) (.int i) := by
  have small : i.natAbs < Nat.pow 10 Integer.digitLimit :=
    Nat.not_le.mp (of_decide_eq_false short)
  cases i with
  | ofNat n => exact takes_decimal false small
  | negSucc n => exact takes_decimal true small

/-- The absent value is read from its word. -/
theorem takes_null : Takes scalar (fun _ ↦ True) "null".toList .null :=
  fun _ position _ ↦ ⟨position + 4, rfl⟩

/-- A truth value is read from its word. -/
theorem takes_bool (b : Bool) :
    Takes scalar (fun _ ↦ True) (if b then "true" else "false").toList (.bool b) := by
  intro rest position _
  cases b
  · exact ⟨position + 5, rfl⟩
  · exact ⟨position + 4, rfl⟩

end EntityGraph.Json
