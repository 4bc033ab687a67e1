import EntityGraph.Number.Decimal
import EntityGraph.Proofs.ReadBack.Digits
import EntityGraph.Proofs.Success

/-!
# Decimal numbers read back

The text of a decimal number within the range of exponents is read as that number, with the exponent
that it was written with.
-/

namespace EntityGraph.Number.Decimal

open EntityGraph.Text

/-! ### Characters -/

/-- The characters other than digits that texts of decimal numbers are made of. -/
def marks : List Char := "+-.EInfinitysNa".toList

/-- A character that texts of decimal numbers are made of. -/
def IsMark (c : Char) : Prop := IsDigitOf 10 c ∨ c ∈ marks

private theorem IsMark.of_all {p : Char → Bool} (digits : ∀ d : Fin 10, p (Nat.digitChar d) = true)
    (all : marks.all p = true) {c : Char} (h : IsMark c) : p c = true :=
  h.elim (·.of_forall (P := (p · = true)) digits) (List.all_eq_true.mp all c)

/-- A word of marks, and the digits behind it, are marks. -/
theorem isMark_of_mem_append (word : List Char) {cs : List Char}
    (hword : word.all (marks.contains ·) = true) (hcs : ∀ c ∈ cs, IsMark c) :
    ∀ c ∈ word ++ cs, IsMark c := by
  intro c hc
  rcases List.mem_append.mp hc with hc | hc
  · exact .inr (List.contains_iff_mem.mp (List.all_eq_true.mp hword c hc))
  · exact hcs c hc

/-- Decimal digits have no other case. -/
theorem map_lowerAscii_digits {cs : List Char} (h : ∀ c ∈ cs, IsDigitOf 10 c) :
    cs.map lowerAscii = cs := by
  have same : ∀ c ∈ cs, lowerAscii c = c := fun c hc ↦
    (h c hc).of_forall (P := fun c ↦ lowerAscii c = c) (by decide)
  rw [List.map_congr_left same, List.map_id']

/-! ### Spellings -/

/-- The parts of a finite number as it is written: the digits before and behind the point, and an
exponent, if there is one. -/
structure Spelling where
  whole : List Char
  fraction : List Char
  exponent : Option Int

namespace Spelling

/-- The characters of an exponent behind a letter. -/
def exponentChars (letter : Char) (exponent : Int) : List Char :=
  letter :: (if exponent < 0 then '-' else '+') :: decimal exponent.natAbs

/-- The characters of a spelling, with a letter before the exponent. -/
def chars (letter : Char) (s : Spelling) : List Char :=
  s.whole ++ (if s.fraction = [] then [] else '.' :: s.fraction) ++
    (s.exponent.map (exponentChars letter)).getD []

/-- What a spelling is a spelling of. -/
structure Spells (s : Spelling) (coefficient : Nat) (exponent : Int) : Prop where
  some : s.whole ≠ []
  whole : ∀ c ∈ s.whole, IsDigitOf 10 c
  fraction : ∀ c ∈ s.fraction, IsDigitOf 10 c
  value : nat? (s.whole ++ s.fraction) = .some coefficient
  exponent : s.exponent.getD 0 - s.fraction.length = exponent

private theorem readExponent_sign (exponent : Int) :
    readExponent ((if exponent < 0 then '-' else '+') :: decimal exponent.natAbs) =
      .some exponent := by
  rw [readExponent]
  by_cases negative : exponent < 0
  · have value : -(exponent.natAbs : Int) = exponent := by omega
    simp only [if_pos negative, readSign, nat?_decimal]
    exact congrArg Option.some value
  · have value : (exponent.natAbs : Int) = exponent := by omega
    simp only [if_neg negative, readSign, nat?_decimal]
    exact congrArg Option.some value

namespace Spells

variable {s : Spelling} {coefficient : Nat} {exponent : Int} (h : s.Spells coefficient exponent)

include h

/-- A spelling is read as what it spells. -/
private theorem readFinite_chars (range : InRange coefficient exponent) :
    readFinite (s.chars 'e') = .ok (coefficient, exponent) := by
  obtain ⟨whole, fraction, written⟩ := s
  obtain ⟨-, hwhole, hfraction, hvalue, hexponent⟩ := h
  dsimp only at hwhole hfraction hvalue hexponent
  subst hexponent
  by_cases point : fraction = []
  · subst point
    rw [List.append_nil] at hvalue
    cases written with
    | none =>
      have spans := span_digits [] hwhole (by simp)
      rw [List.append_nil] at spans
      simp only [chars, if_true, Option.map_none, Option.getD_none, readFinite, List.append_nil,
        spans, hvalue]
      exact if_pos range
    | some e =>
      have spans := span_digits (exponentChars 'e' e) hwhole
        (by simp [exponentChars]; decide)
      simp only [chars, if_true, Option.map_some, Option.getD_some, readFinite, List.append_nil,
        spans]
      simpa [exponentChars, readExponent_sign, hvalue] using range
  · cases written with
    | none =>
      have spans := span_digits ('.' :: fraction) hwhole (by simp; decide)
      have spans' := span_digits [] hfraction (by simp)
      rw [List.append_nil] at spans'
      simp only [chars, if_neg point, Option.map_none, Option.getD_none, readFinite,
        List.append_nil, spans, spans', hvalue]
      exact if_pos range
    | some e =>
      have spans := span_digits ('.' :: (fraction ++ exponentChars 'e' e)) hwhole
        (by simp; decide)
      have spans' := span_digits (exponentChars 'e' e) hfraction
        (by simp [exponentChars]; decide)
      simp only [chars, if_neg point, Option.map_some, Option.getD_some, readFinite,
        List.append_assoc, List.cons_append, spans, spans', hvalue]
      simp only [exponentChars, readExponent_sign]
      exact if_pos range

/-- A spelling in lower case has a small letter before its exponent. -/
private theorem map_lowerAscii_chars : (s.chars 'E').map lowerAscii = s.chars 'e' := by
  have exponentPart : ∀ e : Int, (exponentChars 'E' e).map lowerAscii = exponentChars 'e' e := by
    intro e
    have digits := map_lowerAscii_digits fun c ↦ isDigitOf_of_mem_decimal (n := e.natAbs) (c := c)
    have sign : lowerAscii (if e < 0 then '-' else '+') = if e < 0 then '-' else '+' := by
      split <;> rfl
    rw [exponentChars, List.map_cons, List.map_cons, digits, sign]
    rfl
  have fraction : (if s.fraction = [] then [] else '.' :: s.fraction).map lowerAscii =
      if s.fraction = [] then [] else '.' :: s.fraction := by
    split
    · rfl
    · rw [List.map_cons, map_lowerAscii_digits h.fraction]
      rfl
  rw [chars, chars, List.map_append, List.map_append, map_lowerAscii_digits h.whole, fraction]
  cases s.exponent with
  | none => rfl
  | some e =>
    rw [Option.map_some, Option.map_some, Option.getD_some, Option.getD_some, exponentPart]

/-- The characters of a spelling are marks. -/
private theorem isMark_of_mem_chars : ∀ c ∈ s.chars 'E', IsMark c := by
  have digits : ∀ e : Int, ∀ c ∈ exponentChars 'E' e, IsMark c := by
    intro e
    refine isMark_of_mem_append ['E', if e < 0 then '-' else '+'] ?_ fun c hc ↦
      .inl (isDigitOf_of_mem_decimal hc)
    split <;> decide
  intro c hc
  rw [chars, List.mem_append, List.mem_append] at hc
  rcases hc with (hc | hc) | hc
  · exact .inl (h.whole c hc)
  · split at hc
    · cases hc
    · exact isMark_of_mem_append ['.'] (by decide) (fun c hc ↦ .inl (h.fraction c hc)) c hc
  · cases he : s.exponent with
    | none =>
      rw [he] at hc
      cases hc
    | some e =>
      rw [he] at hc
      exact digits e c hc

end Spells

/-- The text of a finite number is a spelling of it. -/
private theorem exists_finiteText_eq (coefficient : Nat) (exponent : Int) :
    ∃ s : Spelling, s.Spells coefficient exponent ∧
      finiteText coefficient exponent = s.chars 'E' := by
  have some : 1 ≤ (decimal coefficient).length := Nat.length_toDigits_pos
  have digits : ∀ c ∈ decimal coefficient, IsDigitOf 10 c := fun c hc ↦ isDigitOf_of_mem_decimal hc
  have nonempty : decimal coefficient ≠ [] := List.ne_nil_of_length_pos some
  rw [finiteText]
  by_cases positional : exponent ≤ 0 ∧ -positionalZeros ≤ adjusted coefficient exponent
  · rw [if_pos positional]
    by_cases zero : exponent = 0
    · refine ⟨⟨decimal coefficient, [], none⟩, ⟨nonempty, digits, by simp, ?_, ?_⟩, ?_⟩
      · rw [List.append_nil, nat?_decimal]
      · simp [zero]
      · simp [zero, chars]
    · -- The digits are filled up with zeros, so that there is one before the point.
      let filled := padded (exponent.natAbs + 1) coefficient
      have long : exponent.natAbs + 1 ≤ filled.length := le_length_padLeft _ _ _
      have digits : ∀ c ∈ filled, IsDigitOf 10 c := fun c hc ↦ isDigitOf_of_mem (by decide) hc
      refine ⟨⟨filled.take (filled.length - exponent.natAbs),
        filled.drop (filled.length - exponent.natAbs), none⟩, ⟨?_, ?_, ?_, ?_, ?_⟩, ?_⟩
      · exact List.ne_nil_of_length_pos (by rw [List.length_take]; omega)
      · exact fun c hc ↦ digits c (List.mem_of_mem_take hc)
      · exact fun c hc ↦ digits c (List.mem_of_mem_drop hc)
      · rw [List.take_append_drop, nat?_padded]
      · rw [List.length_drop]
        simp
        omega
      · have fraction : filled.drop (filled.length - exponent.natAbs) ≠ [] :=
          List.ne_nil_of_length_pos (by rw [List.length_drop]; omega)
        rw [if_neg zero, chars, if_neg fraction, Option.map_none, Option.getD_none, List.append_nil]
        rfl
  · rw [if_neg positional]
    refine ⟨⟨(decimal coefficient).take 1, (decimal coefficient).drop 1,
      adjusted coefficient exponent⟩, ⟨?_, ?_, ?_, ?_, ?_⟩, ?_⟩
    · exact List.ne_nil_of_length_pos (by rw [List.length_take]; omega)
    · exact fun c hc ↦ digits c (List.mem_of_mem_take hc)
    · exact fun c hc ↦ digits c (List.mem_of_mem_drop hc)
    · rw [List.take_append_drop, nat?_decimal]
    · rw [List.length_drop, Option.getD_some, adjusted]
      omega
    · have single : (decimal coefficient).length = 1 ↔ (decimal coefficient).drop 1 = [] := by
        rw [List.drop_eq_nil_iff]
        omega
      simp only [single]
      rfl

end Spelling

/-! ### Reading -/

/-- A text of marks is read without passing over any of its characters. -/
private theorem read_of_isMark {cs : List Char} (h : ∀ c ∈ cs, IsMark c) :
    read (String.ofList cs) =
      readUnsigned (readSign (cs.map lowerAscii)).1 (readSign (cs.map lowerAscii)).2 := by
  have trimmed : trimBlanks cs = cs := by
    apply trim_eq_self
    intro c hc
    have visible := (h c hc).of_all (p := fun c ↦ !isBlank c) (by decide) (by decide)
    rwa [Bool.not_eq_true'] at visible
  have kept : cs.filter (· ≠ '_') = cs := by
    rw [List.filter_eq_self]
    intro c hc
    exact (h c hc).of_all (p := fun c ↦ c ≠ '_') (by decide) (by decide)
  have ascii : foldNumeral? cs = some cs := by
    apply foldNumeral?_of_ascii
    intro c hc
    exact of_decide_eq_true ((h c hc).of_all (p := fun c ↦ c.toNat < 0x80) (by decide) (by decide))
  rw [read, String.toList_ofList, trimmed, kept, ascii]

private theorem readSign_signText (negative : Bool) {cs : List Char}
    (h : cs.head? ≠ some '-' ∧ cs.head? ≠ some '+') :
    readSign ((signText negative).map lowerAscii ++ cs) = (negative, cs) := by
  cases negative with
  | true => rfl
  | false =>
    rw [signText, if_neg Bool.false_ne_true, List.map_nil, List.nil_append]
    unfold readSign
    split
    · exact absurd rfl h.1
    · exact absurd rfl h.2
    · rfl

private theorem isMark_of_mem_signText (negative : Bool) {cs : List Char} (h : ∀ c ∈ cs, IsMark c) :
    ∀ c ∈ signText negative ++ cs, IsMark c := by
  refine isMark_of_mem_append _ ?_ h
  cases negative <;> decide

private theorem read_signed (negative : Bool) {cs : List Char} (marks : ∀ c ∈ cs, IsMark c)
    (unsigned : (cs.map lowerAscii).head? ≠ some '-' ∧ (cs.map lowerAscii).head? ≠ some '+') :
    read (String.ofList (signText negative ++ cs)) =
      readUnsigned negative (cs.map lowerAscii) := by
  rw [read_of_isMark (isMark_of_mem_signText negative marks), List.map_append,
    readSign_signText negative unsigned]

private theorem readUnsigned_digit (negative : Bool) {c : Char} {cs : List Char}
    (h : IsDigitOf 10 c) :
    readUnsigned negative (c :: cs) =
      (readFinite (c :: cs)).map fun (c, e) ↦ finite negative c e := by
  have letters : 'i' ≠ c ∧ 's' ≠ c ∧ 'n' ≠ c :=
    h.of_forall (P := fun c ↦ 'i' ≠ c ∧ 's' ≠ c ∧ 'n' ≠ c) (by decide)
  have snan : stripWord? "snan" (c :: cs) = none := by
    simp [stripWord?, List.isPrefixOf, letters]
  have nan : stripWord? "nan" (c :: cs) = none := by
    simp [stripWord?, List.isPrefixOf, letters]
  rw [readUnsigned, snan, nan]
  simp [letters.1.symm]

private theorem readPayload_text (payload : Nat) :
    readPayload (if payload = 0 then [] else decimal payload) = .ok payload := by
  by_cases zero : payload = 0
  · rw [if_pos zero, zero]
    rfl
  · have some : (decimal payload).isEmpty = false := by simp [decimal]
    rw [if_neg zero, readPayload, some, nat?_decimal]
    rfl

/-- A finite number within the range of exponents, or any other one. -/
def IsInRange : Decimal → Prop
  | finite _ coefficient exponent => InRange coefficient exponent
  | _ => True

/-- The text of a decimal number is read back. -/
theorem read_text {d : Decimal} (h : d.IsInRange) : read d.text = .ok d := by
  cases d with
  | finite negative coefficient exponent =>
    obtain ⟨s, hs, htext⟩ := Spelling.exists_finiteText_eq coefficient exponent
    obtain ⟨c, cs, hcons⟩ := List.exists_cons_of_ne_nil hs.some
    obtain ⟨cs, hchars⟩ : ∃ cs, s.chars 'e' = c :: cs := by
      rw [Spelling.chars, hcons]
      exact ⟨_, rfl⟩
    have digit : IsDigitOf 10 c := hs.whole c (hcons ▸ List.mem_cons_self)
    have unsigned : ((s.chars 'E').map lowerAscii).head? ≠ some '-' ∧
        ((s.chars 'E').map lowerAscii).head? ≠ some '+' := by
      rw [hs.map_lowerAscii_chars, hchars, List.head?_cons]
      exact digit.of_forall (P := fun c ↦ some c ≠ some '-' ∧ some c ≠ some '+') (by decide)
    rw [text, chars, htext, read_signed negative hs.isMark_of_mem_chars unsigned,
      hs.map_lowerAscii_chars, hchars, readUnsigned_digit negative digit, ← hchars,
      hs.readFinite_chars h]
    rfl
  | infinite negative =>
    have none : ∀ c ∈ ([] : List Char), IsMark c := by simp
    have word := isMark_of_mem_append "Infinity".toList (by decide) none
    rw [List.append_nil] at word
    rw [text, chars, read_signed negative word (by decide)]
    rfl
  | nan negative signaling payload =>
    have digits : ∀ c ∈ (if payload = 0 then [] else decimal payload), IsDigitOf 10 c := by
      intro c hc
      split at hc
      · cases hc
      · exact isDigitOf_of_mem_decimal hc
    have word : ∀ word : List Char, word.all (marks.contains ·) = true →
        ∀ c ∈ word ++ (if payload = 0 then [] else decimal payload), IsMark c :=
      fun word hword ↦ isMark_of_mem_append word hword fun c hc ↦ .inl (digits c hc)
    have lower : ∀ word : List Char,
        (word ++ (if payload = 0 then [] else decimal payload)).map lowerAscii =
          word.map lowerAscii ++ (if payload = 0 then [] else decimal payload) := by
      intro word
      rw [List.map_append, map_lowerAscii_digits digits]
    rw [text, chars, List.append_assoc]
    cases signaling with
    | true =>
      rw [if_pos rfl, read_signed negative (word _ (by decide)), lower]
      · exact congrArg (Except.map (nan negative true)) (readPayload_text payload)
      · rw [lower]
        simp; decide
    | false =>
      rw [if_neg Bool.false_ne_true, read_signed negative (word _ (by decide)), lower]
      · exact congrArg (Except.map (nan negative false)) (readPayload_text payload)
      · rw [lower]
        simp; decide

/-! ### Numbers that were read -/

private theorem inRange_of_readFinite {cs : List Char} {coefficient : Nat} {exponent : Int}
    (h : readFinite cs = .ok (coefficient, exponent)) : InRange coefficient exponent := by
  grind [readFinite]

private theorem isInRange_of_readUnsigned {negative : Bool} {cs : List Char} {d : Decimal}
    (h : readUnsigned negative cs = .ok d) : d.IsInRange := by
  rw [readUnsigned] at h
  split_ifs at h
  · cases h
    trivial
  · split at h
    · obtain ⟨payload, -, rfl⟩ := (Success.map_eq_ok _ _ _).mp h
      trivial
    · split at h
      · obtain ⟨payload, -, rfl⟩ := (Success.map_eq_ok _ _ _).mp h
        trivial
      · obtain ⟨⟨coefficient, exponent⟩, hfinite, rfl⟩ := (Success.map_eq_ok _ _ _).mp h
        exact inRange_of_readFinite hfinite

/-- A number that is read is within the range of exponents. -/
theorem isInRange_of_read {s : String} {d : Decimal} (h : read s = .ok d) : d.IsInRange := by
  unfold read at h
  split at h
  · cases h
  · exact isInRange_of_readUnsigned h

end EntityGraph.Number.Decimal
