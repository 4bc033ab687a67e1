import EntityGraph.Calendar.Iso
import EntityGraph.Proofs.ReadBack.Digits
import EntityGraph.Proofs.Success

/-!
# Dates and moments read back

The text of a date is read as that date. The text of a moment is read as that moment, unless its
offset from universal time is shorter than a second: such an offset is written, but read as none.
-/

namespace EntityGraph.Calendar

open EntityGraph.Text

namespace Iso

/-- A run of padded digits at the head of a text is read as the number that it was made of. -/
theorem digits_padded {width n : Nat} (hwidth : 0 < width) (hn : n < 10 ^ width)
    (rest : List Char) : digits width (padded width n ++ rest) = .ok (n, rest) := by
  have length : (padded width n).length = width := length_padLeft (by decide) hn hwidth
  obtain ⟨ds, hds, hvalue⟩ := @exists_mapM_padLeft 10 (by decide) (by decide) width n
  have values : (padded width n).mapM digit? = some ds := by
    rw [← hds]
    exact congrArg (List.mapM · _) (funext fun c ↦ (digitIn?_ten c).symm)
  rw [digits, List.take_left' length, List.drop_left' length, values, if_pos length, ← hvalue]

/-- Padded digits alone are read as the number that they were made of. -/
theorem digits_padded_nil {width n : Nat} (hwidth : 0 < width) (hn : n < 10 ^ width) :
    digits width (padded width n) = .ok (n, []) := by
  simpa using digits_padded hwidth hn []

end Iso

/-- Padded digits are decimal digits. -/
theorem isDigit_of_mem_padded {width n : Nat} {c : Char} (hc : c ∈ padded width n) :
    isDigit c = true :=
  isDigit_of_isDigitOf (isDigitOf_of_mem (by decide) hc)

/-- A padded number begins with a digit. -/
theorem exists_padded_eq_cons (width : Nat) (hwidth : 0 < width) (n : Nat) :
    ∃ c cs, padded width n = c :: cs ∧ isDigit c = true := by
  have length := le_length_padLeft width '0' (decimal n)
  obtain ⟨c, cs, h⟩ := List.exists_cons_of_length_pos (l := padded width n) (by
    rw [padded]; omega)
  exact ⟨c, cs, h, isDigit_of_mem_padded (h ▸ List.mem_cons_self)⟩

namespace Date

/-- The parts of a date have as many digits as they are filled up to. -/
theorem parts_lt (d : Date) : d.year < 10 ^ 4 ∧ d.month < 10 ^ 2 ∧ d.day < 10 ^ 2 := by
  obtain ⟨-, hyear, -, hmonth, -, hday⟩ := d.isDay
  rw [maxYear] at hyear
  have days : daysInMonth d.year d.month ≤ 31 := by
    rw [daysInMonth]
    grind
  omega

/-- The text of a date has ten characters. -/
theorem length_chars (d : Date) : d.chars.length = 10 := by
  obtain ⟨hyear, hmonth, hday⟩ := d.parts_lt
  have year : (padded 4 d.year).length = 4 := length_padLeft (by decide) hyear (by decide)
  have month : (padded 2 d.month).length = 2 := length_padLeft (by decide) hmonth (by decide)
  have day : (padded 2 d.day).length = 2 := length_padLeft (by decide) hday (by decide)
  simp [chars, year, month, day]

private theorem ascii_of_mem_chars {d : Date} {c : Char} (hc : c ∈ d.chars) : c.toNat < 0x80 := by
  have digit : ∀ {c : Char}, isDigit c = true → c.toNat < 0x80 := by
    intro c h
    simp only [isDigit, Bool.and_eq_true, decide_eq_true_eq] at h
    exact Nat.lt_of_le_of_lt h.2 (by decide)
  simp only [chars, List.mem_append, List.mem_cons] at hc
  rcases hc with (hc | rfl | hc) | rfl | hc
  · exact digit (isDigit_of_mem_padded hc)
  · decide
  · exact digit (isDigit_of_mem_padded hc)
  · decide
  · exact digit (isDigit_of_mem_padded hc)

/-- The text of a date is read back. -/
theorem date_chars (d : Date) : Iso.date d.chars = .ok d := by
  obtain ⟨hyear, hmonth, hday⟩ := d.parts_lt
  have ascii : (d.chars.any fun c ↦ 0x80 ≤ c.toNat) = false := by
    rw [List.any_eq_false]
    intro c hc
    simpa using ascii_of_mem_chars hc
  obtain ⟨c, cs, hcons, hc⟩ := exists_padded_eq_cons 2 (by decide) d.month
  have month := Iso.digits_padded (by decide) hmonth ('-' :: padded 2 d.day)
  have week : c ≠ 'W' := by
    rintro rfl
    exact absurd hc (by decide)
  have split : d.chars = padded 4 d.year ++ '-' :: (c :: cs ++ '-' :: padded 2 d.day) := by
    rw [chars, ← hcons, List.append_assoc, List.cons_append]
  rw [Iso.date, ascii]
  rw [hcons] at month
  simp only [split, Iso.digits_padded (by decide) hyear, bind, Except.bind, Bool.false_eq_true,
    if_false, List.head?_cons, if_true, List.drop_succ_cons, List.drop_zero, List.cons_append]
  split
  · next h => exact absurd (List.cons.inj h).1 week
  · rw [← List.cons_append, month]
    simp only [Iso.hyphen, decide_true, if_true, Iso.digits_padded_nil (by decide) hday,
      ofParts_parts]

end Date

/-! ### Moments -/

namespace Iso

/-- Padded digits are some. -/
theorem padded_append_ne_nil (width : Nat) (hwidth : 0 < width) (n : Nat) (rest : List Char) :
    padded width n ++ rest ≠ [] := by
  obtain ⟨c, cs, h, -⟩ := exists_padded_eq_cons width hwidth n
  simp [h]

/-- Behind a colon the next part of a clock text follows. -/
theorem afterPart_colon {cs : List Char} (h : cs ≠ []) :
    afterPart true (':' :: cs) = .ok (.next cs) := by
  obtain ⟨c, cs, rfl⟩ := List.exists_cons_of_ne_nil h
  rfl

private theorem afterPart_point {cs : List Char} (h : cs ≠ []) :
    afterPart true ('.' :: cs) = .ok (.fraction cs) := by
  obtain ⟨c, cs, rfl⟩ := List.exists_cons_of_ne_nil h
  rfl

private theorem fraction_padded {microsecond : Nat} (h : microsecond < 10 ^ 6) :
    fraction (padded 6 microsecond) = .ok (microsecond, []) := by
  have length : (padded 6 microsecond).length = 6 := length_padLeft (by decide) h (by decide)
  rw [fraction, length]
  simp only [Nat.min_self, digits_padded_nil (by decide) h, bind, Except.bind, pure, Except.pure]
  simp

section Clock

variable {hour minute second microsecond : Nat} (hhour : hour < 10 ^ 2) (hminute : minute < 10 ^ 2)

include hhour hminute

private theorem clock_minutes :
    clock (padded 2 hour ++ ':' :: padded 2 minute) = .ok (⟨hour, minute, 0, 0⟩, false) := by
  have some := padded_append_ne_nil 2 (by decide) minute []
  rw [List.append_nil] at some
  rw [clock]
  simp only [digits_padded (by decide) hhour, digits_padded_nil (by decide) hminute, bind,
    Except.bind, List.head?_cons, decide_true, afterPart_colon some]
  rfl

/-- The clock text of hours, minutes, seconds and microseconds is read back. -/
theorem clock_timeChars (hsecond : second < 10 ^ 2) (hmicro : microsecond < 10 ^ 6) :
    clock (Moment.timeChars hour minute second microsecond) =
      .ok (⟨hour, minute, second, microsecond⟩, false) := by
  have split : Moment.timeChars hour minute second microsecond = padded 2 hour ++ ':' ::
      (padded 2 minute ++ ':' :: (padded 2 second ++
        if microsecond = 0 then [] else '.' :: padded 6 microsecond)) := by
    simp [Moment.timeChars]
  have next := fun n rest ↦ afterPart_colon (padded_append_ne_nil 2 (by decide) n rest)
  rw [split, clock]
  simp only [digits_padded (by decide) hhour, digits_padded (by decide) hminute,
    digits_padded (by decide) hsecond, bind, Except.bind, List.head?_cons, decide_true, next]
  by_cases zero : microsecond = 0
  · rw [if_pos zero, zero]
    rfl
  · have some := padded_append_ne_nil 6 (by decide) microsecond []
    rw [List.append_nil] at some
    simp only [if_neg zero, afterPart_point some, clockFraction, fraction_padded hmicro, bind,
      Except.bind]
    rfl

end Clock

end Iso

namespace Moment

/-- The text of an offset is a sign and a clock text. -/
theorem offsetChars_eq (offset : Int) :
    offsetChars offset = (if offset < 0 then '-' else '+') ::
      (if offset.natAbs / 1000000 % 60 = 0 ∧ offset.natAbs % 1000000 = 0 then
        padded 2 (offset.natAbs / 1000000 / 3600) ++
          ':' :: padded 2 (offset.natAbs / 1000000 / 60 % 60)
      else timeChars (offset.natAbs / 1000000 / 3600) (offset.natAbs / 1000000 / 60 % 60)
        (offset.natAbs / 1000000 % 60) (offset.natAbs % 1000000)) := by
  rw [offsetChars, timeChars]
  split_ifs <;> simp

/-- The offset that the text of an offset is read as: one shorter than a second is none. -/
def readOffset (offset : Int) : Int := if offset.natAbs < 1000000 then 0 else offset

private theorem offsetOf_parts (offset : Int) :
    Iso.offsetOf (decide (offset < 0)) ⟨offset.natAbs / 1000000 / 3600,
      offset.natAbs / 1000000 / 60 % 60, offset.natAbs / 1000000 % 60,
      offset.natAbs % 1000000⟩ = readOffset offset := by
  have seconds : (offset.natAbs / 1000000 / 3600 * 60 + offset.natAbs / 1000000 / 60 % 60) * 60 +
      offset.natAbs / 1000000 % 60 = offset.natAbs / 1000000 := by omega
  simp only [Iso.offsetOf, seconds, decide_eq_true_eq, readOffset]
  split_ifs <;> omega

private theorem exists_clock_offsetChars {offset : Int} (h : offset.natAbs < dayMicroseconds) :
    ∃ rest, offsetChars offset = (if offset < 0 then '-' else '+') :: rest ∧
      Iso.clock rest = .ok (⟨offset.natAbs / 1000000 / 3600, offset.natAbs / 1000000 / 60 % 60,
        offset.natAbs / 1000000 % 60, offset.natAbs % 1000000⟩, false) := by
  rw [dayMicroseconds] at h
  refine ⟨_, offsetChars_eq offset, ?_⟩
  split
  · next hwhole =>
    rw [hwhole.1, hwhole.2]
    exact Iso.clock_minutes (by omega) (by omega)
  · exact Iso.clock_timeChars (by omega) (by omega) (by omega) (by omega)

/-- The moment that the text of a moment is read as. -/
def reread (m : Moment) : Moment :=
  { m with
    offset := m.offset.map readOffset
    isOffset := by
      have h := m.isOffset
      cases ho : m.offset with
      | none => trivial
      | some o =>
        rw [ho] at h
        simp only [IsOffset, Option.map_some, readOffset] at h ⊢
        split_ifs
        · decide
        · exact h }

/-- A moment is read as itself if its offset is not shorter than a second, or none. -/
theorem reread_eq_self {m : Moment} (h : ∀ o, m.offset = some o → o = 0 ∨ 1000000 ≤ o.natAbs) :
    m.reread = m := by
  obtain ⟨date, hour, minute, second, microsecond, offset, ht, ho⟩ := m
  have same : offset.map readOffset = offset := by
    cases offset with
    | none => rfl
    | some o =>
      rw [Option.map_some, readOffset]
      rcases h o rfl with rfl | large
      · rfl
      · rw [if_neg (by omega)]
  simp only [reread, same]

/-- A moment is read as the same moment only if its offset is not shorter than a second, or none. -/
theorem reread_same_iff (m : Moment) :
    m.reread.same m = true ↔ ∀ o, m.offset = some o → o = 0 ∨ 1000000 ≤ o.natAbs := by
  constructor
  · intro h o ho
    have moved : m.reread.offset = some (readOffset o) := by
      show m.offset.map readOffset = _
      rw [ho, Option.map_some]
    rw [same, moved, ho, decide_eq_true_eq] at h
    by_contra short
    rw [not_or, Nat.not_le] at short
    have locals : m.reread.localMicroseconds = m.localMicroseconds := rfl
    rw [locals, readOffset, if_pos short.2] at h
    omega
  · intro h
    rw [reread_eq_self h, same_self]

private theorem offsetChars_eq_zero {o : Int} (short : o.natAbs < 1000000)
    (h : offsetChars 0 = offsetChars o) : o = 0 := by
  by_contra hne
  have seconds : o.natAbs / 1000000 = 0 := by omega
  have microseconds : o.natAbs % 1000000 ≠ 0 := by omega
  have written : ¬ (0 % 60 = 0 ∧ o.natAbs % 1000000 = 0) := fun h ↦ microseconds h.2
  have zero : offsetChars 0 = ['+', '0', '0', ':', '0', '0'] := by decide
  have two : (padded 2 0).length = 2 := by decide
  rw [zero, offsetChars_eq, seconds, if_neg written] at h
  have tail := congrArg List.length (List.cons.inj h).2
  simp only [timeChars, List.length_cons, List.length_append, List.length_nil, Nat.zero_div,
    Nat.zero_mod, two] at tail
  omega

/-- The moment that a moment is read as is written alike only if the offset is not shorter than a
second, or none. -/
theorem reread_text_eq_iff (m : Moment) :
    m.reread.text = m.text ↔ ∀ o, m.offset = some o → o = 0 ∨ 1000000 ≤ o.natAbs := by
  constructor
  · intro h o ho
    by_contra short
    rw [not_or, Nat.not_le] at short
    have moved : m.reread.offset = some 0 := by
      show m.offset.map readOffset = _
      rw [ho, Option.map_some, readOffset, if_pos short.2]
    have written : m.reread.chars 'T' = m.chars 'T' := String.ofList_injective h
    rw [chars, chars, moved, ho] at written
    exact short.1 (offsetChars_eq_zero short.2 (List.append_cancel_left written))
  · intro h
    rw [reread_eq_self h]

/-- The characters of a time of day begin no offset. -/
private theorem not_beginsOffset_of_mem {hour minute second microsecond : Nat} {c : Char}
    (hc : c ∈ timeChars hour minute second microsecond) : (!Iso.beginsOffset c) = true := by
  have digit : ∀ {c : Char}, isDigit c = true → (!Iso.beginsOffset c) = true := by
    intro c h
    have differs : c ≠ '+' ∧ c ≠ '-' ∧ c ≠ 'Z' := by
      refine ⟨?_, ?_, ?_⟩ <;> rintro rfl <;> exact absurd h (by decide)
    simp [Iso.beginsOffset, differs]
  have point : c ∈ (if microsecond = 0 then [] else '.' :: padded 6 microsecond) →
      (!Iso.beginsOffset c) = true := by
    split_ifs with zero
    · intro hc
      cases hc
    · rw [List.mem_cons]
      rintro (rfl | hc)
      · decide
      · exact digit (isDigit_of_mem_padded hc)
  simp only [timeChars, List.mem_append, List.mem_cons] at hc
  rcases hc with ((hc | rfl | hc) | rfl | hc) | hc
  · exact digit (isDigit_of_mem_padded hc)
  · decide
  · exact digit (isDigit_of_mem_padded hc)
  · decide
  · exact digit (isDigit_of_mem_padded hc)
  · exact point hc

/-- The time of day and the offset of a moment are read back, but for an offset shorter than a
second. -/
private theorem time_chars (m : Moment) :
    Iso.time (timeChars m.hour m.minute m.second m.microsecond ++
      (m.offset.map offsetChars).getD []) =
        .ok (⟨m.hour, m.minute, m.second, m.microsecond⟩, m.offset.map readOffset) := by
  obtain ⟨hhour, hminute, hsecond, hmicro⟩ := m.isTime
  have clock : Iso.clock (timeChars m.hour m.minute m.second m.microsecond) =
      .ok (⟨m.hour, m.minute, m.second, m.microsecond⟩, false) :=
    Iso.clock_timeChars (by omega) (by omega) (by omega) (by omega)
  have before : ∀ c ∈ timeChars m.hour m.minute m.second m.microsecond,
      (!Iso.beginsOffset c) = true := fun c hc ↦ not_beginsOffset_of_mem hc
  rw [Iso.time, List.takeWhile_append_of_pos before, List.dropWhile_append_of_pos before]
  cases ho : m.offset with
  | none =>
    simp only [Option.map_none, Option.getD_none, List.takeWhile_nil, List.append_nil, clock]
    rfl
  | some o =>
    have hoffset : o.natAbs < dayMicroseconds := by
      have h := m.isOffset
      rwa [ho] at h
    obtain ⟨rest, hrest, hclock⟩ := exists_clock_offsetChars hoffset
    have parts := offsetOf_parts o
    rw [Option.map_some, Option.getD_some, hrest]
    by_cases negative : o < 0
    · rw [decide_eq_true negative] at parts
      simp only [if_pos negative, List.takeWhile_cons, Iso.beginsOffset, Option.map_some, ← parts]
      simp [clock, hclock, bind, Except.bind, pure, Except.pure]
    · rw [decide_eq_false negative] at parts
      simp only [if_neg negative, List.takeWhile_cons, Iso.beginsOffset, Option.map_some, ← parts]
      simp [clock, hclock, bind, Except.bind, pure, Except.pure]

/-- Where the date at the head of the text of a moment ends. -/
private theorem dateLength_chars (d : Date) (rest : List Char) :
    Iso.dateLength (d.chars ++ rest) = .ok 10 := by
  obtain ⟨hyear, -, -⟩ := d.parts_lt
  have year : (padded 4 d.year).length = 4 := length_padLeft (by decide) hyear (by decide)
  obtain ⟨c, cs, hcons, hc⟩ := exists_padded_eq_cons 2 (by decide) d.month
  have long : d.chars.length + rest.length ≠ 7 := by
    rw [d.length_chars]
    omega
  have text : d.chars ++ rest =
      padded 4 d.year ++ '-' :: c :: (cs ++ '-' :: padded 2 d.day ++ rest) := by
    simp [Date.chars, hcons]
  have fourth : (d.chars ++ rest)[4]? = some '-' := by
    rw [text, List.getElem?_append_right (by omega), year]
    rfl
  have fifth : (d.chars ++ rest)[5]? = some c := by
    rw [text, List.getElem?_append_right (by omega), year]
    rfl
  have week : c ≠ 'W' := by
    rintro rfl
    exact absurd hc (by decide)
  rw [Iso.dateLength]
  simp [long, fourth, fifth, week]

/-- The text of a moment is read back, but for an offset shorter than a second. -/
theorem moment_chars (m : Moment) : Iso.moment (m.chars 'T') = .ok m.reread := by
  have text : m.chars 'T' = m.date.chars ++ 'T' ::
      (timeChars m.hour m.minute m.second m.microsecond ++ (m.offset.map offsetChars).getD []) := by
    simp [chars]
  have parts := ofParts_parts m.reread
  rw [text, Iso.moment, dateLength_chars]
  simp only [bind, Except.bind, List.take_left' m.date.length_chars,
    List.drop_left' m.date.length_chars, m.date.date_chars, time_chars]
  exact parts

/-- The text of a moment is longer than that of a date. -/
theorem length_chars_ne (m : Moment) : (m.chars 'T').length ≠ 10 := by
  simp [chars, m.date.length_chars]

end Moment

end EntityGraph.Calendar
