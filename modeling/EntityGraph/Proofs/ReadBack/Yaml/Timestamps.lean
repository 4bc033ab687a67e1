import EntityGraph.Proofs.ReadBack.Calendar
import EntityGraph.Proofs.ReadBack.Yaml.Spelling

/-!
# Timestamps read back

The text of a date is read as a timestamp of that day. The text of a moment is read as a timestamp
of that moment if its offset from universal time is a number of minutes; longer offsets have no
form.
-/

namespace EntityGraph.Yaml

open EntityGraph.Calendar EntityGraph.Text

namespace Timestamp

/-- A run of padded digits at the head of a text is read as the number that it was made of. -/
theorem digits?_padded {least width n : Nat} (hleast : least ≤ width) (hwidth : 0 < width)
    (hn : n < 10 ^ width) (rest : List Char) :
    digits? least width (padded width n ++ rest) = some (n, rest) := by
  have length : (padded width n).length = width := length_padLeft (by decide) hn hwidth
  have digits : (padded width n).takeWhile isDigit = padded width n :=
    List.takeWhile_eq_self_iff.mpr fun _ ↦ isDigit_of_mem_padded
  rw [digits?]
  simp only [List.take_left' length, digits, length, if_pos hleast, nat?_padded,
    List.drop_left' length, Option.map_some]

private theorem digits?_padded_nil {least width n : Nat} (hleast : least ≤ width)
    (hwidth : 0 < width)
    (hn : n < 10 ^ width) : digits? least width (padded width n) = some (n, []) := by
  simpa using digits?_padded hleast hwidth hn []

/-- The characters of a date at the head of a text are read as the parts of the date. -/
theorem read?_date (d : Date) (rest : List Char) :
    read? (d.chars ++ rest) =
      if rest.isEmpty then some ⟨d.year, d.month, d.day, none⟩
      else do return ⟨d.year, d.month, d.day, some (← time? (← afterGap? rest))⟩ := by
  obtain ⟨hyear, hmonth, hday⟩ := d.parts_lt
  have split : d.chars ++ rest = padded 4 d.year ++ '-' :: (padded 2 d.month ++ '-' ::
      (padded 2 d.day ++ rest)) := by
    simp [Date.chars]
  rw [read?, split, digits?_padded (Nat.le_refl 4) (by decide) hyear]
  simp only [Option.bind_eq_bind, Option.bind_some, after?, if_true,
    digits?_padded (Nat.le_succ 1) Nat.two_pos hmonth,
    digits?_padded (Nat.le_succ 1) Nat.two_pos hday]
  rfl

private theorem offset?_parts {hours minutes : Nat} (hhours : hours < 10 ^ 2)
    (hminutes : minutes < 10 ^ 2) (negative : Bool) :
    offset? ((if negative then '-' else '+') :: (padded 2 hours ++ ':' :: padded 2 minutes)) =
      some (some (if negative then -(hours * 60 + minutes : Int) else hours * 60 + minutes)) := by
  have digits := digits?_padded (Nat.le_succ 1) Nat.two_pos hhours (':' :: padded 2 minutes)
  have last := digits?_padded_nil (Nat.le_refl 2) Nat.two_pos hminutes
  cases negative <;> simp [offset?, isGap, digits, last]

private theorem offset?_offsetChars {o : Int} (short : o.natAbs < dayMicroseconds)
    (whole : 60000000 ∣ o) : offset? (Moment.offsetChars o) = some (some (o / 60000000)) := by
  rw [dayMicroseconds] at short
  have exact : o.natAbs / 1000000 % 60 = 0 ∧ o.natAbs % 1000000 = 0 := by omega
  have read := @offset?_parts (o.natAbs / 1000000 / 3600) (o.natAbs / 1000000 / 60 % 60) (by omega)
    (by omega) (o < 0)
  rw [Moment.offsetChars_eq, if_pos exact]
  simp only [decide_eq_true_eq] at read
  rw [read]
  congr 2
  split <;> omega

private theorem microseconds_padded {n : Nat} (h : n < 10 ^ 6) : microseconds (padded 6 n) = n := by
  have length : (padded 6 n).length = 6 := length_padLeft (by decide) h (by decide)
  rw [microseconds, List.take_of_length_le (Nat.le_of_eq length)]
  simp [length, nat?_padded]

private theorem head?_offset (offset : Option Int) :
    ∀ c ∈ ((offset.map Moment.offsetChars).getD []).head?, c = '-' ∨ c = '+' := by
  cases offset with
  | none => nofun
  | some o =>
    rw [Option.map_some, Option.getD_some, Moment.offsetChars_eq]
    rintro c hc
    obtain rfl := Option.some.inj hc
    split
    · exact .inl rfl
    · exact .inr rfl

/-- The time of day and the offset of a moment are read back, if the offset is a number of
minutes. -/
private theorem exists_time?_chars (m : Moment) (whole : ∀ o, m.offset = some o → 60000000 ∣ o) :
    ∃ fraction, time? (Moment.timeChars m.hour m.minute m.second m.microsecond ++
        (m.offset.map Moment.offsetChars).getD []) =
        some ⟨m.hour, m.minute, m.second, fraction, m.offset.map (· / 60000000)⟩ ∧
      microseconds fraction = m.microsecond := by
  obtain ⟨hhour, hminute, hsecond, hmicro⟩ := m.isTime
  have offset : offset? ((m.offset.map Moment.offsetChars).getD []) =
      some (m.offset.map (· / 60000000)) := by
    cases ho : m.offset with
    | none => rfl
    | some o =>
      have short := m.isOffset
      rw [ho] at short
      exact offset?_offsetChars short (whole o ho)
  have head := head?_offset m.offset
  generalize (m.offset.map Moment.offsetChars).getD [] = rest at offset head ⊢
  have clock (behind : List Char) : padded 2 m.hour ++ ':' :: padded 2 m.minute ++
      ':' :: padded 2 m.second ++ behind = padded 2 m.hour ++ (':' :: (padded 2 m.minute ++
        (':' :: (padded 2 m.second ++ behind)))) := by
    simp
  have hour := digits?_padded (Nat.le_succ 1) Nat.two_pos (n := m.hour) (by omega)
  have minute := digits?_padded (Nat.le_refl 2) Nat.two_pos (n := m.minute) (by omega)
  have second := digits?_padded (Nat.le_refl 2) Nat.two_pos (n := m.second) (by omega)
  rw [Moment.timeChars]
  by_cases zero : m.microsecond = 0
  · refine ⟨[], ?_, zero.symm⟩
    rw [if_pos zero, List.append_nil, clock, time?, hour]
    simp only [Option.bind_eq_bind, Option.bind_some, after?, if_true, minute, second]
    have pointless : ∀ cs, rest ≠ '.' :: cs := by
      rintro cs rfl
      simpa using head '.' rfl
    split
    · next cs => exact absurd rfl (pointless cs)
    · rw [offset]
      rfl
  · have micro : m.microsecond < 10 ^ 6 := hmicro
    refine ⟨padded 6 m.microsecond, ?_, microseconds_padded micro⟩
    obtain ⟨taken, dropped⟩ := span_digits rest
      (fun _ ↦ @isDigitOf_of_mem 10 (by decide) 6 m.microsecond _)
      fun c hc ↦ by rcases head c hc with rfl | rfl <;> decide
    rw [if_neg zero, List.append_assoc, clock, time?, hour]
    simp only [Option.bind_eq_bind, Option.bind_some, after?, if_true, minute, second,
      List.cons_append]
    rw [padded, decimal, taken, dropped, offset]
    rfl

private theorem afterGap?_timeChars (hour minute second microsecond : Nat) (rest : List Char) :
    afterGap? (' ' :: (Moment.timeChars hour minute second microsecond ++ rest)) =
      some (Moment.timeChars hour minute second microsecond ++ rest) := by
  obtain ⟨c, cs, digits, digit⟩ := exists_padded_eq_cons 2 (by decide) hour
  have differs : c ≠ ' ' ∧ c ≠ '\t' := by
    constructor <;> rintro rfl <;> exact absurd digit (by decide)
  have gap : isGap c = false := by simp [isGap, differs]
  have space : isGap ' ' = true := by decide
  rw [Moment.timeChars, digits]
  simp [afterGap?, space, gap]

end Timestamp

/-! ### Characters -/

/-- A character of one byte that ends no line. -/
def IsShort (c : Char) : Prop := c ≠ '\n' ∧ c.toNat ≤ 0xFF

instance (c : Char) : Decidable (IsShort c) := inferInstanceAs (Decidable (_ ∧ _))

private theorem isShort_of_isDigitOf {c : Char} (h : IsDigitOf 10 c) : IsShort c :=
  h.of_forall (P := IsShort) (by decide)

/-- So are padded digits. -/
theorem isShort_padded (width n : Nat) : ∀ c ∈ padded width n, IsShort c :=
  fun _ hc ↦ isShort_of_isDigitOf (isDigitOf_of_mem (by decide) hc)

/-- So are the characters of a date. -/
theorem isShort_date (d : Date) : ∀ c ∈ d.chars, IsShort c := by
  have hyphen : IsShort '-' := by decide
  simp only [Date.chars, List.forall_mem_append, List.forall_mem_cons]
  exact ⟨⟨isShort_padded 4 _, hyphen, isShort_padded 2 _⟩, hyphen, isShort_padded 2 _⟩

/-- So are the characters of a time of day. -/
theorem isShort_timeChars (hour minute second microsecond : Nat) :
    ∀ c ∈ Moment.timeChars hour minute second microsecond, IsShort c := by
  have colon : IsShort ':' := by decide
  have fraction : ∀ c ∈ (if microsecond = 0 then [] else '.' :: padded 6 microsecond),
      IsShort c := by
    split
    · exact List.forall_mem_nil _
    · exact List.forall_mem_cons.mpr ⟨by decide, isShort_padded 6 _⟩
  simp only [Moment.timeChars, List.forall_mem_append, List.forall_mem_cons]
  exact ⟨⟨⟨isShort_padded 2 _, colon, isShort_padded 2 _⟩, colon, isShort_padded 2 _⟩, fraction⟩

private theorem isShort_offsetChars (o : Int) : ∀ c ∈ Moment.offsetChars o, IsShort c := by
  rw [Moment.offsetChars_eq, List.forall_mem_cons]
  constructor
  · split <;> decide
  · split
    · exact List.forall_mem_append.mpr
        ⟨isShort_padded 2 _, List.forall_mem_cons.mpr ⟨by decide, isShort_padded 2 _⟩⟩
    · exact isShort_timeChars _ _ _ _

private theorem isShort_moment (m : Moment) : ∀ c ∈ m.chars ' ', IsShort c := by
  have offset : ∀ c ∈ (m.offset.map Moment.offsetChars).getD [], IsShort c := by
    cases m.offset with
    | none => exact List.forall_mem_nil _
    | some o => exact isShort_offsetChars o
  simp only [Moment.chars, List.forall_mem_append, List.forall_mem_cons]
  exact ⟨⟨isShort_date m.date, by decide, isShort_timeChars _ _ _ _⟩, offset⟩

/-- A text without line feeds is kept as it is. -/
theorem dropLastBreak_eq {cs : List Char} (h : ∀ c ∈ cs, IsShort c) :
    Tag.dropLastBreak cs = cs := by
  have last : cs.getLast? ≠ some '\n' := fun last ↦ (h '\n' (List.mem_of_getLast? last)).1 rfl
  simp [Tag.dropLastBreak, last]

/-! ### Scalars -/

/-- A date is read back. -/
theorem isScalar_date (d : Date) : IsScalar (.date d) "timestamp" d.text := by
  refine ⟨fun _ ↦ rfl, by decide, fun _ ↦ by decide, fun id ↦ ?_, rfl, .inr fun c hc ↦ ?_⟩
  · have read : Timestamp.read? d.chars = some ⟨d.year, d.month, d.day, none⟩ := by
      simpa using Timestamp.read?_date d []
    show Scalar.timestamp id d.text = _
    rw [Scalar.timestamp, Date.text, String.toList_ofList, dropLastBreak_eq (isShort_date d), read]
    simp only [Timestamp.date, Date.ofParts_parts]
    rfl
  · rw [Date.text, String.toList_ofList] at hc
    exact (isShort_date d c hc).2

/-- A moment whose offset is a number of minutes is read back. -/
theorem isScalar_moment {m : Moment} (whole : ∀ o, m.offset = some o → 60000000 ∣ o) :
    IsScalar (.moment m) "timestamp" m.spacedText := by
  refine ⟨fun _ ↦ rfl, by decide, fun _ ↦ by decide, fun id ↦ ?_, rfl, .inr fun c hc ↦ ?_⟩
  · obtain ⟨fraction, time, micro⟩ := Timestamp.exists_time?_chars m whole
    have read : Timestamp.read? (m.chars ' ') = some ⟨m.date.year, m.date.month, m.date.day,
        some ⟨m.hour, m.minute, m.second, fraction, m.offset.map (· / 60000000)⟩⟩ := by
      rw [Moment.chars, List.append_assoc, Timestamp.read?_date, if_neg (by simp), List.cons_append,
        Timestamp.afterGap?_timeChars]
      simp only [Option.bind_eq_bind, Option.bind_some, time]
      rfl
    have offset : (m.offset.map (· / 60000000)).map (· * 60000000) = m.offset := by
      cases ho : m.offset with
      | none => rfl
      | some o => exact congrArg some (Int.ediv_mul_cancel (whole o ho))
    show Scalar.timestamp id m.spacedText = _
    rw [Scalar.timestamp, Moment.spacedText, String.toList_ofList,
      dropLastBreak_eq (isShort_moment m), read]
    simp only [Timestamp.moment, Timestamp.date, Date.ofParts_parts, offset, micro,
      Moment.ofParts_parts]
    rfl
  · rw [Moment.spacedText, String.toList_ofList] at hc
    exact (isShort_moment m c hc).2

end EntityGraph.Yaml
