import Mathlib.Algebra.GroupWithZero.Nat
import EntityGraph.Proofs.Success
import EntityGraph.Schema.Default

/-!
# Texts that name a day

A text may name a day by its month or by its week, with hyphens or without. The default of a type of
dates is read as that day exactly if the text has ten characters: one of seven or eight characters
is read as the midnight at which the day begins.
-/

namespace EntityGraph

open Calendar Text

namespace Calendar

/-- The midnight at which a day begins. -/
def Moment.midnight (d : Date) : Moment := ⟨d, 0, 0, 0, 0, none, by decide, trivial⟩

namespace Iso

/-! ### Forms -/

/-- A run of so many digits. -/
def IsRun (n : Nat) (cs : List Char) : Prop := cs.length = n ∧ ∀ c ∈ cs, isDigit c = true

/-- A run of digits begins with a digit, and what follows is a run that is shorter by one. -/
theorem isRun_succ_iff {n : Nat} {cs : List Char} :
    IsRun (n + 1) cs ↔ ∃ c rest, cs = c :: rest ∧ isDigit c = true ∧ IsRun n rest := by
  constructor
  · rintro ⟨length, digits⟩
    obtain ⟨c, rest, rfl⟩ := List.exists_cons_of_length_eq_add_one length
    obtain ⟨hc, hrest⟩ := List.forall_mem_cons.mp digits
    exact ⟨c, rest, rfl, hc, Nat.succ.inj length, hrest⟩
  · rintro ⟨c, rest, rfl, hc, length, hrest⟩
    exact ⟨congrArg Nat.succ length, List.forall_mem_cons.mpr ⟨hc, hrest⟩⟩

private theorem isRun_zero_iff {cs : List Char} : IsRun 0 cs ↔ cs = [] := by
  constructor
  · exact fun h ↦ List.length_eq_zero_iff.mp h.1
  · rintro rfl
    exact ⟨rfl, List.forall_mem_nil _⟩

private theorem isDigit_of_mapM {cs : List Char} {ds : List Nat} (h : cs.mapM digit? = some ds) :
    ∀ c ∈ cs, isDigit c = true := by
  induction cs generalizing ds with
  | nil => exact List.forall_mem_nil _
  | cons c cs ih =>
    rw [List.mapM_cons] at h
    obtain ⟨d, hd, h⟩ := Option.bind_eq_some_iff.mp h
    obtain ⟨es, hes, -⟩ := Option.bind_eq_some_iff.mp h
    have digit : isDigit c = true := by
      by_contra other
      rw [digit?, if_neg other] at hd
      cases hd
    exact List.forall_mem_cons.mpr ⟨digit, ih hes⟩

/-- What is read as digits is a run of them, and what follows it is left. -/
theorem exists_isRun_of_digits {n v : Nat} {cs rest : List Char}
    (h : digits n cs = .ok (v, rest)) : ∃ run, IsRun n run ∧ cs = run ++ rest := by
  simp only [digits] at h
  split at h
  · next length =>
    split at h
    · next ds values =>
      obtain ⟨-, rfl⟩ := Prod.mk.inj (Except.ok.inj h)
      exact ⟨cs.take n, ⟨length, isDigit_of_mapM values⟩, (List.take_append_drop n cs).symm⟩
    · cases h
  · cases h

/-- A text behind a hyphen, where one is due, is what is left. -/
theorem eq_of_hyphen {due : Bool} {cs rest : List Char} (h : hyphen due cs = .ok rest) :
    cs = (if due then ['-'] else []) ++ rest := by
  unfold hyphen at h
  split at h
  · cases due <;> obtain rfl := Except.ok.inj h <;> rfl
  · cases due
    · obtain rfl := Except.ok.inj h
      rfl
    · cases h

/-- The forms in which a complete date stands at the head of a text, and what follows it: nothing
where the date ends with a week. -/
inductive Heads : List Char → List Char → Prop
  | calendar {ys ms ds rest : List Char} (year : IsRun 4 ys) (month : IsRun 2 ms)
    (day : IsRun 2 ds) : Heads (ys ++ (ms ++ ds)) rest
  | hyphenatedCalendar {ys ms ds rest : List Char} (year : IsRun 4 ys) (month : IsRun 2 ms)
    (day : IsRun 2 ds) : Heads (ys ++ '-' :: (ms ++ '-' :: ds)) rest
  | week {ys ws : List Char} (year : IsRun 4 ys) (week : IsRun 2 ws) : Heads (ys ++ 'W' :: ws) []
  | hyphenatedWeek {ys ws : List Char} (year : IsRun 4 ys) (week : IsRun 2 ws) :
    Heads (ys ++ '-' :: 'W' :: ws) []
  | weekday {ys ws ds rest : List Char} (year : IsRun 4 ys) (week : IsRun 2 ws) (day : IsRun 1 ds) :
    Heads (ys ++ 'W' :: (ws ++ ds)) rest
  | hyphenatedWeekday {ys ws ds rest : List Char} (year : IsRun 4 ys) (week : IsRun 2 ws)
    (day : IsRun 1 ds) : Heads (ys ++ '-' :: 'W' :: (ws ++ '-' :: ds)) rest

private theorem exists_isRun_of_weekday {hyphenated : Bool} {cs : List Char} {n : Nat}
    (h : weekday hyphenated cs = .ok n) : cs = [] ∨
      ∃ ds rest, IsRun 1 ds ∧ cs = (if hyphenated then ['-'] else []) ++ (ds ++ rest) := by
  rw [weekday] at h
  split at h
  · next empty => exact .inl (List.isEmpty_iff.mp empty)
  · obtain ⟨rest, behind, h⟩ := (Success.bind_eq_ok _ _ _).mp h
    obtain ⟨⟨day, more⟩, hday, -⟩ := (Success.bind_eq_ok _ _ _).mp h
    obtain ⟨ds, isDay, rfl⟩ := exists_isRun_of_digits hday
    exact .inr ⟨ds, more, isDay, eq_of_hyphen behind⟩

/-- What is read as a day begins with a complete date. -/
private theorem exists_heads_of_date {cs : List Char} {d : Date} (h : date cs = .ok d) :
    ∃ front rest, cs = front ++ rest ∧ Heads front rest := by
  rw [date] at h
  split at h
  · cases h
  obtain ⟨⟨year, cs₁⟩, hyear, parts⟩ := (Success.bind_eq_ok _ _ _).mp h
  obtain ⟨ys, isYear, split⟩ := exists_isRun_of_digits hyear
  dsimp only at parts
  generalize hyphenated : decide (cs₁.head? = some '-') = due at parts
  generalize hcs₂ : (if cs₁.head? = some '-' then cs₁.drop 1 else cs₁) = cs₂ at parts
  have behindYear : cs₁ = (if due then ['-'] else []) ++ cs₂ := by
    cases due with
    | true =>
      have first := of_decide_eq_true hyphenated
      rw [if_pos first] at hcs₂
      rw [← hcs₂, if_pos rfl, List.singleton_append]
      exact (List.eq_cons_of_mem_head? first).trans (by rw [List.drop_one])
    | false =>
      rw [if_neg (of_decide_eq_false hyphenated)] at hcs₂
      exact hcs₂
  rw [split, behindYear]
  split at parts
  · next cs₃ _ =>
    obtain ⟨⟨week, cs₄⟩, hweek, last⟩ := (Success.bind_eq_ok _ _ _).mp parts
    obtain ⟨day, hday, -⟩ := (Success.bind_eq_ok _ _ _).mp last
    obtain ⟨ws, isWeek, rfl⟩ := exists_isRun_of_digits hweek
    rcases exists_isRun_of_weekday hday with rfl | ⟨ds, rest, isDay, rfl⟩
    · cases due
      · exact ⟨_, _, by simp, .week isYear isWeek⟩
      · exact ⟨_, _, by simp, .hyphenatedWeek isYear isWeek⟩
    · cases due
      · exact ⟨_, rest, by simp, .weekday isYear isWeek isDay⟩
      · exact ⟨_, rest, by simp, .hyphenatedWeekday isYear isWeek isDay⟩
  · obtain ⟨⟨month, cs₄⟩, hmonth, middle⟩ := (Success.bind_eq_ok _ _ _).mp parts
    obtain ⟨cs₅, behind, last⟩ := (Success.bind_eq_ok _ _ _).mp middle
    obtain ⟨⟨day, rest⟩, hday, -⟩ := (Success.bind_eq_ok _ _ _).mp last
    obtain ⟨ms, isMonth, rfl⟩ := exists_isRun_of_digits hmonth
    obtain ⟨ds, isDay, rfl⟩ := exists_isRun_of_digits hday
    obtain rfl := eq_of_hyphen behind
    cases due
    · exact ⟨_, rest, by simp, .calendar isYear isMonth isDay⟩
    · exact ⟨_, rest, by simp, .hyphenatedCalendar isYear isMonth isDay⟩

/-! ### Where a date ends -/

private theorem IsRun.ne_nul {n : Nat} {cs : List Char} (h : IsRun n cs) :
    ∀ c ∈ cs, c ≠ '\x00' := by
  rintro c hc rfl
  exact absurd (h.2 _ hc) (by decide)

/-- No character of a complete date is a NUL. -/
private theorem Heads.ne_nul {front rest : List Char} (h : Heads front rest) :
    ∀ c ∈ front, c ≠ '\x00' := by
  have hyphen : '-' ≠ '\x00' := by decide
  have letter : 'W' ≠ '\x00' := by decide
  cases h with
  | calendar year month day =>
    simp only [List.forall_mem_append]
    exact ⟨year.ne_nul, month.ne_nul, day.ne_nul⟩
  | hyphenatedCalendar year month day =>
    simp only [List.forall_mem_append, List.forall_mem_cons]
    exact ⟨year.ne_nul, hyphen, month.ne_nul, hyphen, day.ne_nul⟩
  | week year week =>
    simp only [List.forall_mem_append, List.forall_mem_cons]
    exact ⟨year.ne_nul, letter, week.ne_nul⟩
  | hyphenatedWeek year week =>
    simp only [List.forall_mem_append, List.forall_mem_cons]
    exact ⟨year.ne_nul, hyphen, letter, week.ne_nul⟩
  | weekday year week day =>
    simp only [List.forall_mem_append, List.forall_mem_cons]
    exact ⟨year.ne_nul, letter, week.ne_nul, day.ne_nul⟩
  | hyphenatedWeekday year week day =>
    simp only [List.forall_mem_append, List.forall_mem_cons]
    exact ⟨year.ne_nul, hyphen, letter, week.ne_nul, hyphen, day.ne_nul⟩

/-- A run of one digit is a digit. -/
theorem IsRun.exists_one {cs : List Char} (h : IsRun 1 cs) : ∃ a, isDigit a = true ∧ cs = [a] := by
  obtain ⟨a, rest, rfl, digit, last⟩ := isRun_succ_iff.mp h
  exact ⟨a, digit, by rw [isRun_zero_iff.mp last]⟩

/-- A run of two digits is a digit and another one. -/
theorem IsRun.exists_two {cs : List Char} (h : IsRun 2 cs) :
    ∃ a b, isDigit a = true ∧ cs = [a, b] := by
  obtain ⟨a, rest, rfl, digit, more⟩ := isRun_succ_iff.mp h
  obtain ⟨b, -, rfl⟩ := more.exists_one
  exact ⟨a, b, digit, rfl⟩

private theorem IsRun.exists_four {cs : List Char} (h : IsRun 4 cs) : ∃ a b c d, cs =
    [a, b, c, d] := by
  obtain ⟨a, rest, rfl, -, more⟩ := isRun_succ_iff.mp h
  obtain ⟨b, rest, rfl, -, more⟩ := isRun_succ_iff.mp more
  obtain ⟨c, d, -, rfl⟩ := more.exists_two
  exact ⟨a, b, c, d, rfl⟩

/-- A date of at most eight characters ends where it ends, if no more than one character follows. -/
theorem Heads.dateLength_eq {front rest : List Char} (h : Heads front rest)
    (short : front.length ≤ 8) (few : rest.length ≤ 1) :
    dateLength (front ++ rest) = .ok front.length := by
  cases h with
  | calendar year month day =>
    obtain ⟨a, b, c, d, rfl⟩ := year.exists_four
    obtain ⟨e, f, digit, rfl⟩ := month.exists_two
    obtain ⟨g, i, -, rfl⟩ := day.exists_two
    have apart : e ≠ '-' ∧ e ≠ 'W' := by
      constructor <;> rintro rfl <;> exact absurd digit (by decide)
    simp [dateLength, apart]
  | hyphenatedCalendar year month day =>
    simp [year.1, month.1, day.1] at short
  | week year week =>
    simp [dateLength, year.1, week.1]
  | hyphenatedWeek year week =>
    obtain ⟨a, b, c, d, rfl⟩ := year.exists_four
    obtain ⟨e, f, -, rfl⟩ := week.exists_two
    rfl
  | weekday year week day =>
    obtain ⟨a, b, c, d, rfl⟩ := year.exists_four
    obtain ⟨e, f, -, rfl⟩ := week.exists_two
    obtain ⟨g, digit, rfl⟩ := day.exists_one
    match rest, few with
    | [], _ => simp [dateLength, digit]
    | [x], _ => cases hx : isDigit x <;> simp [dateLength, digit, hx]
  | hyphenatedWeekday year week day =>
    simp [year.1, week.1, day.1] at short

private theorem Heads.length_eq {front rest : List Char} (h : Heads front rest) :
    front.length = 7 ∧ rest = [] ∨ front.length = 8 ∨ front.length = 10 := by
  cases h with
  | calendar year month day | hyphenatedCalendar year month day =>
    simp [year.1, month.1, day.1]
  | week year week | hyphenatedWeek year week => simp [year.1, week.1]
  | weekday year week day | hyphenatedWeekday year week day => simp [year.1, week.1, day.1]

private theorem Heads.of_ne_nil {front rest : List Char} (h : Heads front rest) (some : rest ≠ [])
    (other : List Char) : Heads front other := by
  cases h with
  | calendar year month day => exact .calendar year month day
  | hyphenatedCalendar year month day => exact .hyphenatedCalendar year month day
  | week | hyphenatedWeek => exact absurd rfl some
  | weekday year week day => exact .weekday year week day
  | hyphenatedWeekday year week day => exact .hyphenatedWeekday year week day

private theorem moment_of_heads {front : List Char} {d : Date} (h : Heads front [])
    (short : front.length ≤ 8) (hd : date front = .ok d) :
    moment front = .ok (.midnight d) := by
  have ends := h.dateLength_eq short (Nat.zero_le 1)
  rw [List.append_nil] at ends
  rw [moment, ends]
  simp only [bind, Except.bind, List.take_length, List.drop_length, hd]
  rfl

private theorem moment_concat_of_heads {front : List Char} {c : Char} (h : Heads front [c])
    (short : front.length ≤ 8) : moment (front ++ [c]) = .error .malformed := by
  have ends := h.dateLength_eq short (Nat.le_refl 1)
  rw [moment, ends]
  simp only [bind, Except.bind, List.take_left, List.drop_left]
  split <;> rfl

/-! ### Texts of one day -/

/-- A character as a part of a date. Outside of ASCII it is none, as a NUL is none. -/
def datePart (c : Char) : Char := if c.toNat < 0x80 then c else '\x00'

/-- The day that a whole text names: one of seven, eight or ten bytes. What follows a complete date
within these bytes is not looked at. -/
def wholeDate (cs : List Char) : Except Error Date :=
  let size := (cs.map Char.utf8Size).sum
  if size = 7 ∨ size = 8 ∨ size = 10 then date (cs.map datePart) else .error .malformed

private theorem map_datePart_eq {cs : List Char} (ascii : ∀ c ∈ cs, c.toNat < 0x80) :
    cs.map datePart = cs := by
  have kept : ∀ c ∈ cs, datePart c = id c := fun c hc ↦ if_pos (ascii c hc)
  rw [List.map_congr_left kept, List.map_id]

private theorem ascii_of_map_datePart {cs : List Char} (h : ∀ c ∈ cs.map datePart, c ≠ '\x00') :
    ∀ c ∈ cs, c.toNat < 0x80 := by
  intro c hc
  by_contra large
  exact h _ (List.mem_map_of_mem hc) (if_neg large)

/-- Characters have at least as many bytes as there are of them. -/
theorem length_le_size (cs : List Char) : cs.length ≤ (cs.map Char.utf8Size).sum := by
  induction cs with
  | nil => exact Nat.le_refl 0
  | cons c cs ih =>
    have positive := c.utf8Size_pos
    rw [List.length_cons, List.map_cons, List.sum_cons]
    omega

private theorem ascii_of_size_le {cs : List Char} (h : (cs.map Char.utf8Size).sum ≤ cs.length) :
    ∀ c ∈ cs, c.toNat < 0x80 := by
  induction cs with
  | nil => exact List.forall_mem_nil _
  | cons c cs ih =>
    have positive := c.utf8Size_pos
    have rest := length_le_size cs
    rw [List.length_cons, List.map_cons, List.sum_cons] at h
    have one : c.utf8Size = 1 := by omega
    have low : c.toNat ≤ 127 := Char.utf8Size_eq_one_iff.mp one
    exact List.forall_mem_cons.mpr ⟨by omega, ih (by omega)⟩

/-- A text that names a day is read as that day if it has ten characters, and as the midnight at
which the day begins if it has seven or eight. If it has nine it is read as no moment. It has at
least seven characters and at most ten. -/
private theorem cases_of_wholeDate {cs : List Char} {d : Date} (h : wholeDate cs = .ok d) :
    cs.length = 10 ∧ date cs = .ok d ∨
      (cs.length = 7 ∨ cs.length = 8) ∧ moment cs = .ok (.midnight d) ∨
      cs.length = 9 ∧ moment cs = .error .malformed := by
  simp only [wholeDate] at h
  split at h
  swap
  · cases h
  next size =>
  have few := length_le_size cs
  obtain ⟨front, rest, split, heads⟩ := exists_heads_of_date h
  have length : cs.length = front.length + rest.length := by
    rw [← List.length_map datePart, split, List.length_append]
  have sizes := heads.length_eq
  by_cases ten : cs.length = 10
  · rw [map_datePart_eq (ascii_of_size_le (by omega))] at h
    exact .inl ⟨ten, h⟩
  have short : front.length ≤ 8 := by omega
  -- What the date is made of is in ASCII, so only a character behind it may be another one.
  obtain ⟨before, behind, rfl, hfront, hrest⟩ := List.map_eq_append_iff.mp split
  have ascii : ∀ c ∈ before, c.toNat < 0x80 :=
    ascii_of_map_datePart (hfront ▸ heads.ne_nul)
  rw [map_datePart_eq ascii] at hfront
  subst hfront
  rw [List.map_append, map_datePart_eq ascii] at h
  match behind, hrest with
  | [], hrest =>
    obtain rfl : rest = [] := hrest.symm
    rw [List.map_nil, List.append_nil] at h
    rw [List.append_nil]
    exact .inr (.inl ⟨by omega, moment_of_heads heads short h⟩)
  | [c], hrest =>
    obtain rfl : rest = [datePart c] := hrest.symm
    have heads' := heads.of_ne_nil (List.cons_ne_nil _ _) [c]
    have eight : before.length = 8 := by
      rcases sizes with ⟨-, none⟩ | eight | long
      · cases none
      · exact eight
      · omega
    exact .inr (.inr ⟨by simp [eight], moment_concat_of_heads heads' short⟩)
  | b :: c :: more, hrest =>
    obtain rfl : rest = datePart b :: datePart c :: more.map datePart := hrest.symm
    rw [List.length_cons, List.length_cons] at length
    rcases sizes with ⟨-, none⟩ | eight | long
    · cases none
    · omega
    · omega

end Iso

end Calendar

namespace ScalarType

private theorem decode_of_date {s : String} {d : Date} (ten : s.length = 10)
    (h : Iso.date s.toList = .ok d) :
    date.decode (.text s) = .ok (.atom .fresh (.date d)) := by
  simp only [decode, Value.text, decodeText, String.length_toList, ten, dateLength, if_true, h]

/-- A text of any other length is decoded as the moment that it is read as. -/
theorem decode_of_moment {s : String} {m : Moment} (other : s.length ≠ 10)
    (h : Iso.moment s.toList = .ok m) :
    date.decode (.text s) = .ok (.atom .fresh (.moment m)) := by
  simp only [decode, Value.text, decodeText, String.length_toList, other, dateLength, if_false, h]

private theorem decode_eq_error {s : String} {e : Calendar.Error} (other : s.length ≠ 10)
    (h : Iso.moment s.toList = .error e) :
    date.decode (.text s) = .error (.refused (.undecodable s date (e.message s))) := by
  simp only [decode, Value.text, decodeText, String.length_toList, other, dateLength, if_false, h]
  rfl

/-- A text that names a day is decoded as that day exactly if it has ten characters. If it has seven
or eight, it is decoded as the midnight at which the day begins, and if it has nine it is refused.
It has no other length. -/
theorem decode_date_iff_of_wholeDate {s : String} {d : Date}
    (h : Iso.wholeDate s.toList = .ok d) :
    (date.decode (.text s) = .ok (.atom .fresh (.date d)) ↔ s.length = 10) ∧
      (s.length = 7 ∨ s.length = 8 →
        date.decode (.text s) = .ok (.atom .fresh (.moment (.midnight d)))) ∧
      (s.length = 9 → date.decode (.text s) =
        .error (.refused (.undecodable s date (Calendar.Error.malformed.message s)))) ∧
      7 ≤ s.length ∧ s.length ≤ 10 := by
  have lengths := Iso.cases_of_wholeDate h
  rw [String.length_toList] at lengths
  rcases lengths with ⟨ten, day⟩ | ⟨short, midnight⟩ | ⟨nine, malformed⟩
  · exact ⟨iff_of_true (decode_of_date ten day) ten, by omega, by omega, by omega, by omega⟩
  · have other : s.length ≠ 10 := by omega
    have read := decode_of_moment other midnight
    refine ⟨iff_of_false ?_ other, fun _ ↦ read, by omega, by omega, by omega⟩
    rw [read]
    nofun
  · have other : s.length ≠ 10 := by omega
    have refused := decode_eq_error other malformed
    refine ⟨iff_of_false ?_ other, by omega, fun _ ↦ refused, by omega, by omega⟩
    rw [refused]
    nofun

/-- The Wednesday of a week is decoded as the day that it is. -/
theorem decode_date_iff_of_wholeDate_wednesday :
    Iso.wholeDate "2024-W18-3".toList = .ok ⟨2024, 5, 1, by decide⟩ ∧
      date.decode (.text "2024-W18-3") = .ok (.atom .fresh (.date ⟨2024, 5, 1, by decide⟩)) := by
  have named : Iso.wholeDate "2024-W18-3".toList = .ok ⟨2024, 5, 1, by decide⟩ := by
    decide +kernel
  exact ⟨named, (decode_date_iff_of_wholeDate named).1.mpr rfl⟩

/-- Without hyphens, the same day is decoded as a moment, which is no day. -/
theorem exists_wholeDate_decode_ne : ∃ d : Date, Iso.wholeDate "20240501".toList = .ok d ∧
    date.decode (.text "20240501") = .ok (.atom .fresh (.moment (.midnight d))) ∧
    date.decode (.text "20240501") ≠ .ok (.atom .fresh (.date d)) := by
  have named : Iso.wholeDate "20240501".toList = .ok ⟨2024, 5, 1, by decide⟩ := by
    decide +kernel
  have midnight : Iso.moment "20240501".toList = .ok (.midnight ⟨2024, 5, 1, by decide⟩) := by
    decide +kernel
  have read := decode_of_moment (by decide) midnight
  refine ⟨_, named, read, ?_⟩
  rw [read]
  nofun

end ScalarType

end EntityGraph
