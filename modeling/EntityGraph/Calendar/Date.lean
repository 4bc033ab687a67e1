import EntityGraph.Text.Digits

/-!
# Dates

Days of the Gregorian calendar, years one to 9999. A date carries the proof that its parts name a
day, so every function on dates may rely on it. Days are also counted from the first of January of
year one, which gives weekdays and the weeks of a year.
-/

namespace EntityGraph.Calendar

open EntityGraph.Text

/-- The last year of the calendar. -/
def maxYear : Nat := 9999

/-- Whether a year has a twenty-ninth of February. -/
def isLeap (year : Nat) : Bool :=
  year % 4 = 0 && (year % 100 ≠ 0 || year % 400 = 0)

/-- The number of days of a month. -/
def daysInMonth (year month : Nat) : Nat :=
  if month = 2 then if isLeap year then 29 else 28
  else if month = 4 ∨ month = 6 ∨ month = 9 ∨ month = 11 then 30
  else 31

/-- Whether three numbers name a day of the calendar. -/
def IsDay (year month day : Nat) : Prop :=
  1 ≤ year ∧ year ≤ maxYear ∧ 1 ≤ month ∧ month ≤ 12 ∧ 1 ≤ day ∧ day ≤ daysInMonth year month

instance (y m d : Nat) : Decidable (IsDay y m d) := by unfold IsDay; infer_instance

/-- A day of the calendar. -/
structure Date where
  year : Nat
  month : Nat
  day : Nat
  isDay : IsDay year month day
  deriving DecidableEq

/-- Why numbers or a text name no day or no time. -/
inductive Error
  | yearOutOfRange (year : Nat)
  | monthOutOfRange
  | dayOutOfRange
  | hourOutOfRange
  | minuteOutOfRange
  | secondOutOfRange
  /-- The offset, in microseconds, is a day or more. -/
  | offsetOutOfRange (offset : Int)
  /-- The text has not the form of a date or a time. -/
  | malformed
  deriving DecidableEq, Repr

namespace Date

/-- The day that three numbers name. The year is checked first, then the month, then the day. -/
def ofParts (year month day : Nat) : Except Error Date :=
  if h : IsDay year month day then .ok ⟨year, month, day, h⟩
  else if year < 1 ∨ maxYear < year then .error (.yearOutOfRange year)
  else if month < 1 ∨ 12 < month then .error .monthOutOfRange
  else .error .dayOutOfRange

/-- The days of the year before the first of a month. -/
def daysBeforeMonth (year month : Nat) : Nat :=
  (List.range (month - 1)).foldl (fun days m ↦ days + daysInMonth year (m + 1)) 0

/-- The days before the first of January of a year. -/
def daysBeforeYear (year : Nat) : Nat :=
  let y := year - 1
  y * 365 + y / 4 - y / 100 + y / 400

/-- The number of a day, the first of January of year one being day one. -/
def ordinal (d : Date) : Nat :=
  daysBeforeYear d.year + daysBeforeMonth d.year d.month + d.day

/-- The month and the day of the month of a day of a year, counted from zero. -/
def monthDay (year : Nat) (dayOfYear : Nat) : Nat × Nat :=
  let month := ((List.range 12).filter fun m ↦ daysBeforeMonth year (m + 1) ≤ dayOfYear).length
  (month, dayOfYear - daysBeforeMonth year month + 1)

/-- The year and the day of that year, counted from zero, of a numbered day. -/
def yearOfOrdinal (ordinal : Nat) : Nat × Nat :=
  let n := ordinal - 1
  let guess := n / 366 + 1
  let year := guess + ((List.range 30).filter fun k ↦ daysBeforeYear (guess + k + 1) ≤ n).length
  (year, n - daysBeforeYear year)

/-- The day with a number; an error beyond the last year. -/
def ofOrdinal (ordinal : Nat) : Except Error Date :=
  let (year, dayOfYear) := yearOfOrdinal ordinal
  let (month, day) := monthDay year dayOfYear
  ofParts year month day

/-- The weekday of a numbered day, Monday being zero. -/
def weekdayOfOrdinal (ordinal : Nat) : Nat := (ordinal + 6) % 7

/-- The number of the Monday of the first week of a year: the week that holds its first
Thursday. It may lie in the year before, and is given with seven days added. -/
def firstMondayPlusSeven (year : Nat) : Nat :=
  let first := daysBeforeYear year + 1
  let weekday := weekdayOfOrdinal first
  if weekday > 3 then first - weekday + 14 else first + 7 - weekday

/-- Whether a year has a fifty-third week. -/
def hasLongYear (year : Nat) : Bool :=
  let weekday := weekdayOfOrdinal (daysBeforeYear year + 1)
  weekday = 3 || (weekday = 2 && isLeap year)

/-- The day of a week of a year. A week or weekday that the year does not have is malformed; the
weeks of year zero belong to no month. -/
def ofWeek (year week weekday : Nat) : Except Error Date :=
  if ¬ (1 ≤ weekday ∧ weekday ≤ 7) then .error .malformed
  else if year = 0 then
    if 1 ≤ week ∧ week ≤ 52 then .error .monthOutOfRange else .error .malformed
  else if ¬ (1 ≤ week ∧ (week ≤ 52 ∨ (week = 53 ∧ hasLongYear year))) then .error .malformed
  else ofOrdinal (firstMondayPlusSeven year + 7 * week + weekday - 15)

/-- The characters of a date: year, month and day, filled up with zeros, with hyphens between. -/
def chars (d : Date) : List Char :=
  padded 4 d.year ++ '-' :: padded 2 d.month ++ '-' :: padded 2 d.day

/-- The text of a date. -/
def text (d : Date) : String := String.ofList d.chars

private theorem ofParts_of_isDay {y m d : Nat} (h : IsDay y m d) :
    ofParts y m d = .ok ⟨y, m, d, h⟩ := by
  simp [ofParts, h]

/-- The parts of a date give the date back. -/
@[simp] theorem ofParts_parts (d : Date) : ofParts d.year d.month d.day = .ok d :=
  ofParts_of_isDay d.isDay

end Date

end EntityGraph.Calendar
