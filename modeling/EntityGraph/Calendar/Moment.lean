import EntityGraph.Calendar.Date

/-!
# Moments

A date with a time of day and, when it is known, the offset of the local time from universal
time. Moments are written in the extended ISO 8601 form. Two moments with offsets are the same if
they name the same instant.
-/

namespace EntityGraph.Calendar

open EntityGraph.Text

/-- The microseconds of a day, which every offset stays below. -/
def dayMicroseconds : Nat := 86400000000

/-- Whether four numbers name a time of day. -/
def IsTime (hour minute second microsecond : Nat) : Prop :=
  hour < 24 ∧ minute < 60 ∧ second < 60 ∧ microsecond < 1000000

instance (h m s u : Nat) : Decidable (IsTime h m s u) := by unfold IsTime; infer_instance

/-- Whether an offset in microseconds is shorter than a day. -/
def IsOffset (offset : Option Int) : Prop :=
  match offset with
  | none => True
  | some o => o.natAbs < dayMicroseconds

instance (o : Option Int) : Decidable (IsOffset o) := by
  unfold IsOffset; cases o <;> infer_instance

/-- A date with a time of day and perhaps the offset from universal time, in microseconds. -/
structure Moment where
  date : Date
  hour : Nat
  minute : Nat
  second : Nat
  microsecond : Nat
  offset : Option Int
  isTime : IsTime hour minute second microsecond
  isOffset : IsOffset offset
  deriving DecidableEq

namespace Moment

/-- The moment with the given parts. The offset is checked before the date, and the date before
the time. -/
def ofParts (date : Except Error Date) (hour minute second microsecond : Nat)
    (offset : Option Int) : Except Error Moment :=
  if o : IsOffset offset then
    match date with
    | .error e => .error e
    | .ok date =>
      if t : IsTime hour minute second microsecond then
        .ok ⟨date, hour, minute, second, microsecond, offset, t, o⟩
      else if 24 ≤ hour then .error .hourOutOfRange
      else if 60 ≤ minute then .error .minuteOutOfRange
      else .error .secondOutOfRange
  else .error (.offsetOutOfRange (offset.getD 0))

/-- The microseconds since the start of year one, in local time. -/
def localMicroseconds (m : Moment) : Nat :=
  (((m.date.ordinal * 24 + m.hour) * 60 + m.minute) * 60 + m.second) * 1000000 + m.microsecond

/-- Whether two moments are the same: the same instant if both have an offset, the same local
time if neither has one. -/
def same (a b : Moment) : Bool :=
  match a.offset, b.offset with
  | some o, some p => (a.localMicroseconds : Int) - o = b.localMicroseconds - p
  | none, none => a.localMicroseconds = b.localMicroseconds
  | _, _ => false

/-- A time of day; seconds always, microseconds only if there are any. -/
def timeChars (hour minute second microsecond : Nat) : List Char :=
  padded 2 hour ++ ':' :: padded 2 minute ++ ':' :: padded 2 second ++
    if microsecond = 0 then [] else '.' :: padded 6 microsecond

/-- An offset with its sign; seconds and microseconds only if there are any. -/
def offsetChars (offset : Int) : List Char :=
  let n := offset.natAbs
  let seconds := n / 1000000
  let microseconds := n % 1000000
  (if offset < 0 then '-' else '+') :: padded 2 (seconds / 3600) ++ ':' ::
    padded 2 (seconds / 60 % 60) ++
    if seconds % 60 = 0 ∧ microseconds = 0 then []
    else ':' :: padded 2 (seconds % 60) ++
      if microseconds = 0 then [] else '.' :: padded 6 microseconds

/-- The characters of a moment, with a character of choice between date and time. -/
def chars (separator : Char) (m : Moment) : List Char :=
  m.date.chars ++ separator :: timeChars m.hour m.minute m.second m.microsecond ++
    (m.offset.map offsetChars).getD []

/-- The text of a moment, with the letter `T` between date and time. -/
def text (m : Moment) : String := String.ofList (m.chars 'T')

/-- The text of a moment, with a space between date and time. -/
def spacedText (m : Moment) : String := String.ofList (m.chars ' ')

/-- The parts of a moment give the moment back. -/
@[simp] theorem ofParts_parts (m : Moment) :
    ofParts (.ok m.date) m.hour m.minute m.second m.microsecond m.offset = .ok m := by
  simp [ofParts, m.isTime, m.isOffset]

/-- Every moment is the same as itself. -/
@[simp] theorem same_self (m : Moment) : m.same m = true := by
  unfold same
  cases m.offset <;> simp

end Moment

end EntityGraph.Calendar
