import EntityGraph.Calendar.Moment
import EntityGraph.Text.Quoted

/-!
# Reading ISO 8601 texts

Dates are read in the extended form `2024-01-02`, the basic form `20240102` and the week forms
`2024-W01-2` and `2024W012`. A moment is a date, any one character and a time, whose parts may be
written with or without colons, with a fraction of a second and with an offset. Where the date
ends is settled by the first characters of the text alone.
-/

namespace EntityGraph.Calendar

open EntityGraph.Text

namespace Iso

/-- A run of exactly `count` digits at the head of a text, and what follows it. -/
def digits (count : Nat) (cs : List Char) : Except Error (Nat × List Char) :=
  let run := cs.take count
  if run.length = count then
    match run.mapM digit? with
    | some ds => .ok (ofDigits 10 ds, cs.drop count)
    | none => .error .malformed
  else .error .malformed

/-- The text behind a hyphen, where one is due. -/
def hyphen (due : Bool) : List Char → Except Error (List Char)
  | '-' :: cs => .ok (if due then cs else '-' :: cs)
  | cs => if due then .error .malformed else .ok cs

/-- The weekday behind a week; Monday where the date ends with the week. -/
def weekday (hyphenated : Bool) (cs : List Char) : Except Error Nat :=
  if cs.isEmpty then .ok 1 else do
    let cs ← hyphen hyphenated cs
    let (day, _) ← digits 1 cs
    return day

/-- The day that a date text names. What follows a complete date is only looked at for characters
outside ASCII. -/
def date (cs : List Char) : Except Error Date := do
  if cs.any fun c ↦ 0x80 ≤ c.toNat then throw .malformed
  let (year, cs) ← digits 4 cs
  let hyphenated := cs.head? = some '-'
  let cs := if hyphenated then cs.drop 1 else cs
  match cs with
  | 'W' :: cs =>
    let (week, cs) ← digits 2 cs
    let day ← weekday hyphenated cs
    Date.ofWeek year week day
  | cs =>
    let (month, cs) ← digits 2 cs
    let cs ← hyphen hyphenated cs
    let (day, _) ← digits 2 cs
    Date.ofParts year month day

/-- The length of the date at the head of a moment text. -/
def dateLength (cs : List Char) : Except Error Nat :=
  let length := cs.length
  if length = 7 then .ok 7
  else if cs[4]? = some '-' then
    if cs[5]? = some 'W' then
      if 8 < length ∧ cs[8]? = some '-' then
        if length = 9 then .error .malformed
        else if 10 < length ∧ (cs[10]?.map isDigit).getD false then .ok 8
        else .ok 10
      else .ok 8
    else .ok 10
  else if cs[4]? = some 'W' then
    let run := 7 + ((cs.drop 7).takeWhile isDigit).length
    if run < 9 then .ok run else if run % 2 = 0 then .ok 7 else .ok 8
  else .ok 8

/-- The parts of a time of day. -/
structure Clock where
  hour : Nat
  minute : Nat
  second : Nat
  microsecond : Nat

/-- Whether a time text is over where this is ahead: at its end, and at a NUL. -/
def isOver : List Char → Bool
  | [] => true
  | c :: _ => c = '\x00'

/-- A fraction of a second in microseconds; digits after the sixth are passed over. -/
def fraction (cs : List Char) : Except Error (Nat × List Char) := do
  let count := min 6 cs.length
  let (n, rest) ← digits count cs
  return (n * Nat.pow 10 (6 - count), rest.dropWhile isDigit)

/-- What follows the two digits of one part of a clock text. -/
inductive AfterPart
  /-- The text is at its end, or one ASCII character from it; the flag tells whether one was left
  that is more than a NUL. -/
  | ended (leftover : Bool)
  /-- A fraction of a second follows. -/
  | fraction (rest : List Char)
  /-- The next part follows. -/
  | next (rest : List Char)

/-- Looks at what follows one part of a clock text. -/
def afterPart (separated : Bool) : List Char → Except Error AfterPart
  | [] => .ok (.ended false)
  | [c] => if c.toNat < 0x80 then .ok (.ended (!isOver [c])) else .error .malformed
  | c :: cs =>
    if separated && c = ':' then .ok (.next cs)
    else if c = '.' ∨ c = ',' then .ok (.fraction cs)
    else if !separated then .ok (.next (c :: cs))
    else .error .malformed

/-- The end of a clock text: the microseconds, and whether anything is left over. -/
def clockFraction (hour minute second : Nat) (cs : List Char) : Except Error (Clock × Bool) := do
  let (microsecond, rest) ← fraction cs
  return (⟨hour, minute, second, microsecond⟩, !isOver rest)

/-- Reads a clock text: hours, minutes, seconds and a fraction, as many of them as there are. The
flag tells whether a character was left over at the end. -/
def clock (cs : List Char) : Except Error (Clock × Bool) := do
  let (hour, cs) ← digits 2 cs
  let separated := cs.head? = some ':'
  match ← afterPart separated cs with
  | .ended leftover => return (⟨hour, 0, 0, 0⟩, leftover)
  | .fraction rest => clockFraction hour 0 0 rest
  | .next cs =>
    let (minute, cs) ← digits 2 cs
    match ← afterPart separated cs with
    | .ended leftover => return (⟨hour, minute, 0, 0⟩, leftover)
    | .fraction rest => clockFraction hour minute 0 rest
    | .next cs =>
      let (second, cs) ← digits 2 cs
      match ← afterPart separated cs with
      | .ended leftover => return (⟨hour, minute, second, 0⟩, leftover)
      | .fraction rest => clockFraction hour minute second rest
      | .next rest => clockFraction hour minute second rest

/-- Whether a character begins an offset. -/
def beginsOffset (c : Char) : Bool := c = '+' || c = '-' || c = 'Z'

/-- The microseconds of an offset. One without whole seconds is none at all. -/
def offsetOf (negative : Bool) (c : Clock) : Int :=
  let seconds := (c.hour * 60 + c.minute) * 60 + c.second
  let n : Int := if seconds = 0 then 0 else seconds * 1000000 + c.microsecond
  if negative then -n else n

/-- The time of day and the offset that a time text names. -/
def time (cs : List Char) : Except Error (Clock × Option Int) := do
  let body := cs.takeWhile (!beginsOffset ·)
  let (c, leftover) ← clock body
  match cs.dropWhile (!beginsOffset ·) with
  | [] => if leftover then .error .malformed else return (c, none)
  | 'Z' :: rest => if isOver rest then return (c, some 0) else .error .malformed
  | sign :: rest =>
    let (o, leftover) ← clock rest
    if leftover then .error .malformed else return (c, some (offsetOf (sign = '-') o))

/-- The moment that a text names; midnight if it is a date alone. -/
def moment (cs : List Char) : Except Error Moment := do
  let length ← dateLength cs
  match date (cs.take length) with
  | .error .malformed => .error .malformed
  | day =>
    match cs.drop length with
    | [] => Moment.ofParts day 0 0 0 0 none
    | _ :: rest =>
      let (c, offset) ← time rest
      Moment.ofParts day c.hour c.minute c.second c.microsecond offset

end Iso

/-- A length of time in microseconds, as messages show it: days, seconds and microseconds, the
last two never negative. -/
def durationText (microseconds : Int) : String :=
  let days := microseconds.fdiv dayMicroseconds
  let rest := microseconds.fmod dayMicroseconds
  let seconds := rest / 1000000
  let micros := rest % 1000000
  let part (name : String) (n : Int) : List String :=
    if n = 0 then [] else [name ++ "=" ++ String.ofList (decimalInt n)]
  let parts := part "days" days ++ part "seconds" seconds ++ part "microseconds" micros
  "datetime.timedelta(" ++ (if parts.isEmpty then "0" else ", ".intercalate parts) ++ ")"

/-- The message of an error, about the text that was read. -/
def Error.message (read : String) : Error → String
  | yearOutOfRange year => "year " ++ String.ofList (decimal year) ++ " is out of range"
  | monthOutOfRange => "month must be in 1..12"
  | dayOutOfRange => "day is out of range for month"
  | hourOutOfRange => "hour must be in 0..23"
  | minuteOutOfRange => "minute must be in 0..59"
  | secondOutOfRange => "second must be in 0..59"
  | offsetOutOfRange offset =>
    "offset must be a timedelta strictly between -timedelta(hours=24) and timedelta(hours=24), "
      ++ "not " ++ durationText offset ++ "."
  | malformed => "Invalid isoformat string: " ++ quoted read

/-- How a date is shown in a listing of values. -/
def Date.shown (d : Date) : String :=
  "datetime.date(" ++
    ", ".intercalate ([d.year, d.month, d.day].map (String.ofList <| decimal ·)) ++ ")"

/-- How an offset is shown in a listing of values. -/
def offsetShown (offset : Int) : String :=
  if offset = 0 then "datetime.timezone.utc"
  else "datetime.timezone(" ++ durationText offset ++ ")"

/-- How a moment is shown in a listing of values: seconds and microseconds only as far as they are
not zero. -/
def Moment.shown (m : Moment) : String :=
  let fine := if m.microsecond ≠ 0 then [m.second, m.microsecond]
    else if m.second ≠ 0 then [m.second] else []
  let parts := ([m.date.year, m.date.month, m.date.day, m.hour, m.minute] ++ fine).map
    (String.ofList <| decimal ·)
  let zone := (m.offset.map fun o ↦ "tzinfo=" ++ offsetShown o).toList
  "datetime.datetime(" ++ ", ".intercalate (parts ++ zone) ++ ")"

end EntityGraph.Calendar
