import EntityGraph.Calendar.Iso

/-!
# Timestamps of YAML texts

A date, or a date and a time with perhaps an offset. Months, days and hours may have one digit; a
`T` or blanks stand between the date and the time.
-/

namespace EntityGraph.Yaml

open EntityGraph.Calendar EntityGraph.Text

/-- The time of a timestamp. -/
structure TimePart where
  hour : Nat
  minute : Nat
  second : Nat
  fraction : List Char
  /-- The offset in minutes. -/
  offset : Option Int
  deriving DecidableEq, Repr

/-- A timestamp by its parts, which need not be a day and a time. -/
structure Timestamp where
  year : Nat
  month : Nat
  day : Nat
  time : Option TimePart
  deriving DecidableEq, Repr

namespace Timestamp

/-- A number of at least so many and at most so many digits, and what follows it. -/
def digits? (least most : Nat) (cs : List Char) : Option (Nat × List Char) :=
  let ds := (cs.take most).takeWhile isDigit
  if least ≤ ds.length then (nat? ds).map fun n ↦ (n, cs.drop ds.length) else none

/-- What follows a character. -/
def after? (c : Char) : List Char → Option (List Char)
  | x :: cs => if x = c then some cs else none
  | [] => none

/-- Whether a character may stand between the parts of a timestamp. -/
def isGap (c : Char) : Bool := c = ' ' || c = '\t'

/-- The offset at the end of a timestamp, if there is one. -/
def offset? (cs : List Char) : Option (Option Int) :=
  if cs.isEmpty then some none
  else
    match cs.dropWhile isGap with
    | ['Z'] => some (some 0)
    | sign :: cs =>
      if sign = '+' || sign = '-' then do
        let (hours, cs) ← digits? 1 2 cs
        let minutes ← match cs with
          | [] => some 0
          | ':' :: cs => do
            let (minutes, cs) ← digits? 2 2 cs
            if cs.isEmpty then some minutes else none
          | _ => none
        let total : Int := hours * 60 + minutes
        some (some (if sign = '-' then -total else total))
      else none
    | [] => none

/-- What follows the gap between the date and the time. -/
def afterGap? : List Char → Option (List Char)
  | [] => none
  | c :: cs =>
    if c = 'T' || c = 't' then some cs else if isGap c then some (cs.dropWhile isGap) else none

/-- The time of a timestamp. -/
def time? (cs : List Char) : Option TimePart := do
  let (hour, cs) ← digits? 1 2 cs
  let (minute, cs) ← digits? 2 2 (← after? ':' cs)
  let (second, cs) ← digits? 2 2 (← after? ':' cs)
  let (fraction, cs) := match cs with
    | '.' :: cs => (cs.takeWhile isDigit, cs.dropWhile isDigit)
    | cs => ([], cs)
  let offset ← offset? cs
  return ⟨hour, minute, second, fraction, offset⟩

/-- The timestamp that a text spells. -/
def read? (cs : List Char) : Option Timestamp := do
  let (year, cs) ← digits? 4 4 cs
  let (month, cs) ← digits? 1 2 (← after? '-' cs)
  let (day, cs) ← digits? 1 2 (← after? '-' cs)
  if cs.isEmpty then return ⟨year, month, day, none⟩
  let time ← time? (← afterGap? cs)
  return ⟨year, month, day, some time⟩

/-- The number of characters of a date without a time, where it stands without a tag. -/
def dateLength : Nat := 10

/-- Whether a text is taken for a timestamp although it has no tag: a date alone needs two digits
for the month and the day. -/
def isPlain (cs : List Char) : Bool :=
  match read? cs with
  | some t => t.time.isSome || cs.length = dateLength
  | none => false

/-- The date of a timestamp. -/
def date (t : Timestamp) : Except Calendar.Error Date := Date.ofParts t.year t.month t.day

/-- The microseconds that the digits of a fraction stand for; digits behind the sixth are cut. -/
def microseconds (fraction : List Char) : Nat :=
  let ds := fraction.take 6
  (nat? (ds ++ List.replicate (6 - ds.length) '0')).getD 0

/-- The moment of a timestamp. -/
def moment (t : Timestamp) (p : TimePart) : Except Calendar.Error Moment :=
  Moment.ofParts t.date p.hour p.minute p.second (microseconds p.fraction)
    (p.offset.map (· * 60000000))

example : (read? "2001-12-14t21:59:43.1 -5".toList).isSome = true := by decide +kernel

end Timestamp

end EntityGraph.Yaml
