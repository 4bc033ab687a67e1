import EntityGraph.Number.Binary64
import EntityGraph.Text.Blank
import EntityGraph.Text.Digits

/-!
# Reading binary numbers

The binary number that a decimal text spells: a sign, digits with a point among them and perhaps a
power of ten, or a word for an infinity or for the number that is none, with blanks around it.
-/

namespace EntityGraph.Number

open EntityGraph.Text

namespace Binary64

/-- The sign at the head of a text, and what follows it. -/
def readSign : List Char → Bool × List Char
  | '-' :: cs => (true, cs)
  | '+' :: cs => (false, cs)
  | cs => (false, cs)

/-- The power of ten behind the digits of a text. -/
def readPower? : List Char → Option Int
  | [] => some 0
  | c :: cs =>
    if lowerAscii c = 'e' then
      let (negative, digits) := readSign cs
      (nat? digits).map fun n ↦ if negative then -(n : Int) else n
    else none

/-- The binary number that digits, a point and a power of ten spell. -/
def readDigits? (negative : Bool) (cs : List Char) : Option Binary64 :=
  let whole := cs.takeWhile isDigit
  let rest := cs.dropWhile isDigit
  let (part, rest) := match rest with
    | '.' :: cs => (cs.takeWhile isDigit, cs.dropWhile isDigit)
    | cs => ([], cs)
  match nat? (whole ++ part), readPower? rest with
  | some n, some power => some (ofScientific negative n (power - part.length))
  | _, _ => none

/-- The binary number that a text spells. -/
def read? (s : String) : Option Binary64 := do
  let cs ← foldNumeral? s.toList
  let (negative, cs) := readSign (trimAscii cs)
  let word := String.ofList (cs.map lowerAscii)
  if word = "inf" || word = "infinity" then some (infinite negative)
  else if word = "nan" then some nan
  else readDigits? negative cs

example : read? " -1.5e1 " = some (nearest true 15 1) := by decide +kernel
example : read? "1." = read? "1" ∧ read? ".5" = some (nearest false 1 2) := by decide +kernel
example : read? "." = none ∧ read? "1e" = none ∧ read? "--1" = none := by decide +kernel

end Binary64

end EntityGraph.Number
