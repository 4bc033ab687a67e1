import EntityGraph.Text.Blank
import EntityGraph.Text.Quoted

/-!
# Integer texts

Integers spelled in a base: a sign, the mark of the base, and digits of any script, with single low
lines between them. Decimal texts of more than `digitLimit` digits are neither read nor written.
-/

namespace EntityGraph.Number

open EntityGraph.Text

namespace Integer

/-- The most digits of an integer whose decimal text is read or written. -/
def digitLimit : Nat := 4300

/-- Whether an integer has too many decimal digits to be written. -/
def isTooLong (i : Int) : Bool := Nat.pow 10 digitLimit ≤ i.natAbs

/-- Why a text is not an integer. -/
inductive ReadError
  | malformed
  /-- A decimal text with this many digits, above the limit. -/
  | tooLong (digits : Nat)
  deriving DecidableEq, Repr

/-- The letter that marks a base. -/
def baseMark? (base : Nat) : Option Char :=
  if base = 16 then some 'x' else if base = 8 then some 'o' else if base = 2 then some 'b' else none

/-- The digits behind the mark of the base and one low line, where these are there. -/
def dropMark (base : Nat) : List Char → List Char
  | '0' :: c :: cs =>
    if baseMark? base = some (lowerAscii c) then
      match cs with
      | '_' :: cs => cs
      | cs => cs
    else '0' :: c :: cs
  | cs => cs

/-- The digits of a text in which single low lines stand only between digits. -/
def dropLines? : List Char → Option (List Char)
  | [] => none
  | [c] => if c = '_' then none else some [c]
  | c :: '_' :: cs => if c = '_' then none else (dropLines? cs).map (c :: ·)
  | c :: d :: cs => if c = '_' then none else (dropLines? (d :: cs)).map (c :: ·)

/-- Whether the number of digits is limited in a base: only where digits are not groups of bits. -/
def isLimited (base : Nat) : Bool := !(base = 2 || base = 4 || base = 8 || base = 16 || base = 32)

/-- The number of digits at the head of a text, low lines apart. -/
def digitCount (base : Nat) (cs : List Char) : Nat :=
  ((cs.takeWhile fun c ↦ c = '_' || (digitIn? base c).isSome).filter (· ≠ '_')).length

/-- The natural number behind the sign of an integer text. -/
def readMagnitude (base : Nat) (cs : List Char) : Except ReadError Nat :=
  let cs := dropMark base cs
  if isLimited base && digitLimit < digitCount base cs then .error (.tooLong (digitCount base cs))
  else
    match (dropLines? cs).bind (natIn? base) with
    | some n => .ok n
    | none => .error .malformed

/-- The integer that a text spells in a base. -/
def read (base : Nat) (s : String) : Except ReadError Int :=
  match foldNumeral? s.toList with
  | none => .error .malformed
  | some cs =>
    match trimAscii cs with
    | '-' :: cs => (readMagnitude base cs).map fun n ↦ -(n : Int)
    | '+' :: cs => (readMagnitude base cs).map fun n ↦ (n : Int)
    | cs => (readMagnitude base cs).map fun n ↦ (n : Int)

/-- The most characters of a text that an error message quotes. -/
def quoteLimit : Nat := 200

/-- The message of an error, about the text that was read. -/
def ReadError.message (base : Nat) (s : String) : ReadError → String
  | malformed =>
    "invalid literal for int() with base " ++ String.ofList (decimal base) ++ ": " ++
      String.ofList ((quoted s).toList.take quoteLimit)
  | tooLong digits =>
    "Exceeds the limit (" ++ String.ofList (decimal digitLimit) ++
      " digits) for integer string conversion: value has " ++ String.ofList (decimal digits) ++
      " digits; use sys.set_int_max_str_digits() to increase the limit"

/-- The message about an integer that is too long to be written. -/
def tooLongMessage : String :=
  "Exceeds the limit (" ++ String.ofList (decimal digitLimit) ++ " digits) for integer string " ++
    "conversion; use sys.set_int_max_str_digits() to increase the limit"

example : (read 16 "+0x_fF").toOption = some 255 := by decide +kernel
example : (read 10 " -1_000 ").toOption = some (-1000) := by decide +kernel
example : (read 10 "1__0").toOption = none := by decide +kernel

end Integer

end EntityGraph.Number
