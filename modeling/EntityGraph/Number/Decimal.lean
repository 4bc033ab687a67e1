import EntityGraph.Text.Blank

/-!
# Decimal numbers

Decimal numbers that keep the exponent they were written with: `1.50` and `1.5` are different
texts of equal numbers. `Decimal.text` writes a number and `Decimal.read` accepts every spelling
of one.
-/

namespace EntityGraph.Number

open EntityGraph.Text

/-- A decimal number. A finite one is `± coefficient · 10 ^ exponent`. -/
inductive Decimal
  | finite (negative : Bool) (coefficient : Nat) (exponent : Int)
  | infinite (negative : Bool)
  | nan (negative : Bool) (signaling : Bool) (payload : Nat)
  deriving DecidableEq, Repr

namespace Decimal

/-- The greatest exponent that the first digit of a number may have. -/
def maxExponent : Int := 999999999999999999

/-- The least exponent that the last digit of a number may have. -/
def minExponent : Int := -1999999999999999997

/-- The exponent of the first digit of a coefficient with the given exponent of its last digit. -/
def adjusted (coefficient : Nat) (exponent : Int) : Int :=
  exponent + (decimal coefficient).length - 1

/-- Whether a finite number lies within the range of exponents. A zero is measured by its
exponent alone. -/
def InRange (coefficient : Nat) (exponent : Int) : Prop :=
  minExponent ≤ exponent ∧
    (if coefficient = 0 then exponent else adjusted coefficient exponent) ≤ maxExponent

instance (c : Nat) (e : Int) : Decidable (InRange c e) := by unfold InRange; infer_instance

/-- The sign of a number as it is written. -/
def signText (negative : Bool) : List Char := if negative then ['-'] else []

/-- The zeros after the point of the smallest number written without an exponent. -/
def positionalZeros : Int := 6

/-- The text of a finite number without its sign. A number is written positionally if its
exponent is not positive and its first digit is at most six zeros behind the point. -/
def finiteText (coefficient : Nat) (exponent : Int) : List Char :=
  let digits := decimal coefficient
  if exponent ≤ 0 ∧ -positionalZeros ≤ adjusted coefficient exponent then
    if exponent = 0 then digits
    else
      let places := exponent.natAbs
      let filled := padLeft (places + 1) '0' digits
      filled.take (filled.length - places) ++ '.' :: filled.drop (filled.length - places)
  else
    let e := adjusted coefficient exponent
    digits.take 1 ++ (if digits.length = 1 then [] else '.' :: digits.drop 1) ++
      'E' :: (if e < 0 then '-' else '+') :: decimal e.natAbs

/-- The characters of the text of a decimal number. -/
def chars : Decimal → List Char
  | finite negative c e => signText negative ++ finiteText c e
  | infinite negative => signText negative ++ "Infinity".toList
  | nan negative signaling payload =>
    signText negative ++ (if signaling then "sNaN".toList else "NaN".toList) ++
      (if payload = 0 then [] else decimal payload)

/-- The text of a decimal number. -/
def text (d : Decimal) : String := String.ofList d.chars

/-- Why a text is not a decimal number. -/
inductive ReadError
  /-- The text has not the form of a number. -/
  | malformed
  /-- The number is outside the range of exponents. -/
  | outOfRange
  deriving DecidableEq, Repr

/-- The message of an error. -/
def ReadError.message : ReadError → String
  | malformed => "[<class 'decimal.ConversionSyntax'>]"
  | outOfRange => "[<class 'decimal.InvalidOperation'>]"

/-- A sign at the head of a text, and what follows it. -/
def readSign : List Char → Bool × List Char
  | '-' :: cs => (true, cs)
  | '+' :: cs => (false, cs)
  | cs => (false, cs)

/-- A signed run of digits. -/
def readExponent (cs : List Char) : Option Int :=
  let (negative, digits) := readSign cs
  (nat? digits).map fun n ↦ if negative then -(n : Int) else n

/-- The coefficient and the exponent of an unsigned finite number in lower case. -/
def readFinite (cs : List Char) : Except ReadError (Nat × Int) :=
  let whole := cs.takeWhile isDigit
  let rest := cs.dropWhile isDigit
  let (fraction, rest) := match rest with
    | '.' :: rest => (rest.takeWhile isDigit, rest.dropWhile isDigit)
    | rest => ([], rest)
  match nat? (whole ++ fraction) with
  | none => .error .malformed
  | some coefficient =>
    let exponent := match rest with
      | [] => some 0
      | 'e' :: rest => readExponent rest
      | _ => none
    match exponent with
    | none => .error .malformed
    | some exponent =>
      let exponent := exponent - fraction.length
      if InRange coefficient exponent then .ok (coefficient, exponent) else .error .outOfRange

/-- The payload behind the word for a number that is none; an empty one is zero. -/
def readPayload (cs : List Char) : Except ReadError Nat :=
  if cs.isEmpty then .ok 0 else
    match nat? cs with
    | some n => .ok n
    | none => .error .malformed

/-- The text without a word at its head, if it starts with that word. -/
def stripWord? (word : String) (cs : List Char) : Option (List Char) :=
  if word.toList.isPrefixOf cs then some (cs.drop word.length) else none

/-- An unsigned number in lower case. -/
def readUnsigned (negative : Bool) (cs : List Char) : Except ReadError Decimal :=
  if cs = "inf".toList ∨ cs = "infinity".toList then .ok (infinite negative)
  else
    match stripWord? "snan" cs with
    | some payload => (readPayload payload).map (nan negative true)
    | none =>
      match stripWord? "nan" cs with
      | some payload => (readPayload payload).map (nan negative false)
      | none => (readFinite cs).map fun (c, e) ↦ finite negative c e

/-- The decimal number that a text spells. Blanks around it and low lines anywhere in it are
passed over, letters may be of either case, and digits may be of any script. -/
def read (s : String) : Except ReadError Decimal :=
  match foldNumeral? ((trimBlanks s.toList).filter (· ≠ '_')) with
  | none => .error .malformed
  | some cs =>
    let (negative, rest) := readSign (cs.map lowerAscii)
    readUnsigned negative rest

example : (read "1_000.50").toOption.map text = some "1000.50" := by decide +kernel
example : (read " -1e5 ").toOption.map text = some "-1E+5" := by decide +kernel
example : (read "0.0000001").toOption.map text = some "1E-7" := by decide +kernel
example : (read "snan12").toOption.map text = some "sNaN12" := by decide +kernel
example : (read "1e").toOption = none := by decide +kernel

end Decimal

end EntityGraph.Number
