import EntityGraph.Number.Shortest
import EntityGraph.Text.Digits

/-!
# Texts of binary numbers

A binary number is written with the digits of its shortest decimal: positionally for moderate
exponents, otherwise with a mantissa and a signed exponent of at least two digits. The formats of
the library differ only in the fields of `FloatStyle`.
-/

namespace EntityGraph.Number

open EntityGraph.Text

/-- What distinguishes the formats in which binary numbers are written. -/
structure FloatStyle where
  /-- What follows the one digit of a mantissa that has no fraction. -/
  bareFraction : String
  infinity : String
  notANumber : String

namespace FloatStyle

/-- The style of messages and listings. -/
def plain : FloatStyle := ⟨"", "inf", "nan"⟩

/-- The style of JSON texts. -/
def json : FloatStyle := ⟨"", "Infinity", "NaN"⟩

/-- The style of YAML texts, where a number in exponent form needs a fraction. -/
def yaml : FloatStyle := ⟨".0", ".inf", ".nan"⟩

end FloatStyle

/-- The digits before the point of the largest number written positionally. -/
def positionalDigits : Int := 16

/-- The zeros after the point of the smallest number written positionally. -/
def positionalZeros : Int := 3

/-- Digits with a point after the first `position` of them; the integer part and the fraction are
filled up with a zero where they would be empty. -/
def positional (digits : List Char) (position : Int) : List Char :=
  if position ≤ 0 then
    '0' :: '.' :: List.replicate position.natAbs '0' ++ digits
  else if (digits.length : Int) ≤ position then
    digits ++ List.replicate (position - digits.length).toNat '0' ++ ['.', '0']
  else
    digits.take position.toNat ++ '.' :: digits.drop position.toNat

/-- An exponent with its sign and at least two digits. -/
def exponentPart (exponent : Int) : List Char :=
  'e' :: (if exponent < 0 then '-' else '+') :: padded 2 exponent.natAbs

/-- Digits in exponent form, the point after the first of them. -/
def exponential (style : FloatStyle) (digits : List Char) (position : Int) : List Char :=
  let fraction := digits.drop 1
  digits.take 1 ++
    (if fraction.isEmpty then style.bareFraction.toList else '.' :: fraction) ++
    exponentPart (position - 1)

/-- The text of a positive or zero decimal. -/
def decimalText (style : FloatStyle) (s : Scientific) : List Char :=
  let digits := decimal s.digits
  let position : Int := if s.digits = 0 then 1 else digits.length + s.exponent
  if -positionalZeros ≤ position ∧ position ≤ positionalDigits then positional digits position
  else exponential style digits position

/-- The text of a binary number in a style. -/
def Binary64.text (style : FloatStyle) : Binary64 → String
  | .finite negative m e =>
    String.ofList ((if negative then ['-'] else []) ++ decimalText style (shortest m e))
  | .infinite negative => (if negative then "-" else "") ++ style.infinity
  | .nan => style.notANumber

example : (Binary64.ofScientific false 1 16).text .plain = "1e+16" := by decide +kernel
example : (Binary64.ofScientific true 15 (-1)).text .plain = "-1.5" := by decide +kernel
example : (Binary64.ofScientific false 1 (-7)).text .yaml = "1.0e-07" := by decide +kernel
example : (Binary64.ofScientific false 1 (-4)).text .plain = "0.0001" := by decide +kernel
example : (Binary64.finite false 1 (-1074)).text .plain = "5e-324" := by decide +kernel

end EntityGraph.Number
