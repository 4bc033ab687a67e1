import EntityGraph.Number.Binary64
import EntityGraph.Number.Decimal

/-!
# Numerals

One exact form for the numbers of all types: an integer that ten does not divide, times a power
of ten. Two numbers of any types are equal exactly if their numerals are.
-/

namespace EntityGraph.Number

/-- An exact number `digits · 10 ^ exponent`, or an infinity. -/
inductive Numeral
  | finite (digits : Int) (exponent : Int)
  | infinite (negative : Bool)
  deriving DecidableEq, Repr

namespace Numeral

/-- A natural number without its trailing zeros, and how many there were. -/
def dropZeros (fuel n : Nat) (count : Nat) : Nat × Nat :=
  match fuel with
  | 0 => (n, count)
  | fuel + 1 => if n % 10 = 0 then dropZeros fuel (n / 10) (count + 1) else (n, count)

/-- The numeral of `digits · 10 ^ exponent`. -/
def of (digits : Int) (exponent : Int) : Numeral :=
  if digits = 0 then finite 0 0
  else
    let n := digits.natAbs
    let (core, zeros) := dropZeros (Nat.toDigits 10 n).length n 0
    finite (if digits < 0 then -core else core) (exponent + zeros)

/-- The numeral of an integer. -/
def ofInt (i : Int) : Numeral := of i 0

/-- The numeral of a binary number. -/
def ofBinary64? : Binary64 → Option Numeral
  | .finite negative m e =>
    let signed (n : Nat) : Int := if negative then -n else n
    match e with
    | .ofNat e => some (of (signed (m * Nat.pow 2 e)) 0)
    | .negSucc e => some (of (signed (m * Nat.pow 5 (e + 1))) (.negSucc e))
  | .infinite negative => some (infinite negative)
  | .nan => none

/-- The numeral of a decimal number. -/
def ofDecimal? : Decimal → Option Numeral
  | .finite negative c e => some (of (if negative then -c else c) e)
  | .infinite negative => some (infinite negative)
  | .nan .. => none

/-- The sign of a numeral: minus one, zero or one. -/
def sign : Numeral → Int
  | finite digits _ => digits.sign
  | infinite negative => if negative then -1 else 1

/-- Whether one positive finite number is less than another. The places of their first digits are
compared before any power of ten is taken. -/
def lessMagnitude (a : Nat) (e : Int) (b : Nat) (f : Int) : Bool :=
  let place (n : Nat) (e : Int) : Int := (Nat.toDigits 10 n).length + e
  if place a e ≠ place b f then place a e < place b f
  else
    let low := min e f
    a * Nat.pow 10 (e - low).toNat < b * Nat.pow 10 (f - low).toNat

/-- Whether one number is less than another. -/
def less (m n : Numeral) : Bool :=
  if m.sign ≠ n.sign then m.sign < n.sign
  else
    match m, n with
    | finite a e, finite b f =>
      if a = 0 then false
      else if a < 0 then lessMagnitude b.natAbs f a.natAbs e
      else lessMagnitude a.natAbs e b.natAbs f
    | finite a _, infinite _ => 0 < a
    | infinite _, finite b _ => b < 0
    | infinite _, infinite _ => false

/-- Whether a number is zero or less. -/
def nonpositive : Numeral → Bool
  | finite digits _ => digits ≤ 0
  | infinite negative => negative

end Numeral

end EntityGraph.Number
