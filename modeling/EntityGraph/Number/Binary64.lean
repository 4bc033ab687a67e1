/-!
# Binary floating-point numbers

The sixty-four-bit binary numbers as exact mathematics: a finite number is a sign, a natural
mantissa and a power of two, so reading, printing and comparing them is arithmetic on naturals.
`nearest` is the one place where rounding happens.
-/

namespace EntityGraph.Number

/-- A binary floating-point number. A finite one is `± mantissa · 2 ^ exponent`. -/
inductive Binary64
  | finite (negative : Bool) (mantissa : Nat) (exponent : Int)
  | infinite (negative : Bool)
  | nan
  deriving DecidableEq, Repr

namespace Binary64

/-- The least exponent; zero and the subnormal numbers carry it. -/
def minExponent : Int := -1074

/-- The greatest exponent of a finite number. -/
def maxExponent : Int := 971

/-- The bound below which mantissas stay. -/
def mantissaBound : Nat := Nat.pow 2 53

/-- The form that `nearest` gives to every finite number: the mantissa fills its width unless the
exponent is the least one. -/
def Normal : Binary64 → Prop
  | finite _ m e =>
    m < mantissaBound ∧ minExponent ≤ e ∧ e ≤ maxExponent ∧
      (mantissaBound ≤ 2 * m ∨ e = minExponent)
  | infinite _ => True
  | nan => True

instance (x : Binary64) : Decidable x.Normal := by
  cases x <;> unfold Normal <;> infer_instance

/-- The zero of a sign. -/
def zero (negative : Bool) : Binary64 := finite negative 0 minExponent

/-- The natural number nearest to a quotient; a quotient halfway between two goes to the even
one. -/
def roundHalfEven (num den : Nat) : Nat :=
  let q := num / den
  let twice := 2 * (num % den)
  if twice < den then q
  else if den < twice then q + 1
  else if q % 2 = 0 then q else q + 1

/-- The quotient `num / den` scaled by a power of two, as a fraction. -/
def scaleByPower (num den : Nat) (exponent : Int) : Nat × Nat :=
  match exponent with
  | .ofNat e => (num * Nat.pow 2 e, den)
  | .negSucc e => (num, den * Nat.pow 2 (e + 1))

/-- The exponent at which the mantissa of a positive quotient fills its width, or the least
exponent where the quotient is too small for that. -/
def exponentOf (num den : Nat) : Int :=
  let estimate : Int := (num.log2 : Int) - den.log2 - 52
  let scaled := scaleByPower num den (-estimate)
  let exact := if scaled.1 < Nat.pow 2 52 * scaled.2 then estimate - 1 else estimate
  max exact minExponent

/-- The binary number nearest to a quotient of naturals, halves going to the even mantissa. -/
def nearest (negative : Bool) (num den : Nat) : Binary64 :=
  if num = 0 then zero negative
  else
    let e := exponentOf num den
    let scaled := scaleByPower num den (-e)
    let m := roundHalfEven scaled.1 scaled.2
    let (m, e) := if m = mantissaBound then (mantissaBound / 2, e + 1) else (m, e)
    if maxExponent < e then infinite negative else finite negative m e

/-- The binary number nearest to `± digits · 10 ^ exponent`. Exponents far outside the range are
settled without raising ten to them. -/
def ofScientific (negative : Bool) (digits : Nat) (exponent : Int) : Binary64 :=
  let length : Int := (Nat.toDigits 10 digits).length
  if digits = 0 then zero negative
  else if 310 < length + exponent then infinite negative
  else if length + exponent < -330 then zero negative
  else
    match exponent with
    | .ofNat e => nearest negative (digits * Nat.pow 10 e) 1
    | .negSucc e => nearest negative digits (Nat.pow 10 (e + 1))

/-- The binary number nearest to a natural number. -/
def ofNat (n : Nat) : Binary64 := nearest false n 1

/-- The same number with the other sign. -/
def neg : Binary64 → Binary64
  | finite s m e => finite (!s) m e
  | infinite s => infinite (!s)
  | nan => nan

/-- Whether the number is a positive or negative zero. -/
def isZero : Binary64 → Bool
  | finite _ m _ => m = 0
  | _ => false

/-- A finite number as a signed integer over a power of two. -/
private def signed (negative : Bool) (m : Nat) : Int := if negative then -(m : Int) else m

/-- The binary number nearest to the sum. -/
def add : Binary64 → Binary64 → Binary64
  | nan, _ => nan
  | _, nan => nan
  | infinite s, infinite t => if s = t then infinite s else nan
  | infinite s, _ => infinite s
  | _, infinite t => infinite t
  | finite s m e, finite t n f =>
    let low := min e f
    let total := signed s m * Nat.pow 2 (e - low).toNat + signed t n * Nat.pow 2 (f - low).toNat
    if total = 0 then zero (s && t)
    else
      let scaled := scaleByPower total.natAbs 1 low
      nearest (total < 0) scaled.1 scaled.2

/-- The binary number nearest to the product. -/
def mul : Binary64 → Binary64 → Binary64
  | nan, _ => nan
  | _, nan => nan
  | infinite s, infinite t => infinite (s != t)
  | infinite s, finite t n _ => if n = 0 then nan else infinite (s != t)
  | finite s m _, infinite t => if m = 0 then nan else infinite (s != t)
  | finite s m e, finite t n f =>
    let scaled := scaleByPower (m * n) 1 (e + f)
    nearest (s != t) scaled.1 scaled.2

/-- Taking the opposite twice gives the number back. -/
@[simp] theorem neg_neg (x : Binary64) : x.neg.neg = x := by
  cases x <;> simp [neg]

end Binary64

end EntityGraph.Number
