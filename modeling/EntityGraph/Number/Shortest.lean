import EntityGraph.Number.Binary64

/-!
# Shortest decimals of binary numbers

The fewest decimal digits that read back as a given binary number, and among those the nearest to
it. The search runs over decimal grids from coarse to fine; on each grid only the two neighbours
of the number can lie in the interval of reals that round to it.
-/

namespace EntityGraph.Number

/-- A decimal number `digits · 10 ^ exponent`. -/
structure Scientific where
  digits : Nat
  exponent : Int
  deriving DecidableEq, Repr

namespace Scientific

/-- The same number without trailing zeros among its digits. -/
def dropZeros (fuel : Nat) (s : Scientific) : Scientific :=
  match fuel with
  | 0 => s
  | fuel + 1 =>
    if s.digits ≠ 0 ∧ s.digits % 10 = 0 then dropZeros fuel ⟨s.digits / 10, s.exponent + 1⟩ else s

end Scientific

/-- The reals that round to a finite positive number, over a common unit: the number itself, the
two ends of the interval, whether the ends belong to it, and the unit as a fraction. -/
structure RoundingInterval where
  centre : Nat
  low : Nat
  high : Nat
  closed : Bool
  unitNum : Nat
  unitDen : Nat

/-- The interval of reals that round to `mantissa · 2 ^ exponent`. At the bottom of a binade the
neighbour below is only half as far away. -/
def RoundingInterval.of (mantissa : Nat) (exponent : Int) : RoundingInterval :=
  let bottom := mantissa = Binary64.mantissaBound / 2 ∧ Binary64.minExponent < exponent
  let unit := Binary64.scaleByPower 1 1 (exponent - 2)
  { centre := 4 * mantissa
    low := 4 * mantissa - if bottom then 1 else 2
    high := 4 * mantissa + 2
    closed := mantissa % 2 = 0
    unitNum := unit.1
    unitDen := unit.2 }

/-- Whether a fraction lies in the interval. -/
def RoundingInterval.contains (i : RoundingInterval) (num den : Nat) : Bool :=
  let x := num * i.unitDen
  let low := i.low * i.unitNum * den
  let high := i.high * i.unitNum * den
  if i.closed then low ≤ x && x ≤ high else low < x && x < high

/-- The number of decimal digits before the point of a positive fraction; for a fraction below
one, minus the number of zeros that follow the point. -/
def pointPosition (num den : Nat) : Int :=
  if den ≤ num then (Nat.toDigits 10 (num / den)).length
  else
    let quotient := (den + num - 1) / num
    1 - ((Nat.toDigits 10 (quotient - 1)).length : Int)

/-- A power of ten as a fraction. -/
def powerOfTen : Int → Nat × Nat
  | .ofNat e => (Nat.pow 10 e, 1)
  | .negSucc e => (1, Nat.pow 10 (e + 1))

/-- The point of the grid of spacing `10 ^ exponent` that reads back as the centre, if there is
one: of its two neighbours on the grid the nearer, and of two equally near ones the even. -/
def RoundingInterval.onGrid? (i : RoundingInterval) (exponent : Int) : Option Scientific :=
  let ten := powerOfTen exponent
  let num := i.centre * i.unitNum * ten.2
  let den := i.unitDen * ten.1
  let below := num / den
  let above := below + 1
  let belowHits := i.contains (below * ten.1) ten.2
  let aboveHits := i.contains (above * ten.1) ten.2
  let twice := 2 * (num % den)
  if belowHits && aboveHits then
    let nearer := if twice < den then below else if den < twice then above
      else if below % 2 = 0 then below else above
    some ⟨nearer, exponent⟩
  else if belowHits then some ⟨below, exponent⟩
  else if aboveHits then some ⟨above, exponent⟩
  else none

/-- The first grid with a hit, from one digit to seventeen. -/
def RoundingInterval.firstGrid (i : RoundingInterval) (point : Int) : Scientific :=
  ((List.range 17).findSome? fun n ↦ i.onGrid? (point - (n + 1 : Nat))).getD ⟨0, 0⟩

/-- The shortest decimal that reads back as `mantissa · 2 ^ exponent`, without trailing zeros. -/
def shortest (mantissa : Nat) (exponent : Int) : Scientific :=
  if mantissa = 0 then ⟨0, 0⟩
  else
    let i := RoundingInterval.of mantissa exponent
    (i.firstGrid (pointPosition (i.centre * i.unitNum) i.unitDen)).dropZeros 17

/-- What is found on a grid reads back as the centre. -/
theorem RoundingInterval.contains_of_onGrid? {i : RoundingInterval} {e : Int} {s : Scientific}
    (h : i.onGrid? e = some s) :
    i.contains (s.digits * (powerOfTen e).1) (powerOfTen e).2 = true := by
  simp only [onGrid?] at h
  split at h
  next both =>
    obtain rfl := Option.some.inj h
    simp only [Bool.and_eq_true] at both
    dsimp only
    split
    · exact both.1
    · split
      · exact both.2
      · split
        · exact both.1
        · exact both.2
  next =>
    split at h
    next below => obtain rfl := Option.some.inj h; exact below
    next =>
      split at h
      next above => obtain rfl := Option.some.inj h; exact above
      next => cases h

end EntityGraph.Number
