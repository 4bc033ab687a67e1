import EntityGraph.Value.Equality

/-!
# The order of sets

A set lists its members in the order of their places in a table. The place of a number follows from
its residue by a large prime; where it is taken, places farther on are tried by a fixed rule. The
table grows before it is full. Members whose places do not follow from their values are listed as
they came.
-/

namespace EntityGraph

open EntityGraph.Number

namespace Number.Numeral

/-- The prime by which residues are taken. -/
def prime : Nat := Nat.pow 2 61 - 1

/-- A power modulo the prime. -/
def powerResidue (base exponent : Nat) : Nat :=
  if exponent = 0 then 1
  else
    let square := powerResidue (base * base % prime) (exponent / 2)
    if exponent % 2 = 0 then square else square * base % prime
termination_by exponent

/-- The residue of a number, with its sign. Dividing by ten is multiplying with a power of ten,
because the exponents of powers count modulo one less than the prime. -/
def residue : Numeral → Int
  | .finite digits exponent =>
    let power := powerResidue 10 (exponent % ((prime : Int) - 1)).toNat
    let r : Int := (digits.natAbs * power % prime : Nat)
    let signed := if digits < 0 then -r else r
    if signed = -1 then -2 else signed
  | .infinite negative => if negative then -314159 else 314159

end Number.Numeral

namespace Value

/-- The machine word by which a member finds its place. -/
def code? : Value → Option Nat
  | .atom _ (.uuid u) => some (Numeral.residue (.ofInt u.bits.toNat)).toNat
  | .atom _ a => a.numeral?.map fun n ↦ ((Numeral.residue n) % (Nat.pow 2 64 : Nat)).toNat
  | _ => none

/-- The places of a table, each with the code and the number of the member that has it. The number
of places is a power of two. -/
abbrev Places := Array (Option (Nat × Nat))

namespace Places

/-- The least power of two that is at least eight and above a number. -/
def sizeAbove (n : Nat) : Nat := if n < 8 then 8 else Nat.pow 2 (Nat.log2 n + 1)

/-- A table without members and with more places than a number. -/
def empty (n : Nat) : Places := Array.replicate (sizeAbove n) none

/-- The first free place among some places in a row. -/
def freeWithin? (ps : Places) (i : Nat) : Nat → Option Nat
  | 0 => none
  | count + 1 => if ps[i]? = some none then some i else freeWithin? ps (i + 1) count

/-- The free place for a code, from a place on: ten places in a row are tried where there are so
many, else one; then a place elsewhere, which depends on the next bits of the code. -/
def free (ps : Places) (code i : Nat) : Nat → Nat
  | 0 => i
  | fuel + 1 =>
    match ps.freeWithin? i (if i + 9 < ps.size then 10 else 1) with
    | some j => j
    | none =>
      let code := code / 32
      free ps code ((i * 5 + 1 + code) % ps.size) fuel

/-- The table with a member more. -/
def put (ps : Places) (m : Nat × Nat) : Places :=
  ps.setIfInBounds (ps.free m.1 (m.1 % ps.size) (ps.size + 64)) (some m)

/-- The members in the order of their places. -/
def members (ps : Places) : List (Nat × Nat) := ps.toList.filterMap id

/-- The table with a member more, on more places where three fifths of them are taken. -/
def add (ps : Places) (m : Nat × Nat) : Places :=
  let ps := ps.put m
  let count := ps.members.length
  if count * 5 < (ps.size - 1) * 3 then ps
  else ps.members.foldl put (empty (if 50000 < count then count * 2 else count * 4))

/-- The table of members with codes, when so many were expected. -/
def ofCodes (expected : Nat) (codes : List Nat) : Places :=
  codes.zipIdx.foldl add (empty (if expected * 5 < 21 then 0 else expected * 2))

/-- The place of the member of a number. -/
def placeOf (ps : Places) (n : Nat) : Nat := ps.toList.findIdx fun m ↦ m.any (·.2 = n)

end Places

/-- The order in which a set lists its members, when so many were expected. -/
def setOrder (expected : Nat) (members : List Value) : List Value :=
  match members.mapM code? with
  | some codes =>
    let places := Places.ofCodes expected codes
    let placed := members.zipIdx.map fun (v, n) ↦ (places.placeOf n, v)
    (placed.mergeSort fun a b ↦ a.1 ≤ b.1).map (·.2)
  | none => members

/-- A set lists every member as often as it was given. -/
theorem setOrder_perm (expected : Nat) (members : List Value) :
    (setOrder expected members).Perm members := by
  unfold setOrder
  split
  · refine ((List.mergeSort_perm _ _).map _).trans ?_
    rw [List.map_map]
    exact List.Perm.of_eq (by simp [Function.comp_def])
  · exact .refl _

end Value

end EntityGraph
