import EntityGraph.Value.SetOrder

/-!
# Uses of values

What callers do with a value of unknown kind: use it as a key, iterate it, compare it with zero.
Each use says which values admit it.
-/

namespace EntityGraph

open EntityGraph.Number

/-- Whether an atom can be a key. -/
def Atom.checkKey : Atom → Except Fault Unit
  | bytes true _ => .error (.unhashable "bytearray")
  | decimal (.nan _ true _) => .error .signalingHash
  | _ => .ok ()

/-- The members of an atom: the characters of a text, the numbers of a byte string. -/
def Atom.items? : Atom → Option (List Value)
  | text s => some (s.toList.map fun c ↦ Value.text (String.ofList [c]))
  | bytes _ content => some (content.map fun b ↦ Value.int b.toNat)
  | _ => none

namespace Value

mutual

/-- Checks that a value can be a key: everything that cannot change can. -/
def checkKey : Value → Except Fault Unit
  | .atom _ a => a.checkKey
  | .seq _ .tuple items => checkKeys items
  | .seq _ .frozenset _ => .ok ()
  | .seq _ kind _ => .error (.unhashable kind.typeName)
  | .dict .. => .error (.unhashable "dict")
  | .loop _ kind => .error (.unhashable kind.typeName)

/-- Checks that each of some values can be a key. -/
def checkKeys : List Value → Except Fault Unit
  | [] => .ok ()
  | v :: vs => do v.checkKey; checkKeys vs

end

/-- Whether a value can be a key. -/
def isKey (v : Value) : Bool := v.checkKey.isOk

/-- The members of a value in order; of a mapping, its keys. A loop by itself has none. -/
def items : Value → Except Fault (List Value)
  | v@(.seq _ _ items) => .ok (items.map v.takeOut)
  | .dict _ entries => .ok (entries.map (·.1))
  | .loop .. => .ok []
  | v@(.atom _ a) =>
    match a.items? with
    | some items => .ok items
    | none => .error (.notIterable v.longTypeName)

/-- The fault of a value that is asked for a member which it lacks. -/
def lacks (v : Value) (member : String) : Fault :=
  match v with
  | .atom _ (.classRef _ name) => .noClassMember name member
  | v => .noMember v.longTypeName member

/-- The byte that a member stands for: an integer below 256. -/
def byte : Value → Except Fault UInt8
  | .atom _ (.bool b) => .ok (if b then 1 else 0)
  | .atom _ (.int i) => if 0 ≤ i ∧ i < 256 then .ok (UInt8.ofNat i.toNat) else .error .notByte
  | v => .error (.notInteger v.longTypeName)

/-- The least natural number that is no size of a machine. -/
def sizeBound : Nat := Nat.pow 2 63

/-- The bytes that an object takes besides the bytes of its string. -/
def objectSize : Nat := 33

/-- The most bytes that there is memory for. -/
def memoryBound : Nat := Nat.pow 2 38

/-- A byte string of zeros. -/
def zeroBytes (size : Int) : Except Fault (List UInt8) :=
  if size < -sizeBound ∨ sizeBound ≤ size then .error .hugeSize
  else if size < 0 then .error .negativeSize
  else if sizeBound ≤ size + objectSize then .error .tooManyBytes
  else if memoryBound < size then .error .noMemory
  else .ok (List.replicate size.toNat 0)

/-- The byte string that a value stands for: itself, as many zeros as an integer says, or the bytes
that the members of a collection are. -/
def byteString : Value → Except Fault (List UInt8)
  | .atom _ (.bytes _ content) => .ok content
  | .atom _ (.text _) => .error .noEncoding
  | .atom _ (.bool b) => zeroBytes (if b then 1 else 0)
  | .atom _ (.int i) => zeroBytes i
  | v@(.atom ..) => .error (.notBytes v.longTypeName)
  | v => do (← v.items).mapM byte

/-- Whether a value is zero or less. Only numbers can be compared with zero. -/
def atMostZero : Value → Except Fault Bool
  | .atom _ (.decimal (.nan ..)) => .error .unorderedNumber
  | .atom _ (.float .nan) => .ok false
  | v@(.atom _ a) =>
    match a.numeral? with
    | some n => .ok n.nonpositive
    | none => .error (.unordered "<=" v.longTypeName "int")
  | v => .error (.unordered "<=" v.longTypeName "int")

/-- Entries with one more: an entry under the same key keeps its place and its key, and takes the
new value. -/
def insert {α : Type} (key : Value) (a : α) : List (Value × α) → List (Value × α)
  | [] => [(key, a)]
  | (k, b) :: es => if key.same k then (k, a) :: es else (k, b) :: insert key a es

/-- A mapping of entries added one after the other. -/
def ofEntries (id : Identity) (entries : List (Value × Value)) : Value :=
  .dict id (entries.foldl (fun es e ↦ insert e.1 e.2 es) [])

/-- The integer that a value is, if it is one. -/
def int? : Value → Option Int
  | .atom _ (.int i) => some i
  | _ => none

/-- Members without those that occurred before. -/
def distinct (members : List Value) : List Value :=
  members.foldl (fun seen v ↦ if v.among seen then seen else seen ++ [v]) []

/-- A set of members added one after the other. -/
def ofMembers (id : Identity) (frozen : Bool) (members : List Value) : Value :=
  .seq id (if frozen then .frozenset else .set) (setOrder 0 (distinct members))

/-- A set of the keys of a mapping, whose number is known before they are added. -/
def ofKeys (id : Identity) (keys : List Value) : Value :=
  let keys := distinct keys
  .seq id .set (setOrder keys.length keys)

/-- Every text can be a key. -/
@[simp] theorem checkKey_text (s : String) : (text s).checkKey = .ok () := rfl

end Value

end EntityGraph
