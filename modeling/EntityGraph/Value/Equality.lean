import EntityGraph.Number.Numeral
import EntityGraph.Value.Part

/-!
# Equality of values

When two values count as equal. Numbers are compared exactly across their types, truth values
being the numbers zero and one; byte strings and sets are compared without regard to whether they
can grow; mappings and sets without regard to order. A number that is none equals nothing, yet one
and the same object is always found again: `same` is the relation by which members and keys are
found, and `equals` the one that operators ask for.
-/

namespace EntityGraph

open EntityGraph.Number

/-- The number that an atom is, if it is one. -/
def Atom.numeral? : Atom → Option Numeral
  | bool b => some (.ofInt (if b then 1 else 0))
  | int i => some (.ofInt i)
  | float x => Numeral.ofBinary64? x
  | decimal d => Numeral.ofDecimal? d
  | _ => none

/-- Whether an atom is a number that is none. -/
def Atom.isNaN : Atom → Bool
  | float .nan => true
  | decimal (.nan ..) => true
  | _ => false

/-- Whether an atom is of a type of numbers. -/
def Atom.isNumber (a : Atom) : Bool := a.numeral?.isSome || a.isNaN

/-- Whether two atoms of whatever identity are equal. -/
def Atom.equals (a b : Atom) : Bool :=
  match a.numeral?, b.numeral? with
  | some m, some n => m = n
  | _, _ =>
    match a, b with
    | null, null => true
    | text s, text t => s = t
    | bytes _ x, bytes _ y => x = y
    | date d, date e => d = e
    | moment m, moment n => m.same n
    | uuid u, uuid v => u = v
    | classRef m n, classRef m' n' => m = m' && n = n'
    | _, _ => false

/-- Whether sequences of two kinds can be equal, and if so whether the order of members counts. -/
def SeqKind.comparison? : SeqKind → SeqKind → Option Bool
  | list, list | tuple, tuple => some true
  | set, set | set, frozenset | frozenset, set | frozenset, frozenset => some false
  | _, _ => none

namespace Value

mutual

/-- Whether two values are the same for a search among members or keys. -/
def same : Value → Value → Bool
  | .atom i a, .atom j b => i.same j || a.equals b
  | .seq i k xs, .seq j l ys =>
    i.same j ||
      match k.comparison? l with
      | some true => sameItems xs ys
      | some false => xs.length = ys.length && allAmong xs ys
      | none => false
  | .dict i es, .dict j fs => i.same j || (es.length = fs.length && entriesAmong es fs)
  | .loop i _, .loop j _ => i.same j
  | _, _ => false

/-- Whether two lists of values are the same, place by place. -/
def sameItems : List Value → List Value → Bool
  | [], [] => true
  | x :: xs, y :: ys => x.same y && sameItems xs ys
  | _, _ => false

/-- Whether each of some values is found among others. -/
def allAmong : List Value → List Value → Bool
  | [], _ => true
  | x :: xs, ys => ys.any (x.same ·) && allAmong xs ys

/-- Whether each of some entries is found among others, with the same value. -/
def entriesAmong : List (Value × Value) → List (Value × Value) → Bool
  | [], _ => true
  | (k, v) :: es, fs => fs.any (fun f ↦ k.same f.1 && v.same f.2) && entriesAmong es fs

end

mutual

/-- Whether comparing two values never ends: both come back to a collection around them before a
difference is found. -/
def endless : Value → Value → Bool
  | .seq i k xs, .seq j l ys =>
    !i.same j && k.comparison? l = some true && xs.length = ys.length && endlessItems xs ys
  | .dict i es, .dict j fs => !i.same j && es.length = fs.length && endlessEntries es fs
  | .loop i k, .loop j l => !i.same j && k = l
  | _, _ => false

/-- Whether comparing two lists of values place by place never ends. -/
def endlessItems : List Value → List Value → Bool
  | x :: xs, y :: ys => x.endless y || (x.same y && endlessItems xs ys)
  | _, _ => false

/-- Whether looking for each of some entries among others never ends. -/
def endlessEntries : List (Value × Value) → List (Value × Value) → Bool
  | [], _ => false
  | (k, v) :: es, fs =>
    match fs.find? fun f ↦ k.same f.1 with
    | some f => v.endless f.2 || (v.same f.2 && endlessEntries es fs)
    | none => false

end

/-- Whether a value is a number that is none. -/
def isNaN : Value → Bool
  | .atom _ a => a.isNaN
  | _ => false

/-- Whether two values are equal. -/
def equals (v w : Value) : Bool := !v.isNaN && v.same w

/-- Whether a value is among others. -/
def among (v : Value) (vs : List Value) : Bool := vs.any (v.same ·)

/-- The first entry under a key, in any list of entries. -/
def find? {α : Type} (key : Value) : List (Value × α) → Option α
  | [] => none
  | (k, a) :: es => if key.same k then some a else find? key es

/-- The value under a text in a mapping; nothing for values that are no mapping. -/
def get? (key : String) : Value → Option Value
  | v@(.dict _ entries) => (find? (text key) entries).map v.takeOut
  | _ => none

/-- The value under a text in a mapping, absent if there is none. -/
def get (key : String) (v : Value) : Value := (v.get? key).getD null

/-- Texts are the same exactly if they are one text. -/
@[simp] theorem same_text (s t : String) : (text s).same (text t) = decide (s = t) := by
  simp [text, same, Identity.same, Atom.equals, Atom.numeral?]

/-- Texts are equal exactly if they are one text. -/
@[simp] theorem equals_text (s t : String) : (text s).equals (text t) = decide (s = t) := by
  rw [equals, same_text]
  rfl

end Value

end EntityGraph
