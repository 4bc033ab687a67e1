import EntityGraph.Calendar.Moment
import EntityGraph.Number.Binary64
import EntityGraph.Number.Decimal
import EntityGraph.Uuid
import EntityGraph.Value.Fault

/-!
# Values

The values that schema declarations and documents hold. Names, defaults and flags come from
callers and from documents that check few types, so a value may be anything: a scalar, a sequence,
a mapping in insertion order, or an object that is only known by its text.

An occurrence of a value carries an `Identity`: occurrences with the same known identity are one
object. Identity decides whether a number that equals nothing is nevertheless found again, and
whether a value is written once and referred to afterwards.

A value may be of any depth. Where it is copied, compared, shown or written, the stack is taken to
be large enough for whatever does not contain itself.
-/

namespace EntityGraph

open EntityGraph.Number EntityGraph.Calendar

/-- Which occurrences of a value are one and the same object. -/
inductive Identity
  /-- An object that occurs nowhere else. -/
  | fresh
  /-- An object numbered by a caller. -/
  | given (n : Nat)
  /-- A numbered node of a numbered document. -/
  | node (document n : Nat)
  /-- The one number that is none of all JSON documents. -/
  | jsonNaN
  /-- The one number that is none of all YAML documents. -/
  | yamlNaN
  /-- The copy of an object, among the copies that were made together with it. -/
  | copy (original : Identity)
  deriving DecidableEq, Repr

/-- Whether two identities are known to be one object. -/
def Identity.same (i j : Identity) : Bool := i = j && i ≠ .fresh

/-- How an object of a foreign class answers when a copy of it is asked for. -/
inductive Copying
  /-- It is its own copy. -/
  | itself
  /-- Its copy is another object, which may differ from one run to the next. -/
  | anew
  | refused (m : Mishap)
  deriving DecidableEq, Repr

/-- An object of a class outside of the library: the name of its class, its text, how it fails, if
it does, when its text is asked for, and how it answers when a copy is. -/
structure Foreign where
  typeName : String
  text : String
  textFault : Option Mishap
  copying : Copying
  deriving DecidableEq, Repr

/-- A value without parts. -/
inductive Atom
  | null
  | bool (b : Bool)
  | int (i : Int)
  | float (x : Binary64)
  | text (s : String)
  /-- A byte string; a growable one is an object of its own. -/
  | bytes (growable : Bool) (content : List UInt8)
  | date (d : Date)
  | moment (m : Moment)
  | decimal (d : Decimal)
  | uuid (u : Uuid)
  /-- A class, by its module and its qualified name. -/
  | classRef (module name : String)
  | foreign (f : Foreign)
  deriving DecidableEq

/-- The kinds of values that hold a sequence of members. -/
inductive SeqKind
  | list
  | tuple
  | set
  | frozenset
  deriving DecidableEq, Repr

/-- The kinds of collections that can contain themselves. -/
inductive LoopKind
  | list
  | tuple
  | dict
  deriving DecidableEq, Repr

/-- A value. The members of a set and the entries of a mapping are in insertion order, without
repetition. Inside of a collection that contains itself, the collection is a loop: its identity says
which of the collections around it is meant. -/
inductive Value
  | atom (id : Identity) (a : Atom)
  | seq (id : Identity) (kind : SeqKind) (items : List Value)
  | dict (id : Identity) (entries : List (Value × Value))
  | loop (id : Identity) (kind : LoopKind)

namespace Value

/-- The absent value. -/
def null : Value := .atom .fresh .null

instance : Inhabited Value := ⟨null⟩

/-- A truth value. -/
def bool (b : Bool) : Value := .atom .fresh (.bool b)

/-- An integer. -/
def int (i : Int) : Value := .atom .fresh (.int i)

/-- A text. -/
def text (s : String) : Value := .atom .fresh (.text s)

/-- A list of values. -/
def list (items : List Value) : Value := .seq .fresh .list items

/-- A mapping with texts as keys, which are to be distinct. -/
def record (entries : List (String × Value)) : Value :=
  .dict .fresh (entries.map fun (k, v) ↦ (text k, v))

/-- Whether a value is absent. -/
def isNull : Value → Bool
  | .atom _ .null => true
  | _ => false

/-- The absent value is absent. -/
@[simp] theorem isNull_null : null.isNull = true := rfl

/-- A text is not absent. -/
@[simp] theorem isNull_text (s : String) : (text s).isNull = false := rfl

/-- The text that a value is, if it is one. -/
def text? : Value → Option String
  | .atom _ (.text s) => some s
  | _ => none

/-- The truth value that a value is, if it is one. -/
def bool? : Value → Option Bool
  | .atom _ (.bool b) => some b
  | _ => none

/-- The identity of an occurrence. -/
def identity : Value → Identity
  | .atom id _ | .seq id _ _ | .dict id _ | .loop id _ => id

end Value

/-- The name of the type of an atom. -/
def Atom.typeName : Atom → String
  | null => "NoneType"
  | bool _ => "bool"
  | int _ => "int"
  | float _ => "float"
  | text _ => "str"
  | bytes growable _ => if growable then "bytearray" else "bytes"
  | date _ => "date"
  | moment _ => "datetime"
  | decimal _ => "Decimal"
  | uuid _ => "UUID"
  | classRef .. => "type"
  | foreign f => f.typeName

/-- The name of a kind of sequence. -/
def SeqKind.typeName : SeqKind → String
  | list => "list"
  | tuple => "tuple"
  | set => "set"
  | frozenset => "frozenset"

/-- The name of a kind of loop. -/
def LoopKind.typeName : LoopKind → String
  | list => "list"
  | tuple => "tuple"
  | dict => "dict"

namespace Value

/-- The name of the type of a value. -/
def typeName : Value → String
  | .atom _ a => a.typeName
  | .seq _ kind _ => kind.typeName
  | .dict .. => "dict"
  | .loop _ kind => kind.typeName

/-- The name of the type of a value, with the module of those types that are named by it. -/
def longTypeName : Value → String
  | .atom _ (.date _) => "datetime.date"
  | .atom _ (.moment _) => "datetime.datetime"
  | .atom _ (.decimal _) => "decimal.Decimal"
  | v => v.typeName

end Value

/-- Whether an atom counts as true: all do but the absent value, zeros and empty texts. -/
def Atom.truthy : Atom → Bool
  | null => false
  | bool b => b
  | int i => i ≠ 0
  | float x => !x.isZero
  | text s => s ≠ ""
  | bytes _ content => !content.isEmpty
  | decimal (.finite _ c _) => c ≠ 0
  | decimal _ | date _ | moment _ | uuid _ | classRef .. | foreign _ => true

namespace Value

/-- Whether a value counts as true. -/
def truthy : Value → Bool
  | .atom _ a => a.truthy
  | .seq _ _ items => !items.isEmpty
  | .dict _ entries => !entries.isEmpty
  | .loop .. => true

/-- The value, or another one where it does not count as true. -/
def orElse (v other : Value) : Value := if v.truthy then v else other

/-- A text counts as true exactly if it is not empty. -/
@[simp] theorem truthy_text (s : String) : (text s).truthy = decide (s ≠ "") := rfl

/-- The absent value does not count as true. -/
@[simp] theorem truthy_null : null.truthy = false := rfl

end Value

end EntityGraph
