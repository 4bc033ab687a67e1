import EntityGraph.Json.Quoted
import EntityGraph.Value.Display
import EntityGraph.Value.Use

/-!
# Writing JSON

The JSON text of a value. Lists and tuples become arrays and mappings become objects, in their
order or sorted by key; what JSON has no form for is refused, or written as the string it displays
as where the style says so.
-/

namespace EntityGraph.Json

open EntityGraph.Number EntityGraph.Text

/-- What the levels of a text are indented by, as callers say it. -/
inductive Indent
  /-- By nothing: the text is on one line. -/
  | none
  /-- By a number of spaces, of which a negative one is no spaces. -/
  | width (n : Int)
  | unit (text : String)
  deriving DecidableEq, Repr

namespace Indent

/-- As many spaces as an integer says, unless it is no size or there is no memory for them. -/
def spaces (n : Int) : Except Fault String :=
  if n < -Value.sizeBound ∨ Value.sizeBound ≤ n then .error .hugeSize
  else if Value.memoryBound < n then .error .noMemory
  else .ok (String.ofList (List.replicate n.toNat ' '))

/-- The text that every level is indented by. -/
def unit? : Indent → Except Fault (Option String)
  | none => .ok Option.none
  | width n => (spaces n).map some
  | unit text => .ok (some text)

end Indent

/-- How a text is laid out. -/
structure Style where
  /-- What separates members on one line. -/
  comma : String
  /-- What separates a key from its value. -/
  colon : String
  /-- The text that every level is indented by; on one line if there is none. -/
  indent : Option String
  /-- Whether the entries of an object are sorted by key. -/
  sorted : Bool
  /-- Whether values without a form are written as the strings they display as. -/
  lenient : Bool

namespace Style

/-- One line, with a space after commas and colons. -/
def line : Style := ⟨", ", ": ", none, false, false⟩

/-- One line, with a space after commas and colons, keys sorted. -/
def sortedLine : Style := { line with sorted := true }

/-- One line without any space, keys sorted. -/
def compact : Style := ⟨",", ":", none, true, false⟩

/-- Lines indented by a text. -/
def indented (unit : String) : Style := ⟨",", ": ", some unit, false, false⟩

/-- Lines indented by two spaces, with strings for values without a form. -/
def document : Style := { indented "  " with lenient := true }

/-- The break before the members of a level. -/
def lineBreak (s : Style) (level : Nat) : String :=
  match s.indent with
  | none => ""
  | some unit => "\n" ++ String.join (List.replicate level unit)

/-- Members within brackets, each on a line of its own if the style has lines. -/
def enclose (s : Style) (level : Nat) (left right : String) (members : List String) : String :=
  if members.isEmpty then left ++ right
  else
    left ++ s.lineBreak (level + 1) ++ (s.comma ++ s.lineBreak (level + 1)).intercalate members ++
      s.lineBreak level ++ right

/-- The brackets of an array. -/
def array (s : Style) (level : Nat) (members : List String) : String :=
  s.enclose level "[" "]" members

/-- The braces of an object. -/
def object (s : Style) (level : Nat) (members : List String) : String :=
  s.enclose level "\x7b" "\x7d" members

end Style

/-- The form of an atom; nothing if JSON has none for it. -/
def atomText? : Atom → Option (Except Fault String)
  | .null => some (.ok "null")
  | .bool b => some (.ok (if b then "true" else "false"))
  | .int i => some (intText i)
  | .float x => some (.ok (x.text .json))
  | .text s => some (.ok (quoted s))
  | _ => none

/-- The string that a key is written as. -/
def keyText (style : Style) (key : Value) : Except Fault String :=
  match key with
  | .atom _ (.text s) => .ok s
  | .atom _ a =>
    match atomText? a with
    | some text => text
    | none => .error (.badKey (if style.indent.isNone then key.longTypeName else key.typeName))
  | _ => .error (.badKey key.typeName)

/-- Whether an atom is a decimal number that is none. -/
def isDecimalNaN : Atom → Bool
  | .decimal (.nan ..) => true
  | _ => false

/-- Whether values of two types can be put in order. Decimal numbers that are none can be compared
with no number. -/
def checkOrder (v w : Value) : Except Fault Unit :=
  let refused : Except Fault Unit := .error (.unordered "<" v.longTypeName w.longTypeName)
  match v, w with
  | .atom _ a, .atom _ b =>
    if a.isNumber && b.isNumber then
      if isDecimalNaN a || isDecimalNaN b then .error .unorderedNumber else .ok ()
    else
      match a, b with
      | .null, _ | .classRef .., _ | .foreign _, _ => refused
      | _, _ => if a.typeName = b.typeName then .ok () else refused
  | _, _ => if v.typeName = w.typeName then .ok () else refused

/-- Checks that every key can be put in order with the one before it. -/
def checkOrders : List Value → Except Fault Unit
  | v :: w :: rest => do checkOrder w v; checkOrders (w :: rest)
  | _ => .ok ()

/-- Whether one key comes before another. -/
def keyLess (v w : Value) : Bool :=
  match v, w with
  | .atom _ (.text s), .atom _ (.text t) => s < t
  | .atom _ a, .atom _ b =>
    match a.numeral?, b.numeral? with
    | some m, some n => m.less n
    | _, _ => false
  | _, _ => false

/-- Written entries in the order of the style. -/
def orderEntries (style : Style) (entries : List (Value × Except Fault String)) :
    Except Fault (List (Value × Except Fault String)) :=
  if style.sorted then do
    checkOrders (entries.map (·.1))
    return entries.mergeSort fun e f ↦ !keyLess f.1 e.1
  else .ok entries

/-- The members of an object: each key with its value, the first fault in order if there is any. -/
def objectMembers (style : Style) :
    List (Value × Except Fault String) → Except Fault (List String)
  | [] => .ok []
  | (key, value) :: rest => do
    let name ← keyText style key
    let text ← value
    let texts ← objectMembers style rest
    return (quoted name ++ style.colon ++ text) :: texts

mutual

/-- The text of a value at a level of nesting. -/
def write (style : Style) (level : Nat) : Value → Except Fault String
  | v@(.atom _ a) =>
    match atomText? a with
    | some text => text
    | none => if style.lenient then v.display.map quoted else .error (.notWritable v.typeName)
  | v@(.seq _ kind items) =>
    match kind with
    | .list | .tuple => (writeItems style (level + 1) items).map (style.array level)
    | .set | .frozenset =>
      if style.lenient then v.display.map quoted else .error (.notWritable v.typeName)
  | .dict _ entries => do
    let ordered ← orderEntries style (writeEntries style (level + 1) entries)
    let members ← objectMembers style ordered
    return style.object level members
  | .loop .. => .error .circular

/-- The texts of the members of an array. -/
def writeItems (style : Style) (level : Nat) : List Value → Except Fault (List String)
  | [] => .ok []
  | v :: vs => do
    let text ← write style level v
    let texts ← writeItems style level vs
    return text :: texts

/-- The entries of an object with the texts of their values. -/
def writeEntries (style : Style) (level : Nat) :
    List (Value × Value) → List (Value × Except Fault String)
  | [] => []
  | (k, v) :: es => (k, write style level v) :: writeEntries style level es

end

/-- The JSON text of a value. -/
def text (style : Style) (v : Value) : Except Fault String := write style 0 v

end EntityGraph.Json
