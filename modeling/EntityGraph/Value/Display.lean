import EntityGraph.Calendar.Iso
import EntityGraph.Number.FloatText
import EntityGraph.Value.Basic

/-!
# Texts of values

A value has two texts. `inspect` is the form that stands in listings: texts are quoted and every
type is told apart. `display` is the form that stands inside sentences: a text is itself, a date is
its ISO text. Both fail only where a foreign object fails to give its text or an integer is too
long to be written.
-/

namespace EntityGraph

open EntityGraph.Number EntityGraph.Text

/-- The decimal text of an integer, unless it is too long. -/
def intText (i : Int) : Except Fault String :=
  if Integer.isTooLong i then .error .tooLong else .ok (String.ofList (decimalInt i))

/-- The text of a class. Classes of the language's own module go by their name alone. -/
def classText (module name : String) : String :=
  "<class '" ++ (if module = "builtins" then name else module ++ "." ++ name) ++ "'>"

/-- The text of a truth value. -/
def boolText (b : Bool) : String := if b then "True" else "False"

/-- The text of a foreign object, unless asking for it fails. -/
def Foreign.inspect (f : Foreign) : Except Fault String :=
  match f.textFault with
  | some m => .error (.noText m)
  | none => .ok f.text

/-- The form of an atom in listings. In a byte string that can grow, apostrophes are always
escaped. -/
def Atom.inspect : Atom → Except Fault String
  | null => .ok "None"
  | bool b => .ok (boolText b)
  | int i => intText i
  | float x => .ok (x.text .plain)
  | text s => .ok (quoted s)
  | bytes growable content =>
    .ok (if growable then "bytearray(" ++ quotedBytes [apostrophe] content ++ ")"
      else quotedBytes [] content)
  | date d => .ok d.shown
  | moment m => .ok m.shown
  | decimal d => .ok ("Decimal('" ++ d.text ++ "')")
  | uuid u => .ok ("UUID('" ++ u.text ++ "')")
  | classRef module name => .ok (classText module name)
  | foreign f => f.inspect

/-- The form of an atom inside a sentence. -/
def Atom.display : Atom → Except Fault String
  | text s => .ok s
  | date d => .ok d.text
  | moment m => .ok m.spacedText
  | decimal d => .ok d.text
  | uuid u => .ok u.text
  | a => a.inspect

/-- The brackets around the members of a sequence. -/
def SeqKind.bracket (kind : SeqKind) (members : List String) : String :=
  let inside := ", ".intercalate members
  let set := "\x7b" ++ inside ++ "\x7d"
  match kind, members with
  | list, _ => "[" ++ inside ++ "]"
  | tuple, [_] => "(" ++ inside ++ ",)"
  | tuple, _ => "(" ++ inside ++ ")"
  | SeqKind.set, [] => "set()"
  | SeqKind.set, _ => set
  | frozenset, [] => "frozenset()"
  | frozenset, _ => "frozenset(" ++ set ++ ")"

/-- What stands for a collection inside of itself. -/
def LoopKind.inspect : LoopKind → String
  | list => "[...]"
  | tuple => "(...)"
  | dict => "\x7b...\x7d"

namespace Value

mutual

/-- The form of a value in listings. -/
def inspect : Value → Except Fault String
  | .atom _ a => a.inspect
  | .seq _ kind items => (inspectItems items).map kind.bracket
  | .dict _ entries =>
    (inspectEntries entries).map fun texts ↦ "\x7b" ++ ", ".intercalate texts ++ "\x7d"
  | .loop _ kind => .ok kind.inspect

/-- The forms of the members of a sequence. -/
def inspectItems : List Value → Except Fault (List String)
  | [] => .ok []
  | v :: vs => do
    let text ← v.inspect
    let texts ← inspectItems vs
    return text :: texts

/-- The forms of the entries of a mapping. -/
def inspectEntries : List (Value × Value) → Except Fault (List String)
  | [] => .ok []
  | (k, v) :: es => do
    let key ← k.inspect
    let value ← v.inspect
    let texts ← inspectEntries es
    return (key ++ ": " ++ value) :: texts

end

/-- The form of a value inside a sentence. -/
def display : Value → Except Fault String
  | .atom _ a => a.display
  | v => v.inspect

/-- A text displays as itself. -/
@[simp] theorem display_text (s : String) : (text s).display = .ok s := rfl

end Value

end EntityGraph
