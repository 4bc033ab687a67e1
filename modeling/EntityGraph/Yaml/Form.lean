import EntityGraph.Bytes.Base64
import EntityGraph.Value.Display
import EntityGraph.Yaml.Tag

/-!
# Written forms of values

The tree of nodes that a value is written as. Every kind of value has a tag; a kind that YAML does
not know is written as a call that makes it again, or as the state of an object. An object that
occurs again is written once and referred to afterwards.
-/

namespace EntityGraph.Yaml

open EntityGraph.Number

/-- What tells objects apart that may be referred to. -/
inductive ObjectKey
  | known (id : Identity)
  | classRef (module name : String)
  deriving DecidableEq, Repr

/-- A node as it is written. -/
inductive Form
  | scalar (key : Option ObjectKey) (tag : String) (isLiteral : Bool) (text : String)
  | seq (key : Option ObjectKey) (tag : String) (items : List Form)
  | map (key : Option ObjectKey) (tag : String) (entries : List (Form × Form))
  /-- An object that was written before. -/
  | again (key : ObjectKey)

instance : Inhabited Form := ⟨.scalar none "null" false "null"⟩

namespace Form

/-- What tells an object from others; nothing for the kinds of values that are never referred to and
for objects that occur once. -/
def keyOf : Value → Option ObjectKey
  | .atom _ .null | .atom _ (.bool _) | .atom _ (.int _) | .atom _ (.float _) | .atom _ (.text _) |
    .atom _ (.bytes false _) | .seq _ .tuple [] => none
  | .atom _ (.classRef module name) => some (.classRef module name)
  | v => if v.identity = .fresh then none else some (.known v.identity)

/-- A scalar that is referred to by nothing. -/
def plain (tag text : String) : Form := .scalar none tag false text

/-- The text of a byte string read as one character a byte. -/
def latinText (content : List UInt8) : String :=
  String.ofList (content.map fun b ↦ Char.ofNat b.toNat)

/-- The tag of a call of a function. -/
def callTag (function : String) : String := "python/object/apply:" ++ function

/-- The form of an atom. -/
def ofAtom (key : Option ObjectKey) : Atom → Except Fault Form
  | .null => .ok (.scalar key "null" false "null")
  | .bool b => .ok (.scalar key "bool" false (if b then "true" else "false"))
  | .int i => (intText i).map (.scalar key "int" false)
  | .float x => .ok (.scalar key "float" false (x.text .yaml))
  | .text s => .ok (.scalar key "str" false s)
  | .bytes false content =>
    .ok (.scalar key "binary" true (Bytes.Base64.encodeInLines content))
  | .bytes true content =>
    .ok (.seq key (callTag "builtins.bytearray")
      (if content.isEmpty then [] else [plain "str" (latinText content), plain "str" "latin-1"]))
  | .date d => .ok (.scalar key "timestamp" false d.text)
  | .moment m => .ok (.scalar key "timestamp" false m.spacedText)
  | .decimal d => .ok (.seq key (callTag "decimal.Decimal") [plain "str" d.text])
  | .uuid u =>
    .ok (.map key "python/object:uuid.UUID"
      [(plain "str" "int", plain "int" (String.ofList (Text.decimal u.bits.toNat)))])
  | .classRef module name => .ok (.scalar key ("python/name:" ++ module ++ "." ++ name) false "")
  | .foreign f => f.inspect.map fun text ↦ .map key ("python/object:" ++ f.typeName)
      [(plain "str" "text", plain "str" text)]

/-- The form of a sequence of a kind. -/
def ofSeq (key : Option ObjectKey) (kind : SeqKind) (items : List Form) : Form :=
  match kind with
  | .list => .seq key "seq" items
  | .tuple => .seq key "python/tuple" items
  | .set => .map key "set" (items.map fun f ↦ (f, plain "null" "null"))
  | .frozenset => .seq key (callTag "builtins.frozenset") [.seq none "seq" items]

mutual

/-- The form of a value after objects that were written before, and the objects written then. -/
def ofValue (seen : List ObjectKey) (v : Value) : Except Fault (Form × List ObjectKey) :=
  let key := keyOf v
  if key.any seen.contains then .ok ((key.map again).getD default, seen)
  else
    let seen := key.toList ++ seen
    match v with
    | .atom _ a => (ofAtom key a).map fun f ↦ (f, seen)
    | .seq _ kind items =>
      (ofItems seen items).map fun (fs, seen) ↦ (ofSeq key kind fs, seen)
    | .dict _ entries =>
      (ofEntries seen entries).map fun (fs, seen) ↦ (.map key "map" fs, seen)
    | .loop .. => .ok (plain "null" "null", seen)

/-- The forms of the members of a sequence. -/
def ofItems (seen : List ObjectKey) : List Value → Except Fault (List Form × List ObjectKey)
  | [] => .ok ([], seen)
  | v :: vs => do
    let (f, seen) ← ofValue seen v
    let (fs, seen) ← ofItems seen vs
    return (f :: fs, seen)

/-- The forms of the entries of a mapping. -/
def ofEntries (seen : List ObjectKey) :
    List (Value × Value) → Except Fault (List (Form × Form) × List ObjectKey)
  | [] => .ok ([], seen)
  | (k, v) :: es => do
    let (fk, seen) ← ofValue seen k
    let (fv, seen) ← ofValue seen v
    let (fs, seen) ← ofEntries seen es
    return ((fk, fv) :: fs, seen)

end

mutual

/-- The objects that a form refers to, in the order of the references. -/
def references : Form → List ObjectKey
  | .scalar .. => []
  | .seq _ _ items => itemReferences items
  | .map _ _ entries => entryReferences entries
  | .again key => [key]

/-- The objects that forms refer to. -/
def itemReferences : List Form → List ObjectKey
  | [] => []
  | f :: fs => f.references ++ itemReferences fs

/-- The objects that pairs of forms refer to. -/
def entryReferences : List (Form × Form) → List ObjectKey
  | [] => []
  | (k, v) :: es => k.references ++ v.references ++ entryReferences es

end

/-- The objects that are given a name, in the order of their names: every object that is referred
to, by its first reference. -/
def anchors (f : Form) : List ObjectKey :=
  f.references.foldl (fun keys k ↦ if keys.contains k then keys else keys ++ [k]) []

end Form

end EntityGraph.Yaml
