import EntityGraph.Bytes.Base64
import EntityGraph.Json.Writer

/-!
# Canonical values

The form that values of unknown kind take wherever text has to be deterministic. It is made of
absent values, truth values, numbers, texts, lists, and mappings whose keys are texts. Sets become
lists in the order of their members' JSON texts, and whatever has no such form is replaced by the
text that it has in listings. Only what contains itself has no form for its depth.
-/

namespace EntityGraph.Value

/-- The text that a key becomes. A key that is no text is marked with the name of its type. -/
def canonicalKey (key : Value) : Except Fault String :=
  match key.text? with
  | some s => .ok s
  | none => key.inspect.map fun shown ↦ key.typeName ++ ":" ++ shown

/-- The text by which the members of a set are ordered. -/
def sortText (v : Value) : Except Fault String := Json.text .sortedLine v

/-- Members paired with the texts that they are ordered by. -/
def withSortTexts : List Value → Except Fault (List (String × Value))
  | [] => .ok []
  | v :: vs => do
    let key ← v.sortText
    let rest ← withSortTexts vs
    return (key, v) :: rest

/-- Members in the order of their JSON texts. -/
def sortMembers (members : List Value) : Except Fault (List Value) := do
  let keyed ← withSortTexts members
  return (keyed.mergeSort fun a b ↦ !(b.1 < a.1)).map (·.2)

/-- The form of an atom. -/
def canonicalAtom (v : Value) : Atom → Except Fault Value
  | .null | .bool _ | .int _ | .float _ | .text _ => .ok v
  | .bytes _ content => .ok (text (Bytes.Base64.encode content))
  | _ => v.inspect.map text

mutual

/-- The canonical form of a value. -/
def canonical : Value → Except Fault Value
  | v@(.atom _ a) => canonicalAtom v a
  | .seq _ kind items => do
    let members ← canonicalItems items
    match kind with
    | .list | .tuple => return list members
    | .set | .frozenset => (sortMembers members).map list
  | .dict _ entries => do
    let forms ← canonicalEntries entries
    return ofEntries .fresh forms
  | .loop .. => .error .endless

/-- The canonical forms of the members of a sequence. -/
def canonicalItems : List Value → Except Fault (List Value)
  | [] => .ok []
  | v :: vs => do
    let form ← v.canonical
    let forms ← canonicalItems vs
    return form :: forms

/-- The canonical forms of the entries of a mapping. -/
def canonicalEntries : List (Value × Value) → Except Fault (List (Value × Value))
  | [] => .ok []
  | (k, v) :: es => do
    let key ← k.canonicalKey
    let form ← v.canonical
    let forms ← canonicalEntries es
    return (text key, form) :: forms

end

/-- A text is its own canonical form. -/
@[simp] theorem canonical_text (s : String) : (text s).canonical = .ok (text s) := rfl

end EntityGraph.Value
