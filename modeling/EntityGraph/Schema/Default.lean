import EntityGraph.Failure
import EntityGraph.Value.Canonical

/-!
# Defaults

The default of an attribute has the attribute's type. In documents it has an encoded form: dates
are ISO texts, decimals and UUIDs are texts, byte strings are base64, and everything else stands as
it is.
-/

namespace EntityGraph

open EntityGraph.Calendar EntityGraph.Number EntityGraph.Text

namespace ScalarType

/-- Whether an atom has a type. -/
def admitsAtom : ScalarType → Atom → Bool
  | string, .text _ | uri, .text _ => true
  | int16, .int _ | int32, .int _ | int64, .int _ => true
  | decimal, .decimal _ | decimal, .int _ => true
  | double, .int _ | double, .float _ | float, .int _ | float, .float _ => true
  | boolean, .bool _ => true
  | date, .date _ | date, .moment _ => true
  | binary, .bytes .. => true
  | uuid, .uuid _ => true
  | transformable, _ | objectReference, _ => true
  | _, _ => false

/-- Whether a value has a type. An opaque type admits every value. -/
def admits (type : ScalarType) : Value → Bool
  | .atom _ a => type.admitsAtom a
  | _ => type.isOpaque

/-- The least natural number that does not fit into a number of bits, sign included. -/
def bitBound (bits : Nat) : Int := Nat.pow 2 (bits - 1)

/-- Whether an integer is within a number of bits, sign included. -/
def inBits (bits : Nat) (i : Int) : Bool := -bitBound bits ≤ i && i ≤ bitBound bits - 1

/-- The range of a number of bits, shown with the integer that is outside of it. -/
def rangeReason (bits : Nat) (i : Int) : Except Fault String := do
  let shown ← intText i
  let text (i : Int) : String := String.ofList (decimalInt i)
  return shown ++ " outside [" ++ text (-bitBound bits) ++ ", " ++ text (bitBound bits - 1) ++ "]"

/-- Checks that the default of the attribute of a name has a type. An absent default always does;
an integer has to fit into the bits of its type. -/
def checkDefault (name : Value) (type : ScalarType) (v : Value) : Except Failure Unit := do
  let mismatch (reason : String) : SchemaError := .typeMismatch name type.tag v.typeName reason
  if v.isNull then return
  if !type.admits v then (mismatch "").raise
  match type.bits?, v.int? with
  | some bits, some i =>
    if !inBits bits i then
      let reason ← rangeReason bits i
      (mismatch reason).raise
  | _, _ => return

/-- The encoded form of a default. -/
def encode (type : ScalarType) (v : Value) : Except Fault Value :=
  if v.isNull then .ok .null
  else
    match type, v with
    | date, .atom _ (.date d) => .ok (.text d.text)
    | date, .atom _ (.moment m) => .ok (.text m.text)
    | date, v => .error (v.lacks "isoformat")
    | binary, v => v.byteString.map fun content ↦ .text (Bytes.Base64.encode content)
    | uuid, v | decimal, v => v.display.map .text
    | _, v => .ok v

/-- The number of characters of a text that names a day without a time. -/
def dateLength : Nat := 10

/-- The default that a text spells, or the reason why it spells none. -/
def decodeText (type : ScalarType) (v : Value) (s : String) : Except String Value :=
  let cs := s.toList
  match type with
  | date =>
    if cs.length = dateLength then
      match Iso.date cs with
      | .ok d => .ok (.atom .fresh (.date d))
      | .error e => .error (e.message s)
    else
      match Iso.moment cs with
      | .ok m => .ok (.atom .fresh (.moment m))
      | .error e => .error (e.message s)
  | binary =>
    match Bytes.Base64.decode true cs with
    | .ok content => .ok (.atom .fresh (.bytes false content))
    | .error e => .error e.message
  | uuid =>
    match Uuid.read s with
    | .ok u => .ok (.atom .fresh (.uuid u))
    | .error e => .error e.message
  | decimal =>
    match Decimal.read s with
    | .ok d => .ok (.atom .fresh (.decimal d))
    | .error e => .error e.message
  | _ => .ok v

/-- The decimal number that the text of a binary number spells. -/
def decimalOfFloat (x : Binary64) : Decimal :=
  match Decimal.read (x.text .plain) with
  | .ok d => d
  | .error _ => .nan false false 0

/-- The default that an encoded form stands for. Binary numbers become decimal ones by their text;
values that are no text are typed already. -/
def decode (type : ScalarType) (v : Value) : Except Failure Value :=
  match v with
  | .atom _ (.float x) =>
    if type = decimal then .ok (.atom .fresh (.decimal (decimalOfFloat x))) else .ok v
  | .atom _ (.text s) =>
    match type.decodeText v s with
    | .ok w => .ok w
    | .error reason => (Refusal.undecodable s type reason).raise
  | _ => .ok v

/-- The type that a tag names. -/
def read (tag : Value) : Except Failure ScalarType :=
  match tag.text?.bind ofTag? with
  | some type => .ok type
  | none => do
    let shown ← tag.display
    (Refusal.unknownScalarType shown).raise

/-- Whatever is transformable may be any value. -/
theorem checkDefault_transformable (name v : Value) :
    transformable.checkDefault name v = .ok () := by
  have admitted : transformable.admits v = true := by cases v <;> rfl
  rw [checkDefault, admitted]
  cases v.isNull <;> rfl

/-- A default that is there and has been checked has its type. -/
theorem admits_of_checkDefault {name v : Value} {type : ScalarType}
    (typed : type.checkDefault name v = .ok ()) (some : v.isNull = false) :
    type.admits v = true := by
  cases admitted : type.admits v with
  | true => rfl
  | false =>
    rw [checkDefault, some, admitted] at typed
    simp [SchemaError.raise, bind, Except.bind] at typed

/-- The tag of a type is read as the type. -/
@[simp] theorem read_tag (type : ScalarType) : read (.text type.tag) = .ok type := by
  simp [read, Value.text?, Value.text]

end ScalarType

namespace DeleteRule

/-- The rule that a tag names. -/
def read (tag : Value) : Except Failure DeleteRule :=
  match tag.text?.bind ofTag? with
  | some rule => .ok rule
  | none => do
    let shown ← tag.display
    (Refusal.unknownDeleteRule shown).raise

/-- The tag of a rule is read as the rule. -/
@[simp] theorem read_tag (rule : DeleteRule) : read (.text rule.tag) = .ok rule := by
  simp [read, Value.text?, Value.text]

end DeleteRule

end EntityGraph
