import EntityGraph.Bytes.Base64
import EntityGraph.Number.FloatReader
import EntityGraph.Text.Lowercase
import EntityGraph.Value.Basic
import EntityGraph.Yaml.Cursor
import EntityGraph.Yaml.Tag
import EntityGraph.Yaml.Timestamp

/-!
# Values of YAML scalars

The value that the text of a scalar spells, by the kind of the scalar.
-/

namespace EntityGraph.Yaml

open EntityGraph.Number EntityGraph.Text

namespace Scalar

/-- A scalar that has no value because its text is used beyond its end. -/
def tooShort : Error := .scalar .index "string index out of range"

/-- A scalar that has no value because a mapping stands for its text. -/
def notText : Error := .scalar .type "expected string or bytes-like object, got 'list'"

/-- The text of a number without low lines. -/
def dropLines (cs : List Char) : List Char := cs.filter (· ≠ '_')

/-- The number that digits of base sixty make, the last digit first. -/
def sexagesimal : List Int → Int
  | [] => 0
  | d :: ds => d + 60 * sexagesimal ds

/-- The integer that a text without sign and low lines spells. -/
def magnitude (cs : List Char) : Result Int :=
  match cs with
  | ['0'] => .ok 0
  | '0' :: 'b' :: ds => integer 2 ds
  | '0' :: 'x' :: ds => integer 16 ds
  | '0' :: _ => integer 8 cs
  | [] => .error tooShort
  | _ =>
    if cs.contains ':' then
      ((Tag.atColons cs).mapM (integer 10)).map fun ds ↦ sexagesimal ds.reverse
    else integer 10 cs

/-- The integer that a text spells. -/
def int (s : String) : Result Int :=
  let cs := dropLines s.toList
  match cs with
  | [] => .error tooShort
  | '-' :: _ => (magnitude (Tag.unsigned cs)).map (-·)
  | _ => magnitude (Tag.unsigned cs)

/-- The binary number that a decimal text spells. -/
def decimal (cs : List Char) : Result Binary64 :=
  let s := String.ofList cs
  match Binary64.read? s with
  | some x => .ok x
  | none => .error (.scalar .value ("could not convert string to float: " ++ quoted s))

/-- A power of sixty as a binary number, which it may be too large for. -/
def sixtyToThe (power : Nat) : Result Binary64 :=
  match Binary64.ofNat (Nat.pow 60 power) with
  | .infinite _ => .error (.scalar .overflow "int too large to convert to float")
  | x => .ok x

/-- The sum of numbers times the powers of sixty from a power on. -/
def sexagesimalSum (power : Nat) (sum : Binary64) : List Binary64 → Result Binary64
  | [] => .ok sum
  | x :: xs => do
    let weight ← sixtyToThe power
    sexagesimalSum (power + 1) (sum.add (x.mul weight)) xs

/-- The binary number that a text spells, as an occurrence of an object. The word for the number
that is none always gives one object. -/
def float (id : Identity) (s : String) : Result Value :=
  let cs := lowercase (dropLines s.toList)
  let negative := cs.head? = some '-'
  let atom (id : Identity) (x : Binary64) : Value :=
    .atom id (.float (if negative then x.neg else x))
  let rest := Tag.unsigned cs
  if cs.isEmpty then .error tooShort
  else if rest = ".inf".toList then .ok (atom id (.infinite false))
  else if rest = ".nan".toList then .ok (atom .yamlNaN .nan)
  else if rest.contains ':' then do
    let xs ← (Tag.atColons rest).mapM decimal
    (sexagesimalSum 0 (.zero false) xs.reverse).map (atom id)
  else (decimal rest).map (atom id)

/-- The truth value that a word stands for. -/
def bool (s : String) : Result Bool :=
  let word := String.ofList (lowercase s.toList)
  match Tag.boolWords.lookup word with
  | some b => .ok b
  | none => .error (.scalar .key (quoted word))

/-- The date or the moment that a text spells, as an occurrence of an object. -/
def timestamp (id : Identity) (s : String) : Result Value :=
  let failed (e : Calendar.Error) : Error := .scalar .value (e.message s)
  match Timestamp.read? (Tag.dropLastBreak s.toList) with
  | none => .error (.scalar .member "'NoneType' object has no attribute 'groupdict'")
  | some t =>
    match t.time with
    | none => (t.date.mapError failed).map fun d ↦ .atom id (.date d)
    | some p => ((t.moment p).mapError failed).map fun m ↦ .atom id (.moment m)

/-- The value of a scalar by its tag. -/
def value (id : Identity) (tag : Tag) (s : String) : Result Value :=
  match tag with
  | .null => .ok .null
  | .bool => (bool s).map .bool
  | .int => (int s).map .int
  | .float => float id s
  | .timestamp => timestamp id s
  | .text => .ok (.text s)
  | .binary =>
    match Bytes.Base64.decode false s.toList with
    | .ok content => .ok (.atom id (.bytes false content))
    | .error _ => malformed
  | _ => malformed

end Scalar

end EntityGraph.Yaml
