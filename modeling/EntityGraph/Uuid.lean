import EntityGraph.Number.Integer

/-!
# UUIDs

Identifiers of 128 bits, written as five groups of hexadecimal digits. Reading accepts the groups
in any arrangement of hyphens, inside braces and behind the prefixes of a URN.
-/

namespace EntityGraph

open EntityGraph.Text EntityGraph.Number

/-- An identifier of 128 bits. -/
structure Uuid where
  bits : BitVec 128
  deriving DecidableEq, Repr

namespace Uuid

/-- The characters of an identifier: groups of 8, 4, 4, 4 and 12 digits with hyphens between. -/
def chars (u : Uuid) : List Char :=
  let h := hex 32 u.bits.toNat
  let group (start count : Nat) := (h.drop start).take count
  group 0 8 ++ '-' :: group 8 4 ++ '-' :: group 12 4 ++ '-' :: group 16 4 ++ '-' :: group 20 12

/-- The text of an identifier. -/
def text (u : Uuid) : String := String.ofList u.chars

/-- Why a text is not an identifier. -/
inductive ReadError
  /-- Not thirty-two characters are left after hyphens, braces and prefixes. -/
  | badlyFormed
  /-- The thirty-two characters that are left spell no hexadecimal number. -/
  | notHexadecimal (rest : String)
  deriving DecidableEq, Repr

/-- A text without any occurrence of a word. -/
def removeAll (word : List Char) : List Char → List Char
  | [] => []
  | c :: cs =>
    if word.isPrefixOf (c :: cs) then removeAll word (cs.drop (word.length - 1))
    else c :: removeAll word cs
termination_by cs => cs.length
decreasing_by all_goals simp only [List.length_drop, List.length_cons]; omega

/-- Whether a character is a brace. -/
def isBrace (c : Char) : Bool := c.toNat = 0x7B || c.toNat = 0x7D

/-- The digits of an identifier text: without prefixes, braces around it and hyphens. -/
def digitsOf (cs : List Char) : List Char :=
  let cs := removeAll "uuid:".toList (removeAll "urn:".toList cs)
  (((cs.dropWhile isBrace).reverse.dropWhile isBrace).reverse).filter (· ≠ '-')

/-- The identifier that a text spells. -/
def read (s : String) : Except ReadError Uuid :=
  let digits := digitsOf s.toList
  if digits.length ≠ 32 then .error .badlyFormed
  else
    let text := String.ofList digits
    match Integer.read 16 text with
    | .ok n => .ok ⟨BitVec.ofInt 128 n⟩
    | .error _ => .error (.notHexadecimal text)

/-- The message of an error. -/
def ReadError.message : ReadError → String
  | badlyFormed => "badly formed hexadecimal UUID string"
  | notHexadecimal rest => Integer.ReadError.malformed.message 16 rest

end Uuid

end EntityGraph
