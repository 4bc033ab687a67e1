import EntityGraph.Number.Binary64
import EntityGraph.Text.Quoted
import EntityGraph.Value.Use

/-!
# Reading JSON

The value that a JSON text spells. Besides the standard grammar the words for infinities and for
the number that is none are read. A later entry of an object replaces an earlier one under the
same key. Escaped UTF-16 units that are no part of a pair become the replacement character.

Every reader takes the characters ahead and their position in the text, and returns what it read
with what is then ahead.
-/

namespace EntityGraph.Json

open EntityGraph.Number EntityGraph.Text

/-- What was due at a place of a text. -/
inductive Due
  | value
  | propertyName
  | colon
  | comma
  | stringEnd
  | character
  | escape
  | unitEscape
  | textEnd
  | noByteOrderMark
  deriving DecidableEq, Repr

/-- Why a text is not JSON. -/
inductive ReadError
  /-- The text breaks the grammar at a position. -/
  | grammar (due : Due) (position : Nat)
  /-- An integer has this many digits, above the limit. -/
  | tooLong (digits : Nat)
  deriving DecidableEq, Repr

/-- The words that name what was due. -/
def Due.message : Due → String
  | value => "Expecting value"
  | propertyName => "Expecting property name enclosed in double quotes"
  | colon => "Expecting ':' delimiter"
  | comma => "Expecting ',' delimiter"
  | stringEnd => "Unterminated string starting at"
  | character => "Invalid control character at"
  | escape => "Invalid \\escape"
  | unitEscape => "Invalid \\uXXXX escape"
  | textEnd => "Extra data"
  | noByteOrderMark => "Unexpected UTF-8 BOM (decode using utf-8-sig)"

/-- The line and the column of a position, both counted from one. -/
def place (cs : List Char) (position : Nat) : Nat × Nat :=
  let before := cs.take position
  (before.count '\n' + 1, (before.reverse.takeWhile (· ≠ '\n')).length + 1)

/-- The message of an error, about the text that was read. -/
def ReadError.message (cs : List Char) : ReadError → String
  | .grammar due position =>
    let (line, column) := place cs position
    let number (n : Nat) : String := String.ofList (decimal n)
    due.message ++ ": line " ++ number line ++ " column " ++ number column ++ " (char " ++
      number position ++ ")"
  | .tooLong digits => (Integer.ReadError.tooLong digits).message 10 ""

/-- What is ahead in a text: the characters and the position of the first of them. -/
structure Ahead where
  chars : List Char
  position : Nat

namespace Ahead

/-- What is ahead after a number of characters. -/
def drop (n : Nat) (a : Ahead) : Ahead := ⟨a.chars.drop n, a.position + n⟩

/-- Whether a character is blank between tokens. -/
def isBlank (c : Char) : Bool := c = ' ' || c = '\t' || c = '\n' || c = '\r'

/-- What is ahead after blanks. -/
def skipBlanks (a : Ahead) : Ahead := a.drop (a.chars.takeWhile isBlank).length

/-- The refusal of a text at the place ahead. -/
def refuse {α : Type} (a : Ahead) (due : Due) : Except ReadError α :=
  .error (.grammar due a.position)

/-- What is ahead after a character that is due. -/
def expect (a : Ahead) (c : Char) (due : Due) : Except ReadError Ahead :=
  match a.chars with
  | d :: cs => if d = c then .ok ⟨cs, a.position + 1⟩ else a.refuse due
  | [] => a.refuse due

end Ahead

/-- The character of a short escape. -/
def shortEscape? (c : Char) : Option Char :=
  if c = quotationMark ∨ c = backslash ∨ c = '/' then some c
  else if c = 'b' then some (Char.ofNat 8)
  else if c = 'f' then some (Char.ofNat 12)
  else if c = 'n' then some '\n'
  else if c = 'r' then some '\r'
  else if c = 't' then some '\t'
  else none

/-- The number that four hexadecimal digits spell. -/
def unit? (cs : List Char) : Option Nat :=
  let digits := cs.take 4
  if digits.length = 4 then natIn? 16 digits else none

/-- Whether a unit is the first of a pair. -/
def isHighUnit (n : Nat) : Bool := 0xD800 ≤ n && n < 0xDC00

/-- Whether a unit is the second of a pair. -/
def isLowUnit (n : Nat) : Bool := 0xDC00 ≤ n && n < 0xE000

/-- The character of one unit. Half of a pair is no character, and the replacement character stands
for it. -/
def unitChar (n : Nat) : Char :=
  if isHighUnit n || isLowUnit n then Char.ofNat 0xFFFD else Char.ofNat n

/-- The character of a pair of units. -/
def pairChar (high low : Nat) : Char :=
  Char.ofNat (0x10000 + (high - 0xD800) * 0x400 + (low - 0xDC00))

/-- The character of a unit escape whose digits are ahead, and the number of characters it takes
behind the letter: a high unit takes the escape of a low unit along. -/
def unitEscape (cs : List Char) (position : Nat) : Except ReadError (Char × Nat) :=
  let refused (position : Nat) : Except ReadError (Char × Nat) :=
    .error (.grammar .unitEscape position)
  if cs.length ≤ 4 then refused position
  else
    match unit? cs with
    | none => refused position
    | some n =>
      let rest := cs.drop 4
      if isHighUnit n ∧ 6 < rest.length ∧ rest.take 2 = [backslash, 'u'] then
        match unit? (rest.drop 2) with
        | none => refused (position + 6)
        | some m => .ok (if isLowUnit m then (pairChar n m, 10) else (unitChar n, 4))
      else .ok (unitChar n, 4)

/-- The characters of a string up to its closing mark; `start` is the position of the opening
one. -/
def stringChars (fuel start : Nat) (a : Ahead) : Except ReadError (List Char × Ahead) :=
  let unended : Except ReadError (List Char × Ahead) := .error (.grammar .stringEnd start)
  match fuel, a.chars with
  | 0, _ => unended
  | _, [] => unended
  | fuel + 1, c :: cs =>
    if c = quotationMark then .ok ([], a.drop 1)
    else if c.toNat < 0x20 then a.refuse .character
    else if c ≠ backslash then
      (stringChars fuel start (a.drop 1)).map fun (text, rest) ↦ (c :: text, rest)
    else
      match cs with
      | [] => unended
      | 'u' :: ds => do
        let (d, count) ← unitEscape ds (a.position + 1)
        let (text, rest) ← stringChars fuel start (a.drop (2 + count))
        return (d :: text, rest)
      | d :: _ =>
        match shortEscape? d with
        | none => a.refuse .escape
        | some e => (stringChars fuel start (a.drop 2)).map fun (text, rest) ↦ (e :: text, rest)

/-- A string behind its opening mark. -/
def string (a : Ahead) : Except ReadError (String × Ahead) :=
  (stringChars (a.chars.length + 1) (a.position - 1) a).map fun (cs, rest) ↦
    (String.ofList cs, rest)

/-- The parts of a number text: sign, digits of the integer part, of the fraction and of the
exponent with its sign, the last two where they are there. -/
structure NumberParts where
  negative : Bool
  whole : List Char
  fraction : Option (List Char)
  exponent : Option (Bool × List Char)
  /-- The number of characters of the text. -/
  length : Nat

/-- The fraction behind a point, if a digit follows the point. -/
def fractionPart? : List Char → Option (List Char)
  | '.' :: cs =>
    let digits := cs.takeWhile isDigit
    if digits.isEmpty then none else some digits
  | _ => none

/-- The sign, the digits and the length of an exponent, if it has a digit. -/
def exponentPart? : List Char → Option (Bool × List Char × Nat)
  | c :: cs =>
    if c = 'e' ∨ c = 'E' then
      let signed := cs.head? = some '-' || cs.head? = some '+'
      let digits := (if signed then cs.drop 1 else cs).takeWhile isDigit
      if digits.isEmpty then none
      else some (cs.head? = some '-', digits, 1 + (if signed then 1 else 0) + digits.length)
    else none
  | [] => none

/-- The parts of the number ahead; nothing if there is none. -/
def numberParts? (cs : List Char) : Option NumberParts :=
  let negative := cs.head? = some '-'
  let cs := if negative then cs.drop 1 else cs
  let run := cs.takeWhile isDigit
  let whole := if run.head? = some '0' then ['0'] else run
  if whole.isEmpty then none
  else
    let rest := cs.drop whole.length
    let fraction := fractionPart? rest
    let fractionLength := (fraction.map (·.length + 1)).getD 0
    let exponent := exponentPart? (rest.drop fractionLength)
    some
      { negative, whole, fraction
        exponent := exponent.map fun (negative, digits, _) ↦ (negative, digits)
        length := (if negative then 1 else 0) + whole.length + fractionLength +
          (exponent.map (·.2.2)).getD 0 }

/-- The value of a number: an integer if it has neither fraction nor exponent. -/
def numberValue (p : NumberParts) : Except ReadError Value :=
  match p.fraction, p.exponent with
  | none, none =>
    if Integer.digitLimit < p.whole.length then .error (.tooLong p.whole.length)
    else
      let n := (nat? p.whole).getD 0
      .ok (.int (if p.negative then -n else n))
  | fraction, exponent =>
    let fraction := fraction.getD []
    let digits := (nat? (p.whole ++ fraction)).getD 0
    let shift : Int := match exponent with
      | some (negative, digits) =>
        let n : Int := (nat? digits).getD 0
        if negative then -n else n
      | none => 0
    .ok (.atom .fresh (.float (Binary64.ofScientific p.negative digits (shift - fraction.length))))

/-- The words that stand for values. -/
def words : List (String × Value) :=
  [("null", .null), ("true", .bool true), ("false", .bool false),
   ("NaN", .atom .jsonNaN (.float .nan)),
   ("Infinity", .atom .fresh (.float (.infinite false))),
   ("-Infinity", .atom .fresh (.float (.infinite true)))]

/-- A word or a number. -/
def scalar (a : Ahead) : Except ReadError (Value × Ahead) :=
  match words.find? fun (word, _) ↦ word.toList.isPrefixOf a.chars with
  | some (word, v) => .ok (v, a.drop word.length)
  | none =>
    match numberParts? a.chars with
    | none => a.refuse .value
    | some p => (numberValue p).map fun v ↦ (v, a.drop p.length)

mutual

/-- The value ahead. The fuel bounds the values that are read one inside or after another. -/
def value (fuel : Nat) (a : Ahead) : Except ReadError (Value × Ahead) :=
  match fuel with
  | 0 => a.refuse .value
  | fuel + 1 =>
    match a.chars with
    | [] => a.refuse .value
    | c :: _ =>
      let inside := a.drop 1
      if c = quotationMark then (string inside).map fun (s, rest) ↦ (.text s, rest)
      else if c.toNat = 0x7B then do
        let inside := inside.skipBlanks
        if (inside.chars.head?.map Char.toNat) = some 0x7D then
          return (.ofEntries .fresh [], inside.drop 1)
        let (entries, rest) ← entries fuel inside
        return (.ofEntries .fresh entries, rest)
      else if c = '[' then do
        let inside := inside.skipBlanks
        if inside.chars.head? = some ']' then return (.list [], inside.drop 1)
        let (items, rest) ← members fuel inside
        return (.list items, rest)
      else scalar a

/-- The members of an array up to its closing bracket. -/
def members (fuel : Nat) (a : Ahead) : Except ReadError (List Value × Ahead) :=
  match fuel with
  | 0 => a.refuse .value
  | fuel + 1 => do
    let (v, rest) ← value fuel a
    let rest := rest.skipBlanks
    if rest.chars.head? = some ']' then return ([v], rest.drop 1)
    let rest ← rest.expect ',' .comma
    let (vs, rest) ← members fuel rest.skipBlanks
    return (v :: vs, rest)

/-- The entries of an object up to its closing brace. -/
def entries (fuel : Nat) (a : Ahead) : Except ReadError (List (Value × Value) × Ahead) :=
  match fuel with
  | 0 => a.refuse .propertyName
  | fuel + 1 => do
    let inside ← a.expect quotationMark .propertyName
    let (key, rest) ← string inside
    let rest ← rest.skipBlanks.expect ':' .colon
    let (v, rest) ← value fuel rest.skipBlanks
    let rest := rest.skipBlanks
    if (rest.chars.head?.map Char.toNat) = some 0x7D then
      return ([(.text key, v)], rest.drop 1)
    let rest ← rest.expect ',' .comma
    let (es, rest) ← entries fuel rest.skipBlanks
    return ((.text key, v) :: es, rest)

end

/-- The value that a JSON text spells. -/
def read (cs : List Char) : Except ReadError Value := do
  let a : Ahead := ⟨cs, 0⟩
  if cs.head? = some (Char.ofNat 0xFEFF) then a.refuse .noByteOrderMark
  let (v, rest) ← value (2 * cs.length + 2) a.skipBlanks
  let rest := rest.skipBlanks
  if rest.chars.isEmpty then return v
  rest.refuse .textEnd

end EntityGraph.Json
