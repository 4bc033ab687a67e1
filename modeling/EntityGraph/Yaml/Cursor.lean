import EntityGraph.Text.Digits
import EntityGraph.Value.Fault

/-!
# Places in YAML texts

The characters ahead in a YAML text with the place of the first of them, and the classes of
characters that the grammar knows. Lines end at line feeds, carriage returns, next-line characters
and the two Unicode separators; a byte order mark takes no column.
-/

namespace EntityGraph.Yaml

open EntityGraph.Number

/-- Why a text is not read. -/
inductive Error
  /-- The text is no document. -/
  | malformed
  /-- A scalar of the text has no value. -/
  | scalar (kind : FaultKind) (text : String)
  deriving DecidableEq, Repr

/-- The result of reading a part of a text. -/
abbrev Result := Except Error

/-- Fails because the text is no document. -/
def malformed {α : Type} : Result α := .error .malformed

/-- The integer that digits of a base spell. -/
def integer (base : Nat) (cs : List Char) : Result Int :=
  let s := String.ofList cs
  match Integer.read base s with
  | .ok i => .ok i
  | .error e => .error (.scalar .value (e.message base s))

/-- A byte order mark. -/
def byteOrderMark : Char := '\ufeff'

/-- The opening brace of a mapping. -/
def openBrace : Char := Char.ofNat 0x7B

/-- The closing brace of a mapping. -/
def closeBrace : Char := Char.ofNat 0x7D

/-- Whether a character may stand in a text. -/
def isAllowed (c : Char) : Bool :=
  let n := c.toNat
  n = 0x09 || n = 0x0A || n = 0x0D || (0x20 ≤ n && n ≤ 0x7E) || n = 0x85 ||
    (0xA0 ≤ n && n ≤ 0xFFFD) || 0x10000 ≤ n

/-- Whether a character ends a line. -/
def isBreak (c : Char) : Bool :=
  c = '\n' || c = '\r' || c = '\x85' || c = '\u2028' || c = '\u2029'

/-- Whether a line ends at what is ahead. -/
def endsLine (c : Option Char) : Bool := c.all isBreak

/-- Whether a word ends at what is ahead, which a tab does not do everywhere. -/
def endsField (c : Option Char) : Bool := c.all fun c ↦ c = ' ' || isBreak c

/-- Whether a word ends at what is ahead. -/
def endsWord (c : Option Char) : Bool := c.all fun c ↦ c = ' ' || c = '\t' || isBreak c

/-- Whether a character may stand in a name. -/
def isNameChar (c : Char) : Bool := c.isAlphanum || c = '-' || c = '_'

/-- The characters ahead, how many came before, and the line and the column of the first. -/
structure Cursor where
  chars : List Char
  index : Nat
  line : Nat
  column : Nat
  deriving DecidableEq, Repr

namespace Cursor

/-- The place at the start of a text. -/
def start (cs : List Char) : Cursor := ⟨cs, 0, 0, 0⟩

/-- The character ahead. -/
def next? (c : Cursor) : Option Char := c.chars.head?

/-- The character a number of places ahead. -/
def at? (c : Cursor) (n : Nat) : Option Char := c.chars[n]?

/-- Whether a character is the next. -/
def sees (c : Cursor) (x : Char) : Bool := c.next? = some x

/-- Whether the next character is one of some. -/
def seesAny (c : Cursor) (p : Char → Bool) : Bool := c.next?.any p

/-- The place after one character. A carriage return before a line feed ends no line. -/
def step (c : Cursor) : Cursor :=
  match c.chars with
  | [] => c
  | x :: cs =>
    if isBreak x && !(x = '\r' && cs.head? = some '\n') then ⟨cs, c.index + 1, c.line + 1, 0⟩
    else if x = byteOrderMark then ⟨cs, c.index + 1, c.line, c.column⟩
    else ⟨cs, c.index + 1, c.line, c.column + 1⟩

/-- The place after a number of characters. -/
def drop : Nat → Cursor → Cursor
  | 0, c => c
  | n + 1, c => drop n c.step

/-- The characters ahead of a kind, and the place after them. -/
def span (p : Char → Bool) (c : Cursor) : List Char × Cursor :=
  let cs := c.chars.takeWhile p
  (cs, c.drop cs.length)

/-- The place after the characters ahead of a kind. -/
def skip (p : Char → Bool) (c : Cursor) : Cursor := (c.span p).2

/-- The place after the spaces ahead. -/
def skipSpaces (c : Cursor) : Cursor := c.skip (· = ' ')

/-- The place after the comment ahead, if there is one. -/
def skipComment (c : Cursor) : Cursor := if c.sees '#' then c.skip (!isBreak ·) else c

/-- The break ahead, as it stands in a scalar, and the place after it. -/
def lineBreak? (c : Cursor) : Option (Char × Cursor) :=
  match c.chars with
  | '\r' :: '\n' :: _ => some ('\n', c.drop 2)
  | '\r' :: _ | '\n' :: _ | '\x85' :: _ => some ('\n', c.step)
  | x :: _ => if isBreak x then some (x, c.step) else none
  | [] => none

/-- The place after the break ahead, if there is one. -/
def skipBreak (c : Cursor) : Cursor := (c.lineBreak?.map (·.2)).getD c

/-- Whether a mark that separates documents is ahead: three of a character and the end of a word. -/
def seesMark (c : Cursor) (x : Char) : Bool :=
  c.chars.take 3 = [x, x, x] && endsWord (c.at? 3)

/-- Whether any mark that separates documents is ahead. -/
def seesSeparator (c : Cursor) : Bool := c.seesMark '-' || c.seesMark '.'

/-- The place after the blanks and the comment that end a line, and after its break. -/
def endLine (c : Cursor) : Result Cursor :=
  let c := c.skipSpaces.skipComment
  if endsLine c.next? then .ok c.skipBreak else malformed

end Cursor

end EntityGraph.Yaml
