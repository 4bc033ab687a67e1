import EntityGraph.Text.Digits
import EntityGraph.Yaml.Style

/-!
# Writing YAML lines

Text is written by a pen that knows its column and whether only blanks or marks of structure stand
before it on the line. Long scalars are broken at spaces behind the eightieth column.
-/

namespace EntityGraph.Yaml

open EntityGraph.Text

/-- The column behind which lines are broken. -/
def lineWidth : Nat := 80

/-- What was written, latest first, and what stands on the line. -/
structure Pen where
  written : List Char
  column : Nat
  /-- Whether a space or the start of a line comes before. -/
  isSpaced : Bool
  /-- Whether nothing but blanks and marks of entries and keys come before on the line. -/
  isIndenting : Bool

namespace Pen

/-- The pen before a text. -/
def start : Pen := ⟨[], 0, true, true⟩

/-- What was written. -/
def text (p : Pen) : String := String.ofList p.written.reverse

/-- Writes characters of one line. -/
def put (cs : List Char) (p : Pen) : Pen :=
  { p with written := cs.reverse ++ p.written, column := p.column + cs.length }

/-- Marks that a text follows on which nothing is indented. -/
def inText (p : Pen) : Pen := { p with isSpaced := false, isIndenting := false }

/-- Writes a mark, behind a space unless one is there. -/
def mark (cs : List Char) (p : Pen) : Pen :=
  let p := p.put (if p.isSpaced then cs else ' ' :: cs)
  p.inText

/-- Writes a mark directly behind what was written. -/
def markClose (cs : List Char) (p : Pen) : Pen := (p.put cs).inText

/-- Writes the mark of an entry or a key, behind which an indented collection may start. -/
def markEntry (cs : List Char) (p : Pen) : Pen :=
  { p.mark cs with isIndenting := p.isIndenting }

/-- Ends the line. -/
def breakLine (p : Pen) : Pen := ⟨'\n' :: p.written, 0, true, true⟩

/-- Moves to a column of a fresh line, or of the line if nothing but marks is on it before. -/
def indent (column : Nat) (p : Pen) : Pen :=
  let p := if !p.isIndenting || column < p.column || (p.column = column && !p.isSpaced) then
      p.breakLine
    else p
  if p.column < column then
    { p.put (List.replicate (column - p.column) ' ') with isSpaced := true }
  else p

/-! ### Scalars -/

/-- The first characters of a text that are alike by a property, and the rest. -/
def run (p : Char → Bool) (cs : List Char) : List Char × List Char :=
  (cs.takeWhile p, cs.dropWhile p)

/-- Writes the words of a plain scalar. -/
def plainWords (fuel column : Nat) (canSplit : Bool) (cs : List Char) (p : Pen) : Pen :=
  match fuel with
  | 0 => p
  | fuel + 1 =>
    if cs.isEmpty then p
    else
      let (word, rest) := run (· ≠ ' ') cs
      let (spaces, rest) := run (· = ' ') rest
      let p := p.put word
      let p :=
        if canSplit && spaces.length = 1 && lineWidth < p.column then (p.indent column).inText
        else p.put spaces
      plainWords fuel column canSplit rest p

/-- Writes a plain scalar. -/
def plain (column : Nat) (canSplit : Bool) (cs : List Char) (p : Pen) : Pen :=
  if cs.isEmpty then p
  else
    let p := if p.isSpaced then p else p.put [' ']
    p.inText.plainWords (cs.length + 1) column canSplit cs

/-- Writes line feeds: one more than are meant. -/
def breaks (count column : Nat) (p : Pen) : Pen :=
  ((List.replicate (count + 1) ()).foldl (fun p _ ↦ p.breakLine) p).indent column

/-- Writes the parts of a scalar in single marks. -/
def singleParts (fuel column : Nat) (canSplit isFirst : Bool) (cs : List Char) (p : Pen) : Pen :=
  match fuel, cs with
  | 0, _ => p
  | _, [] => p
  | fuel + 1, c :: _ =>
    if c = ' ' then
      let (spaces, rest) := run (· = ' ') cs
      let p := if canSplit && spaces.length = 1 && lineWidth < p.column && !isFirst && !rest.isEmpty
        then p.indent column else p.put spaces
      singleParts fuel column canSplit false rest p
    else if c = '\n' then
      let (feeds, rest) := run (· = '\n') cs
      singleParts fuel column canSplit false rest (p.breaks feeds.length column)
    else
      let (word, rest) := run (fun c ↦ c ≠ ' ' && c ≠ '\n') cs
      let doubled := word.flatMap fun c ↦ if c = apostrophe then [c, c] else [c]
      singleParts fuel column canSplit false rest (p.put doubled)

/-- Writes a scalar in single marks. -/
def single (column : Nat) (canSplit : Bool) (cs : List Char) (p : Pen) : Pen :=
  ((p.mark [apostrophe]).singleParts (cs.length + 1) column canSplit true cs).markClose [apostrophe]

/-- The letters of short escapes. -/
def escapeLetters : List (Char × Char) :=
  [('\x00', '0'), ('\x07', 'a'), ('\x08', 'b'), ('\t', 't'), ('\n', 'n'), ('\x0b', 'v'),
    ('\x0c', 'f'), ('\r', 'r'), ('\x1b', 'e'), (quotationMark, quotationMark),
    (backslash, backslash), ('\x85', 'N'), ('\xa0', '_'), ('\u2028', 'L'), ('\u2029', 'P')]

/-- The escape of a character within double marks, if it needs one. -/
def escape? (c : Char) : Option (List Char) :=
  let n := c.toNat
  if c ≠ quotationMark && c ≠ backslash && 0x20 ≤ n && n ≤ 0x7E then none
  else
    some <| backslash ::
      match escapeLetters.lookup c with
      | some letter => [letter]
      | none =>
        if n ≤ 0xFF then 'x' :: hexUpper 2 n
        else if n ≤ 0xFFFF then 'u' :: hexUpper 4 n
        else 'U' :: hexUpper 8 n

/-- Breaks a scalar in double marks; a space at the start of the next line is escaped. -/
def breakDouble (column : Nat) (next : Option Char) (p : Pen) : Pen :=
  let p := ((p.put [backslash]).indent column).inText
  if next = some ' ' then p.put [backslash] else p

/-- Writes the characters of a scalar in double marks, after some that are not written yet. The line
is broken at spaces and at escapes, but not at either end of the scalar. -/
def doubleChars (column : Nat) (canSplit isFirst : Bool) (pending : List Char) :
    List Char → Pen → Pen
  | [], p => p.put pending
  | c :: cs, p =>
    let mayBreak := canSplit && !isFirst && !cs.isEmpty
    match escape? c with
    | some escaped =>
      let p := (p.put pending).put escaped
      let p := if mayBreak && lineWidth + 1 < p.column then p.breakDouble column cs.head? else p
      doubleChars column canSplit false [] cs p
    | none =>
      if mayBreak && (c = ' ' || pending.isEmpty) && lineWidth < p.column + pending.length then
        doubleChars column canSplit false [c] cs ((p.put pending).breakDouble column (some c))
      else doubleChars column canSplit false (pending ++ [c]) cs p

/-- Writes a scalar in double marks. -/
def double (column : Nat) (canSplit : Bool) (cs : List Char) (p : Pen) : Pen :=
  ((p.mark [quotationMark]).doubleChars column canSplit true [] cs).markClose [quotationMark]

/-- Writes the lines of a literal block. -/
def literalLines (column : Nat) : List (List Char) → Pen → Pen
  | [], p => p
  | line :: lines, p =>
    let p := if line.isEmpty then p else (p.indent column).put line
    literalLines column lines p.breakLine

/-- The lines of a text, each ended by a line feed but perhaps the last. -/
def linesOf (fuel : Nat) (cs : List Char) : List (List Char) :=
  match fuel with
  | 0 => []
  | fuel + 1 =>
    if cs.isEmpty then []
    else cs.takeWhile (· ≠ '\n') :: linesOf fuel ((cs.dropWhile (· ≠ '\n')).drop 1)

/-- The marks at the head of a literal block: the indentation if it starts with a blank, and what
becomes of the breaks at its end. -/
def literalHints (cs : List Char) : List Char :=
  let blank := if cs.head?.any fun c ↦ c = ' ' || c = '\n' then ['2'] else []
  let chomping := match cs.reverse with
    | '\n' :: '\n' :: _ | ['\n'] => ['+']
    | '\n' :: _ => []
    | _ => ['-']
  blank ++ chomping

/-- Writes a literal block. -/
def literal (column : Nat) (cs : List Char) (p : Pen) : Pen :=
  (p.mark ('|' :: literalHints cs)).breakLine.literalLines column (linesOf (cs.length + 1) cs)

/-- Writes a scalar of a style. -/
def scalar (style : ScalarStyle) (column : Nat) (canSplit : Bool) (cs : List Char) (p : Pen) :
    Pen :=
  match style with
  | .plain => p.plain column canSplit cs
  | .single => p.single column canSplit cs
  | .double => p.double column canSplit cs
  | .literal => p.literal column cs

end Pen

end EntityGraph.Yaml
