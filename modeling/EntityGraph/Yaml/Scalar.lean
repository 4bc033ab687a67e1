import EntityGraph.Text.Quoted
import EntityGraph.Yaml.Cursor

/-!
# Scalars of YAML texts

The text that a scalar spells. A plain scalar ends where the structure of the document goes on; a
quoted one ends at its mark; a block scalar ends at a line indented less than it. In all but literal
blocks a single line break between words stands for a space.
-/

namespace EntityGraph.Yaml

open EntityGraph.Text

/-- The characters that a sequence of breaks stands for after a first one: a single line feed is a
space, and any other first break stands for itself. -/
def foldBreaks (first : Char) (more : List Char) : List Char :=
  if first ≠ '\n' then first :: more else if more.isEmpty then [' '] else more

namespace Plain

/-- Whether a character has a meaning of its own inside of flow collections. -/
def isFlowMark (c : Char) : Bool :=
  c = ',' || c = '[' || c = ']' || c = openBrace || c = closeBrace

/-- The number of characters of the word at the head of a text. -/
def wordLength (inFlow : Bool) : List Char → Nat
  | [] => 0
  | c :: cs =>
    if endsWord (some c) then 0
    else if c = ':' && (endsWord cs.head? || (inFlow && cs.head?.any isFlowMark)) then 0
    else if inFlow && (isFlowMark c || c = '?') then 0
    else wordLength inFlow cs + 1

/-- The breaks among the blanks ahead, and the place after them; no breaks where a mark that
separates documents comes first. -/
def breaks (fuel : Nat) (c : Cursor) : Option (List Char) × Cursor :=
  match fuel with
  | 0 => (some [], c)
  | fuel + 1 =>
    if c.sees ' ' then breaks fuel c.step
    else
      match c.lineBreak? with
      | none => (some [], c)
      | some (b, c) =>
        if c.seesSeparator then (none, c)
        else
          let (more, c) := breaks fuel c
          (more.map (b :: ·), c)

/-- What stands between two words: the characters, the place after them, and whether a line ended.
Nothing stands there where the scalar is to end. -/
def between (c : Cursor) : List Char × Cursor × Bool :=
  let (spaces, c) := c.span (· = ' ')
  match c.lineBreak? with
  | none => (spaces, c, false)
  | some (first, c) =>
    if c.seesSeparator then ([], c, true)
    else
      match breaks (c.chars.length + 1) c with
      | (none, c) => ([], c, true)
      | (some more, c) => (foldBreaks first more, c, true)

/-- The words from a place on, after what stands before them; then the place after the scalar and
whether a line ended behind the last word. -/
def words (fuel : Nat) (inFlow : Bool) (indent : Int) (before : List Char) (c : Cursor)
    (ended : Bool) : List Char × Cursor × Bool :=
  match fuel with
  | 0 => ([], c, ended)
  | fuel + 1 =>
    let length := wordLength inFlow c.chars
    if c.sees '#' || length = 0 then ([], c, ended)
    else
      let word := before ++ c.chars.take length
      let (after, c, ended) := between (c.drop length)
      if after.isEmpty || c.sees '#' || (!inFlow && (c.column : Int) < indent) then (word, c, ended)
      else
        let (rest, c, ended) := words fuel inFlow indent after c ended
        (word ++ rest, c, ended)

/-- The plain scalar ahead inside a block of some indentation. -/
def scan (inFlow : Bool) (indent : Int) (c : Cursor) : List Char × Cursor × Bool :=
  words (c.chars.length + 1) inFlow (indent + 1) [] c false

end Plain

namespace Quoted

/-- What an escaped character stands for. -/
def escape? (c : Char) : Option Char :=
  [('0', '\x00'), ('a', '\x07'), ('b', '\x08'), ('t', '\t'), ('\t', '\t'), ('n', '\n'),
    ('v', '\x0b'), ('f', '\x0c'), ('r', '\r'), ('e', '\x1b'), (' ', ' '),
    (quotationMark, quotationMark), (backslash, backslash), ('/', '/'), ('N', '\x85'),
    ('_', '\xa0'), ('L', '\u2028'), ('P', '\u2029')].lookup c

/-- The number of digits of an escaped code point. -/
def escapeLength? (c : Char) : Option Nat := [('x', 2), ('u', 4), ('U', 8)].lookup c

/-- The largest machine word. -/
def maxWord : Nat := 0x7FFFFFFF

/-- The character of a code point. Single surrogates, which are no characters, become the
replacement character. -/
def ofCode (n : Nat) : Result Char :=
  if maxWord < n then .error (.scalar .overflow "Python int too large to convert to C int")
  else if 0x10FFFF < n then .error (.scalar .value "chr() arg not in range(0x110000)")
  else if 0xD800 ≤ n && n < 0xE000 then .ok '\ufffd'
  else .ok (Char.ofNat n)

/-- Breaks with blanks around them, and the place after them. No mark that separates documents may
stand at the start of a line. -/
def breaks (fuel : Nat) (c : Cursor) : Result (List Char × Cursor) :=
  match fuel with
  | 0 => .ok ([], c)
  | fuel + 1 =>
    if c.seesSeparator then malformed
    else
      let c := c.skip fun x ↦ x = ' ' || x = '\t'
      match c.lineBreak? with
      | none => .ok ([], c)
      | some (b, c) => (breaks fuel c).map fun (more, c) ↦ (b :: more, c)

/-- The breaks ahead. -/
def breaksAhead (c : Cursor) : Result (List Char × Cursor) := breaks (c.chars.length + 1) c

/-- The code point that the hexadecimal digits ahead spell, and the place after them. -/
def code? (length : Nat) (c : Cursor) : Option (Nat × Cursor) :=
  let digits := c.chars.take length
  if digits.length = length then (natIn? 16 digits).map fun n ↦ (n, c.drop length) else none

/-- The second half of a pair of surrogates ahead, escaped like the first. -/
def lowSurrogate? (c : Cursor) : Option (Nat × Cursor) :=
  if c.sees backslash && c.at? 1 = some 'u' then
    (code? 4 (c.drop 2)).filter fun (n, _) ↦ 0xDC00 ≤ n && n < 0xE000
  else none

/-- The character of an escaped code point, and the place after it. Two surrogates that make a pair
are one character. -/
def pairedCode (n : Nat) (c : Cursor) : Result (Char × Cursor) :=
  match if 0xD800 ≤ n && n < 0xDC00 then lowSurrogate? c else none with
  | some (low, c) => .ok (Char.ofNat (0x10000 + (n - 0xD800) * 0x400 + (low - 0xDC00)), c)
  | none => (ofCode n).map fun x ↦ (x, c)

/-- What the escape behind a backslash stands for, and the place after it. -/
def escape (c : Cursor) : Result (List Char × Cursor) :=
  match c.next? with
  | none => malformed
  | some x =>
    match escape? x with
    | some y => .ok ([y], c.step)
    | none =>
      match escapeLength? x with
      | some length =>
        match code? length c.step with
        | some (n, c) => (pairedCode n c).map fun (y, c) ↦ ([y], c)
        | none => malformed
      | none => if isBreak x then breaksAhead c.skipBreak else malformed

/-- What blanks stand for, and the place after them. -/
def blanks (c : Cursor) : Result (List Char × Cursor) :=
  let (spaces, c) := c.span fun x ↦ x = ' ' || x = '\t'
  if c.chars.isEmpty then malformed
  else
    match c.lineBreak? with
    | none => .ok (spaces, c)
    | some (first, c) => do
      let (more, c) ← breaksAhead c
      return (foldBreaks first more, c)

/-- The part of a scalar at a place, and the place after it; nothing at the closing mark. A mark
within single marks is written twice, and only double marks know escapes. -/
def part (mark : Char) (c : Cursor) : Result (Option (List Char × Cursor)) :=
  match c.chars with
  | [] => malformed
  | x :: cs =>
    if x = mark then
      if mark = apostrophe && cs.head? = some apostrophe then .ok (some ([apostrophe], c.drop 2))
      else .ok none
    else if x = backslash && mark = quotationMark then (escape c.step).map some
    else if endsWord (some x) then (blanks c).map some
    else .ok (some ([x], c.step))

/-- The rest of a scalar up to its closing mark, and the place after the mark. -/
def rest (fuel : Nat) (mark : Char) (c : Cursor) : Result (List Char × Cursor) :=
  match fuel with
  | 0 => malformed
  | fuel + 1 => do
    match ← part mark c with
    | none => return ([], c.step)
    | some (cs, c) =>
      let (more, c) ← rest fuel mark c
      return (cs ++ more, c)

/-- The quoted scalar ahead. -/
def scan (mark : Char) (c : Cursor) : Result (List Char × Cursor) :=
  rest (c.chars.length + 1) mark c.step

end Quoted

namespace Block

/-- What becomes of the breaks at the end of a block. -/
inductive Chomping
  | strip
  | clip
  | keep
  deriving DecidableEq, Repr

/-- The sign of a chomping. -/
def chomping? (c : Option Char) : Option Chomping :=
  match c with
  | some '+' => some .keep
  | some '-' => some .strip
  | _ => none

/-- The indentation that a digit gives, which must not be zero. -/
def increment? (c : Option Char) : Result (Option Nat) :=
  match c.bind digit? with
  | some 0 => malformed
  | n => .ok n

/-- The chomping and the indentation in the head of a block, in either order. -/
def header (c : Cursor) : Result (Chomping × Option Nat × Cursor) := do
  let (chomping, increment, c) ← match chomping? c.next? with
    | some chomping => do
      let c := c.step
      match ← increment? c.next? with
      | some n => pure (chomping, some n, c.step)
      | none => pure (chomping, none, c)
    | none => do
      match ← increment? c.next? with
      | some n =>
        let c := c.step
        match chomping? c.next? with
        | some chomping => pure (chomping, some n, c.step)
        | none => pure (.clip, some n, c)
      | none => pure (.clip, none, c)
  if endsField c.next? then return (chomping, increment, c) else malformed

/-- The breaks ahead and the deepest column of the spaces among them. -/
def findIndent (fuel : Nat) (deepest : Nat) (c : Cursor) : List Char × Nat × Cursor :=
  match fuel with
  | 0 => ([], deepest, c)
  | fuel + 1 =>
    if c.sees ' ' then findIndent fuel (max deepest c.step.column) c.step
    else
      match c.lineBreak? with
      | none => ([], deepest, c)
      | some (b, c) =>
        let (more, deepest, c) := findIndent fuel deepest c
        (b :: more, deepest, c)

/-- The place after the spaces before a column. -/
def indentTo (fuel column : Nat) (c : Cursor) : Cursor :=
  match fuel with
  | 0 => c
  | fuel + 1 => if c.column < column && c.sees ' ' then indentTo fuel column c.step else c

/-- The breaks ahead with the spaces before a column. -/
def breaks (fuel column : Nat) (c : Cursor) : List Char × Cursor :=
  match fuel with
  | 0 => ([], c)
  | fuel + 1 =>
    let c := indentTo column column c
    match c.lineBreak? with
    | none => ([], c)
    | some (b, c) =>
      let (more, c) := breaks fuel column c
      (b :: more, c)

/-- Whether the line at a place starts with a blank. -/
def isIndented (c : Cursor) : Bool := c.seesAny fun x ↦ x = ' ' || x = '\t'

/-- The lines of a block from a place on, with the breaks before the first; then the break of the
last line, the breaks behind it and the place after them. -/
def lines (fuel column : Nat) (isFolded : Bool) (before : List Char) (c : Cursor) :
    List Char × List Char × List Char × Cursor :=
  match fuel with
  | 0 => ([], [], before, c)
  | fuel + 1 =>
    let (line, after) := c.span (!isBreak ·)
    let ended := (after.lineBreak?.map fun (b, _) ↦ [b]).getD []
    let (more, following) := breaks (after.chars.length + 1) column after.skipBreak
    if following.column = column && !following.chars.isEmpty then
      let joined :=
        if isFolded && ended = ['\n'] && !isIndented c && !isIndented following then
          if more.isEmpty then [' '] else []
        else ended
      let (text, last, tail, c) := lines fuel column isFolded more following
      (before ++ line ++ joined ++ text, last, tail, c)
    else (before ++ line, ended, more, following)

/-- The block scalar ahead inside a block of some indentation. -/
def scan (isFolded : Bool) (indent : Int) (c : Cursor) : Result (List Char × Cursor) := do
  let (chomping, increment, c) ← header c.step
  let c ← c.endLine
  let least := max 1 (indent + 1).toNat
  let (before, column, c) := match increment with
    | none =>
      let (before, deepest, c) := findIndent (c.chars.length + 1) 0 c
      (before, max least deepest, c)
    | some n =>
      let column := least + n - 1
      let (before, c) := breaks (c.chars.length + 1) column c
      (before, column, c)
  let (text, last, tail, c) :=
    if c.column = column && !c.chars.isEmpty then
      lines (c.chars.length + 1) column isFolded before c
    else ([], [], before, c)
  return (text ++ (if chomping = .strip then [] else last) ++
    (if chomping = .keep then tail else []), c)

end Block

end EntityGraph.Yaml
