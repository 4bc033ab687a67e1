import EntityGraph.Bytes.Utf8
import EntityGraph.Yaml.Scalar

/-!
# Tokens of YAML texts

A text is cut into tokens. Indentation becomes tokens of its own: a block collection starts where
its first entry is indented more than the block around it and ends where a line is indented less. A
key that is written without a mark is recognised by the colon behind it, so the token of the key is
put in before the tokens that were read since.
-/

namespace EntityGraph.Yaml

open EntityGraph.Text

/-- A tag as it is written: a handle, if there is one, and what follows it. -/
structure WrittenTag where
  handle : Option String
  suffix : String
  deriving DecidableEq, Repr

/-- A token. -/
inductive Token
  | streamEnd
  /-- The rest of the text cannot be cut into tokens. -/
  | broken (e : Error)
  /-- The version of the language that a document is written in, by its main number. -/
  | version (major : Nat)
  /-- A handle of tags and what it stands for. -/
  | tagHandle (handle meaning : String)
  | otherDirective
  | documentStart
  | documentEnd
  | blockSeqStart
  | blockMapStart
  | blockEnd
  | flowSeqStart
  | flowSeqEnd
  | flowMapStart
  | flowMapEnd
  | blockEntry
  | flowEntry
  | key
  | value
  | alias (name : String)
  | anchor (name : String)
  | tag (t : WrittenTag)
  | scalar (isPlain : Bool) (text : String)
  deriving DecidableEq, Repr

namespace Token

/-! ### Names, tags and directives -/

/-- The name ahead, which must not be empty. -/
def name (c : Cursor) : Result (String × Cursor) :=
  let (cs, c) := c.span isNameChar
  if cs.isEmpty then malformed else .ok (String.ofList cs, c)

/-- Whether the name of an anchor ends at what is ahead. -/
def endsAnchor (c : Option Char) : Bool :=
  endsWord c || c.any fun c ↦ "?:,]%@".toList.contains c || c = closeBrace || c = Char.ofNat 0x60

/-- The name of an anchor or an alias behind its mark. -/
def anchorName (c : Cursor) : Result (String × Cursor) := do
  let (text, c) ← name c.step
  if endsAnchor c.next? then return (text, c) else malformed

/-- Whether a character may stand in the identifier of a resource. -/
def isUriChar (c : Char) : Bool :=
  isNameChar c || c = apostrophe || ";/?:@&=+$,.!~*()[]%".toList.contains c

/-- The bytes escaped by percent signs ahead. -/
def escapedBytes (fuel : Nat) (c : Cursor) : Result (List UInt8 × Cursor) :=
  match fuel with
  | 0 => .ok ([], c)
  | fuel + 1 =>
    match c.chars with
    | '%' :: a :: b :: _ =>
      match natIn? 16 [a, b] with
      | some n => (escapedBytes fuel (c.drop 3)).map fun (bs, c) ↦ (UInt8.ofNat n :: bs, c)
      | none => malformed
    | '%' :: _ => malformed
    | _ => .ok ([], c)

/-- The parts of the identifier ahead. -/
def uriParts (fuel : Nat) (c : Cursor) : Result (List Char × Cursor) :=
  match fuel with
  | 0 => .ok ([], c)
  | fuel + 1 => do
    if c.sees '%' then
      let (bytes, c) ← escapedBytes (c.chars.length + 1) c
      match Bytes.Utf8.decode bytes with
      | .ok cs =>
        let (more, c) ← uriParts fuel c
        return (cs ++ more, c)
      | .error _ => malformed
    else if c.seesAny isUriChar then
      let (cs, c) := c.span fun x ↦ isUriChar x && x ≠ '%'
      let (more, c) ← uriParts fuel c
      return (cs ++ more, c)
    else return ([], c)

/-- The identifier ahead, which must not be empty. -/
def uri (c : Cursor) : Result (String × Cursor) := do
  if c.seesAny isUriChar then
    let (cs, c) ← uriParts (c.chars.length + 1) c
    return (String.ofList cs, c)
  else malformed

/-- The handle of a tag ahead: one mark alone, or a name between two marks. -/
def handle (c : Cursor) : Result (String × Cursor) :=
  if !c.sees '!' then malformed
  else if c.at? 1 = some ' ' then .ok ("!", c.step)
  else
    let (cs, after) := c.step.span isNameChar
    if after.sees '!' then .ok (String.ofList ('!' :: cs ++ ['!']), after.step) else malformed

/-- Whether a second mark stands in the word of a tag. -/
def hasSecondMark (c : Cursor) : Bool :=
  (c.step.chars.takeWhile fun x ↦ x ≠ ' ' && !isBreak x).contains '!'

/-- The tag ahead. -/
def writtenTag (c : Cursor) : Result (WrittenTag × Cursor) := do
  let (t, c) ←
    if c.at? 1 = some '<' then do
      let (suffix, c) ← uri (c.drop 2)
      if c.sees '>' then pure ((⟨none, suffix⟩ : WrittenTag), c.step) else malformed
    else if endsWord (c.at? 1) then pure (⟨none, "!"⟩, c.step)
    else do
      let (handle, c) ← if hasSecondMark c then handle c else pure ("!", c.step)
      let (suffix, c) ← uri c
      pure ((⟨some handle, suffix⟩ : WrittenTag), c)
  if endsField c.next? then return (t, c) else malformed

/-- The number ahead, which must not be empty. -/
def number (c : Cursor) : Result (Nat × Cursor) := do
  let (cs, c) := c.span isDigit
  if cs.isEmpty then malformed
  let n ← integer 10 cs
  return (n.toNat, c)

/-- The directive ahead. -/
def directive (c : Cursor) : Result (Token × Cursor) := do
  let (name, c) ← name c.step
  if !endsField c.next? then malformed
  let (token, c) ←
    if name = "YAML" then do
      let (major, c) ← number c.skipSpaces
      if !c.sees '.' then malformed
      let (_, c) ← number c.step
      if endsField c.next? then pure (Token.version major, c) else malformed
    else if name = "TAG" then do
      let (handle, c) ← handle c.skipSpaces
      if !c.sees ' ' then malformed
      let (meaning, c) ← uri c.skipSpaces
      if endsField c.next? then pure (Token.tagHandle handle meaning, c) else malformed
    else pure (Token.otherDirective, c.skip (!isBreak ·))
  let c ← c.endLine
  return (token, c)

/-! ### Cutting a text -/

/-- Where a key may have started that is known as a key only by the colon behind it. -/
structure KeyStart where
  /-- The number of tokens before the key. -/
  tokens : Nat
  /-- Whether nothing else but a key can stand there. -/
  isRequired : Bool
  index : Nat
  line : Nat
  column : Nat
  deriving Repr

/-- The state of cutting. -/
structure Cut where
  cursor : Cursor
  /-- The tokens so far, latest first. -/
  tokens : List Token
  /-- How many flow collections are open. -/
  depth : Nat
  /-- The column of the block, minus one outside of all blocks. -/
  indent : Int
  /-- The columns of the blocks around it. -/
  outer : List Int
  /-- Whether a key may start here. -/
  mayStartKey : Bool
  /-- Where a key may have started, by the number of flow collections around it. -/
  starts : List (Nat × KeyStart)

namespace Cut

/-- The most characters that such a key may have. -/
def keyLength : Nat := 1024

/-- The state before a text. -/
def start (cs : List Char) : Cut :=
  let c := Cursor.start cs
  ⟨if c.sees byteOrderMark then c.step else c, [], 0, -1, [], true, []⟩

/-- Whether no flow collection is open. -/
def inBlock (s : Cut) : Bool := s.depth = 0

/-- The state with one more token. -/
def push (t : Token) (s : Cut) : Cut := { s with tokens := t :: s.tokens }

/-- The state at another place. -/
def moveTo (c : Cursor) (s : Cut) : Cut := { s with cursor := c }

/-- The state after one more character. -/
def step (s : Cut) : Cut := s.moveTo s.cursor.step

/-- The state in which a key may start, or may not. -/
def allowKey (b : Bool) (s : Cut) : Cut := { s with mayStartKey := b }

/-- The state with a token put in after a number of tokens. -/
def insertAt (n : Nat) (t : Token) (s : Cut) : Cut :=
  { s with tokens := s.tokens.insertIdx (s.tokens.length - n) t }

/-- The state at the next token: blanks, comments and breaks are left out. A key may start on every
new line of a block. -/
def skipBlanks (fuel : Nat) (s : Cut) : Cut :=
  match fuel with
  | 0 => s
  | fuel + 1 =>
    let c := s.cursor.skipSpaces.skipComment
    match c.lineBreak? with
    | some (_, c) => skipBlanks fuel ((s.moveTo c).allowKey (s.mayStartKey || s.inBlock))
    | none => s.moveTo c

/-- Whether a start is too far back for a key. -/
def isStale (s : Cut) (k : KeyStart) : Bool :=
  k.line ≠ s.cursor.line || keyLength < s.cursor.index - k.index

/-- The state without the starts that are too far back. -/
def dropStale (s : Cut) : Result Cut :=
  if s.starts.any fun (_, k) ↦ s.isStale k && k.isRequired then malformed
  else .ok { s with starts := s.starts.filter fun (_, k) ↦ !s.isStale k }

/-- The state without a start of a key in the collection. -/
def dropStart (s : Cut) : Result Cut :=
  match s.starts.lookup s.depth with
  | some k =>
    if k.isRequired then malformed
    else .ok { s with starts := s.starts.filter fun (d, _) ↦ d ≠ s.depth }
  | none => .ok s

/-- The state with a start of a key, where a key may start. -/
def saveStart (s : Cut) : Result Cut :=
  if s.mayStartKey then do
    let isRequired := s.inBlock && s.indent = s.cursor.column
    let s ← s.dropStart
    let k : KeyStart :=
      ⟨s.tokens.length, isRequired, s.cursor.index, s.cursor.line, s.cursor.column⟩
    return { s with starts := (s.depth, k) :: s.starts }
  else .ok s

/-- The state in which the blocks are closed that a column does not belong to. -/
def closeBlocks (column : Int) (fuel : Nat) (s : Cut) : Cut :=
  match fuel with
  | 0 => s
  | fuel + 1 =>
    if column < s.indent then
      closeBlocks column fuel
        { s.push .blockEnd with indent := s.outer.headD (-1), outer := s.outer.tail }
    else s

/-- The state in which the blocks are closed that a column does not belong to; inside of flow
collections indentation does not count. -/
def unindent (column : Int) (s : Cut) : Cut :=
  if s.inBlock then s.closeBlocks column (s.outer.length + 1) else s

/-- The state in which a block is open at a column, if it is not. -/
def openBlock (column : Nat) (t : Token) (tokens : Nat) (s : Cut) : Cut :=
  if s.indent < column then
    { s.insertAt tokens t with indent := column, outer := s.indent :: s.outer }
  else s

/-- The state in which a block is open at the place, if it is not. -/
def openHere (t : Token) (s : Cut) : Cut := s.openBlock s.cursor.column t s.tokens.length

/-- Checks that an entry of a block may stand at the place, and opens the block. -/
def enterBlock (t : Token) (s : Cut) : Result Cut :=
  if s.inBlock then if s.mayStartKey then .ok (s.openHere t) else malformed else .ok s

/-- The state after the end of the text. -/
def finish (s : Cut) : Result Cut := do
  let s ← (s.unindent (-1)).dropStart
  return s.push .streamEnd

/-- The state after a directive. -/
def takeDirective (s : Cut) : Result Cut := do
  let s ← (s.unindent (-1)).dropStart
  let (t, c) ← directive s.cursor
  return ((s.allowKey false).moveTo c).push t

/-- The state after a mark that separates documents. -/
def takeSeparator (t : Token) (s : Cut) : Result Cut := do
  let s ← (s.unindent (-1)).dropStart
  return ((s.allowKey false).moveTo (s.cursor.drop 3)).push t

/-- The state after the start of a flow collection. -/
def openFlow (t : Token) (s : Cut) : Result Cut := do
  let s ← s.saveStart
  return ({ s with depth := s.depth + 1 }.allowKey true).step.push t

/-- The state after the end of a flow collection. -/
def closeFlow (t : Token) (s : Cut) : Result Cut := do
  let s ← s.dropStart
  return ({ s with depth := s.depth - 1 }.allowKey false).step.push t

/-- The state after a comma. -/
def takeComma (s : Cut) : Result Cut := do
  let s ← (s.allowKey true).dropStart
  return s.step.push .flowEntry

/-- The state after the mark of an entry of a sequence. -/
def takeEntry (s : Cut) : Result Cut := do
  let s ← s.enterBlock .blockSeqStart
  let s ← (s.allowKey true).dropStart
  return s.step.push .blockEntry

/-- The state after the mark of a key. -/
def takeKey (s : Cut) : Result Cut := do
  let s ← s.enterBlock .blockMapStart
  let s ← (s.allowKey s.inBlock).dropStart
  return s.step.push .key

/-- The state after a colon. If a key may have started, it has: its token is put in there, and that
of the block before it. -/
def takeValue (s : Cut) : Result Cut := do
  let s ← match s.starts.lookup s.depth with
    | some k =>
      let s := { s with starts := s.starts.filter fun (d, _) ↦ d ≠ s.depth }.insertAt k.tokens .key
      let s := if s.inBlock then s.openBlock k.column .blockMapStart k.tokens else s
      pure (s.allowKey false)
    | none => do
      let s ← s.enterBlock .blockMapStart
      (s.allowKey s.inBlock).dropStart
  return s.step.push .value

/-- The state after a token that may be a key. -/
def takeNode (read : Cursor → Result (Token × Cursor)) (s : Cut) : Result Cut := do
  let s ← s.saveStart
  let (t, c) ← read s.cursor
  return ((s.allowKey false).moveTo c).push t

/-- The state after a block scalar. -/
def takeBlock (isFolded : Bool) (s : Cut) : Result Cut := do
  let s ← (s.allowKey true).dropStart
  let (text, c) ← Block.scan isFolded s.indent s.cursor
  return (s.moveTo c).push (.scalar false (String.ofList text))

/-- The state after a plain scalar. A key may start behind it if a line ended there. -/
def takePlain (s : Cut) : Result Cut := do
  let s ← s.saveStart
  let (text, c, ended) := Plain.scan (!s.inBlock) s.indent s.cursor
  return ((s.allowKey ended).moveTo c).push (.scalar true (String.ofList text))

/-- Whether a plain scalar starts with a character before another. -/
def startsPlain (s : Cut) (x : Char) (after : Option Char) : Bool :=
  !("-?:,[]#&*!|>%@".toList ++
      [openBrace, closeBrace, apostrophe, quotationMark, Char.ofNat 0x60]).contains x &&
    !endsWord (some x) ||
  !endsWord after && (x = '-' || (s.inBlock && (x = '?' || x = ':')))

/-- The quoted scalar ahead, as a token. -/
def quoted (mark : Char) (c : Cursor) : Result (Token × Cursor) := do
  let (text, c) ← Quoted.scan mark c
  return (.scalar false (String.ofList text), c)

/-- The state after the token that starts with a character. -/
def takeFrom (s : Cut) (x : Char) : Result Cut :=
  let c := s.cursor
  let after := c.at? 1
  if x = '%' && c.column = 0 then s.takeDirective
  else if c.column = 0 && c.seesMark '-' then s.takeSeparator .documentStart
  else if c.column = 0 && c.seesMark '.' then s.takeSeparator .documentEnd
  else if x = '[' then s.openFlow .flowSeqStart
  else if x = openBrace then s.openFlow .flowMapStart
  else if x = ']' then s.closeFlow .flowSeqEnd
  else if x = closeBrace then s.closeFlow .flowMapEnd
  else if x = ',' then s.takeComma
  else if x = '-' && endsWord after then s.takeEntry
  else if x = '?' && (!s.inBlock || endsWord after) then s.takeKey
  else if x = ':' && (!s.inBlock || endsWord after) then s.takeValue
  else if x = '*' then s.takeNode fun c ↦ (anchorName c).map fun (n, c) ↦ (.alias n, c)
  else if x = '&' then s.takeNode fun c ↦ (anchorName c).map fun (n, c) ↦ (.anchor n, c)
  else if x = '!' then s.takeNode fun c ↦ (writtenTag c).map fun (t, c) ↦ (.tag t, c)
  else if x = '|' && s.inBlock then s.takeBlock false
  else if x = '>' && s.inBlock then s.takeBlock true
  else if x = apostrophe || x = quotationMark then s.takeNode (quoted x)
  else if s.startsPlain x after then s.takePlain
  else malformed

/-- The tokens of a text that is cut up to here and no further. Tokens from the first possible start
of a key on are held back: whether there is a key is not known yet. -/
def breakOff (e : Error) (s : Cut) : List Token :=
  let pending := (s.starts.filter fun (_, k) ↦ !s.isStale k).map (·.2.tokens)
  s.tokens.reverse.take (pending.foldl min s.tokens.length) ++ [.broken e]

/-- The tokens that a text is cut into, from a state on. -/
def run (fuel : Nat) (s : Cut) : List Token :=
  match fuel with
  | 0 => s.breakOff .malformed
  | fuel + 1 =>
    let here := s.skipBlanks (s.cursor.chars.length + 1)
    let next : Result Cut := do
      let s ← here.dropStale
      let s := s.unindent s.cursor.column
      match s.cursor.next? with
      | some x => s.takeFrom x
      | none => s.finish
    match next with
    | .ok after => if here.cursor.chars.isEmpty then after.tokens.reverse else run fuel after
    | .error e => s.breakOff e

end Cut

/-- The tokens of a text. -/
def ofChars (cs : List Char) : List Token :=
  if cs.all isAllowed then (Cut.start cs).run (cs.length + 2) else [.broken .malformed]

/-- A key without a mark is put in before its tokens. -/
example : ofChars "a: 1".toList =
    [.blockMapStart, .key, .scalar true "a", .value, .scalar true "1", .blockEnd, .streamEnd] := by
  decide +kernel

end Token

end EntityGraph.Yaml
