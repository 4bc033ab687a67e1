import EntityGraph.Text.Quoted
import EntityGraph.Yaml.Tag

/-!
# Styles of scalars

How the text of a scalar may be written. A plain scalar must not be taken for anything else; single
marks hold printable ASCII and line feeds; double marks hold everything, by escapes.
-/

namespace EntityGraph.Yaml

open EntityGraph.Text

/-- The ways to write a scalar. -/
inductive ScalarStyle
  | plain
  | single
  | double
  | literal
  deriving DecidableEq, Repr

/-- What the text of a scalar allows. -/
structure Analysis where
  isMultiline : Bool
  allowsPlain : Bool
  allowsSingle : Bool
  allowsLiteral : Bool
  deriving DecidableEq, Repr

namespace Analysis

/-- Whether a character can stand unescaped. -/
def isOrdinary (c : Char) : Bool := c = '\n' || (0x20 ≤ c.toNat && c.toNat ≤ 0x7E)

/-- Whether a character is a blank or a break. -/
def isSpace (c : Char) : Bool :=
  c.toNat = 0 || c = ' ' || c = '\t' || c = '\r' || c = '\n' || c = '\x85' || c = '\u2028' ||
    c = '\u2029'

/-- Whether a character before another, or at the end, starts a scalar that is not plain. -/
def isLeadingMark (c : Char) (after : Option Char) : Bool :=
  ("#,[]&*!|>%@".toList ++ [Char.ofNat 0x7B, Char.ofNat 0x7D, apostrophe, quotationMark,
      Char.ofNat 0x60]).contains c ||
    (after.all isSpace && (c = '?' || c = ':' || c = '-'))

/-- Whether marks stand in a text, behind a character, that a plain scalar must not hold. -/
def holdsMark (before : Char) : List Char → Bool
  | [] => false
  | c :: cs =>
    (c = ':' && cs.head?.all isSpace) || (c = '#' && isSpace before) || holdsMark c cs

/-- Whether a pair of neighbours is in a text. -/
def holdsPair (p : Char → Char → Bool) : List Char → Bool
  | a :: b :: cs => p a b || holdsPair p (b :: cs)
  | _ => false

/-- What a text allows. -/
def of (cs : List Char) : Analysis :=
  match cs with
  | [] => ⟨false, true, true, false⟩
  | c :: rest =>
    let isBlank (c : Char) : Bool := c = ' ' || c = '\n'
    let isSpecial := cs.any (!isOrdinary ·)
    let isMultiline := cs.any fun c ↦ c = '\n' || c = '\x85' || c = '\u2028' || c = '\u2029'
    let hasMark := isLeadingMark c rest.head? || holdsMark c rest ||
      ["---".toList, "...".toList].contains (cs.take 3)
    let hasEdge := isBlank c || cs.getLast?.any isBlank
    let breakSpace := holdsPair (fun a b ↦ a = '\n' && b = ' ') cs
    let spaceBreak := holdsPair (fun a b ↦ a = ' ' && b = '\n') cs
    { isMultiline
      allowsPlain := !(hasEdge || breakSpace || spaceBreak || isSpecial || isMultiline || hasMark)
      allowsSingle := !(breakSpace || spaceBreak || isSpecial)
      allowsLiteral := !(cs.getLast? = some ' ' || spaceBreak || isSpecial) }

end Analysis

/-- The style of a scalar: a literal where that is asked for and possible, else plain where its kind
would be recognised, else in marks. A key on one line is never empty, multiline or literal. -/
def ScalarStyle.choose (isKey isLiteral isRecognised : Bool) (text : String) : ScalarStyle :=
  let a := Analysis.of text.toList
  if isLiteral then if !isKey && a.allowsLiteral then .literal else .double
  else if isRecognised && a.allowsPlain && !(isKey && (text = "" || a.isMultiline)) then .plain
  else if a.allowsSingle && !(isKey && a.isMultiline) then .single
  else .double

end EntityGraph.Yaml
