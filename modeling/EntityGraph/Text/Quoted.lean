import EntityGraph.Text.Digits
import EntityGraph.Text.Printable

/-!
# Quoted texts

The quoted form in which texts and byte strings stand inside messages: apostrophes around the
text, or quotation marks when the text holds an apostrophe and no quotation mark; a backslash
before backslashes and the chosen mark; escapes for what is not printable.
-/

namespace EntityGraph.Text

/-- The apostrophe, the usual mark around a quoted text. -/
def apostrophe : Char := Char.ofNat 0x27

/-- The quotation mark, the other mark around a quoted text. -/
def quotationMark : Char := Char.ofNat 0x22

/-- The backslash, which introduces an escape. -/
def backslash : Char := Char.ofNat 0x5C

/-- The mark to put around a text with the given characters. -/
def quoteMark (cs : List Char) : Char :=
  if cs.contains apostrophe && !cs.contains quotationMark then quotationMark else apostrophe

/-- The escape of a character that is not printable, by its code point. -/
def escapeCode (n : Nat) : List Char :=
  if n = 0x09 then [backslash, 't']
  else if n = 0x0A then [backslash, 'n']
  else if n = 0x0D then [backslash, 'r']
  else if n < 0x100 then backslash :: 'x' :: hex 2 n
  else if n < 0x10000 then backslash :: 'u' :: hex 4 n
  else backslash :: 'U' :: hex 8 n

/-- One character of a text quoted with the given mark. -/
def quoteChar (mark c : Char) : List Char :=
  if c = mark ∨ c = backslash then [backslash, c]
  else if isPrintable c then [c]
  else escapeCode c.toNat

/-- The quoted form of a list of characters. -/
def quotedChars (cs : List Char) : List Char :=
  let mark := quoteMark cs
  mark :: cs.flatMap (quoteChar mark) ++ [mark]

/-- The quoted form of a text. -/
def quoted (s : String) : String := String.ofList (quotedChars s.toList)

/-- One byte of a byte string quoted with the given mark; only printable ASCII stands for
itself. Besides the mark and the backslash, some characters may be escaped that need not be. -/
def quoteByte (mark : Char) (escaped : List Char) (b : UInt8) : List Char :=
  let c := Char.ofNat b.toNat
  if c = mark ∨ c = backslash ∨ c ∈ escaped then [backslash, c]
  else if 0x20 ≤ b.toNat ∧ b.toNat < 0x7F then [c]
  else escapeCode b.toNat

/-- The quoted form of a byte string, behind the letter that tells it from a text. -/
def quotedBytes (escaped : List Char) (bytes : List UInt8) : String :=
  let mark := quoteMark (bytes.map fun b ↦ Char.ofNat b.toNat)
  String.ofList ('b' :: mark :: bytes.flatMap (quoteByte mark escaped) ++ [mark])

/-- A list of quoted texts in brackets, separated by commas. -/
def quotedList (texts : List String) : String :=
  "[" ++ ", ".intercalate (texts.map quoted) ++ "]"

end EntityGraph.Text
