import EntityGraph.Text.Quoted

/-!
# JSON strings

A string is written in ASCII: quotation marks around it, a backslash before quotation marks and
backslashes, short escapes for the common controls, and the UTF-16 units of every other character
outside the printable ASCII range as four hexadecimal digits.
-/

namespace EntityGraph.Json

open EntityGraph.Text

/-- The escape of one UTF-16 unit. -/
def escapeUnit (n : Nat) : List Char := backslash :: 'u' :: hex 4 n

/-- The form of one character inside a string. -/
def quoteChar (c : Char) : List Char :=
  let n := c.toNat
  if c = quotationMark ∨ c = backslash then [backslash, c]
  else if 0x20 ≤ n ∧ n ≤ 0x7E then [c]
  else if n = 0x0A then [backslash, 'n']
  else if n = 0x0D then [backslash, 'r']
  else if n = 0x09 then [backslash, 't']
  else if n = 0x0C then [backslash, 'f']
  else if n = 0x08 then [backslash, 'b']
  else if n < 0x10000 then escapeUnit n
  else
    let offset := n - 0x10000
    escapeUnit (0xD800 + offset / 0x400) ++ escapeUnit (0xDC00 + offset % 0x400)

/-- The characters of a string with the marks around them. -/
def quotedChars (cs : List Char) : List Char :=
  quotationMark :: cs.flatMap quoteChar ++ [quotationMark]

/-- The JSON form of a string. -/
def quoted (s : String) : String := String.ofList (quotedChars s.toList)

end EntityGraph.Json
