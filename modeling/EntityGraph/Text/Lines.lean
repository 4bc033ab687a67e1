/-!
# Lines

Texts read from files have one kind of line break: a carriage return, alone or before a line feed,
is read as a line feed.
-/

namespace EntityGraph.Text

/-- The characters with every line break written as a line feed. -/
def unifyBreaks : List Char → List Char
  | [] => []
  | '\r' :: '\n' :: cs => '\n' :: unifyBreaks cs
  | '\r' :: cs => '\n' :: unifyBreaks cs
  | c :: cs => c :: unifyBreaks cs

end EntityGraph.Text
