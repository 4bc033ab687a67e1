import EntityGraph.Yaml.Timestamp

/-!
# Tags of YAML nodes

A tag says what kind of value a node has. A plain scalar without a tag has the tag of the first kind
whose form it has, and is a text if it has none of these forms.
-/

namespace EntityGraph.Yaml

open EntityGraph.Text

/-- The kinds of nodes. -/
inductive Tag
  | null
  | bool
  | int
  | float
  | timestamp
  | text
  | binary
  | seq
  | map
  | set
  | omap
  | pairs
  /-- A key that takes the entries of another mapping over. -/
  | merge
  /-- A key whose value stands for the whole mapping. -/
  | value
  /-- A kind without values. -/
  | other
  deriving DecidableEq, Repr

namespace Tag

/-- What the names of all kinds start with. -/
def root : String := "tag:yaml.org,2002:"

/-- The kinds by their names. -/
def named : List (String × Tag) :=
  [("null", null), ("bool", bool), ("int", int), ("float", float), ("timestamp", timestamp),
    ("str", text), ("binary", binary), ("seq", seq), ("map", map), ("set", set), ("omap", omap),
    ("pairs", pairs), ("merge", merge), ("value", value)]

/-- The kind of a full name. -/
def ofName (name : String) : Tag :=
  ((named.map fun (n, t) ↦ (root ++ n, t)).lookup name).getD other

/-- Whether the nodes of a kind have parts. -/
def isCollection : Tag → Bool
  | seq | map | set | omap | pairs => true
  | _ => false

/-- Whether the nodes of a kind have values. -/
def hasValues : Tag → Bool
  | merge | value | other => false
  | _ => true

/-! ### The forms of plain scalars -/

/-- The words for truth values. -/
def boolWords : List (String × Bool) :=
  [("yes", true), ("no", false), ("true", true), ("false", false), ("on", true), ("off", false)]

/-- A word in small letters, with a capital, and in capitals. -/
def spellings (word : String) : List String :=
  match word.toList with
  | [] => [word]
  | c :: cs =>
    [word, String.ofList (upperAscii c :: cs), String.ofList ((c :: cs).map upperAscii)]

/-- Whether a text is a word for a truth value. -/
def isBool (s : String) : Bool := boolWords.any fun (w, _) ↦ (spellings w).contains s

/-- Whether a text is a word for the absent value. -/
def isNull (s : String) : Bool := s = "" || s = "~" || (spellings "null").contains s

/-- What follows the sign of a number, if it has one. -/
def unsigned : List Char → List Char
  | '+' :: cs | '-' :: cs => cs
  | cs => cs

/-- Whether a character is a digit or a low line. -/
def isDigitOrLine (c : Char) : Bool := isDigit c || c = '_'

/-- Whether digits may stand behind a colon: a number below sixty. -/
def isSixtieth : List Char → Bool
  | [c] => isDigit c
  | [c, d] => '0' ≤ c && c ≤ '5' && isDigit d
  | _ => false

/-- A text cut at its colons. -/
def atColons : List Char → List (List Char)
  | [] => [[]]
  | c :: cs =>
    if c = ':' then [] :: atColons cs
    else
      match atColons cs with
      | part :: parts => (c :: part) :: parts
      | [] => [[c]]

/-- Whether a text has the form of an integer: in base two, eight, ten or sixteen, or with colons
between digits of base sixty. -/
def isInt (cs : List Char) : Bool :=
  match unsigned cs with
  | '0' :: 'b' :: ds => !ds.isEmpty && ds.all fun c ↦ c = '0' || c = '1' || c = '_'
  | '0' :: 'x' :: ds => !ds.isEmpty && ds.all fun c ↦ isHexDigit c || c = '_'
  | '0' :: ds => ds.all fun c ↦ ('0' ≤ c && c ≤ '7') || c = '_'
  | c :: cs =>
    isDigit c &&
      match atColons cs with
      | ds :: parts => ds.all isDigitOrLine && parts.all isSixtieth
      | [] => false
  | [] => false

/-- Whether a text is empty or has the form of a power of ten, whose sign is written. -/
def isPower : List Char → Bool
  | [] => true
  | e :: sign :: ds =>
    (e = 'e' || e = 'E') && (sign = '+' || sign = '-') && !ds.isEmpty && ds.all isDigit
  | _ => false

/-- Whether a text has the form of a number with a point. -/
def isFloat (cs : List Char) : Bool :=
  let signed := unsigned cs ≠ cs
  let before := (unsigned cs).takeWhile (· ≠ '.')
  match (unsigned cs).dropWhile (· ≠ '.') with
  | [] => false
  | _ :: after =>
    let power := isPower (after.dropWhile isDigitOrLine)
    let word := String.ofList after
    match before with
    | [] =>
      (!signed && after.head?.any isDigit && power) || (spellings "inf").contains word ||
        (!signed && ["nan", "NaN", "NAN"].contains word)
    | c :: cs =>
      isDigit c &&
        match atColons cs with
        | [ds] => ds.all isDigitOrLine && power
        | ds :: parts =>
          ds.all isDigitOrLine && parts.all isSixtieth && after.all isDigitOrLine
        | [] => false

/-- A text without the line feed at its end. -/
def dropLastBreak (cs : List Char) : List Char :=
  if cs.getLast? = some '\n' && 1 < cs.length then cs.dropLast else cs

/-- The kind of a plain scalar. -/
def ofPlain (text : String) : Tag :=
  let cs := dropLastBreak text.toList
  let s := String.ofList cs
  if isBool s then bool
  else if isFloat cs then float
  else if isInt cs then int
  else if s = "<<" then merge
  else if isNull s then null
  else if Timestamp.isPlain cs then timestamp
  else if s = "=" then value
  else if ["!", "&", "*"].contains s then other
  else Tag.text

example : ofPlain "0o7" = Tag.text ∧ ofPlain "07" = int ∧ ofPlain "08" = Tag.text := by
  decide +kernel
example : ofPlain "1e3" = Tag.text ∧ ofPlain "1.e+3" = float := by decide +kernel
example : ofPlain "190:20:30" = int ∧ ofPlain "190:20:30.15" = float := by decide +kernel
example : ofPlain "2001-1-1" = Tag.text ∧ ofPlain "2001-01-01" = timestamp := by decide +kernel

end Tag

end EntityGraph.Yaml
