import EntityGraph.Bytes.Utf8
import EntityGraph.Yaml.Form
import EntityGraph.Yaml.Pen

/-!
# Writing YAML

The YAML text of a value, in blocks with two more columns for every level; sequences inside of
mappings are not indented. Only printable ASCII is written.
-/

namespace EntityGraph.Yaml

open EntityGraph.Text

/-- The columns that a level is indented by. -/
def indentWidth : Nat := 2

namespace Form

/-- The number of columns of the tag, the name and the text of a key from which on it has no line
with its value. -/
def keyWidth : Nat := 128

/-- Whether a character of a tag stands for itself. -/
def isTagChar (c : Char) : Bool :=
  c.isAlphanum || c = apostrophe || "-;/?:@&=+$,_.~*()[]!".toList.contains c

/-- The text of a tag. -/
def tagText (tag : String) : List Char :=
  "!!".toList ++ tag.toList.flatMap fun c ↦
    if isTagChar c then [c]
    else (Bytes.Utf8.encodeChar c).flatMap fun b ↦ '%' :: hexUpper 2 b.toNat

/-- The name of an object among those that have one. -/
def nameOf? (anchors : List ObjectKey) (key : Option ObjectKey) : Option (List Char) :=
  (key.bind anchors.idxOf?).map fun i ↦ "id".toList ++ padded 3 (i + 1)

/-- Where a node stands. -/
inductive Place
  /-- As an entry of a sequence or as the whole. -/
  | entry
  /-- As a value, or as a key with lines of its own. -/
  | pair
  /-- As a key on the line of its value. -/
  | key
  deriving DecidableEq

/-- Whether a key stands on the line of its value: it is short, and a scalar of one line, an empty
collection or a reference. -/
def isSimple (anchors : List ObjectKey) (f : Form) : Bool :=
  let name (key : Option ObjectKey) : Nat := ((nameOf? anchors key).getD []).length
  match f with
  | .again key => name (some key) < keyWidth
  | .scalar key tag _ text =>
    let cs := text.toList
    name key + (tagText tag).length + cs.length < keyWidth && !cs.isEmpty &&
      !(Analysis.of cs).isMultiline
  | .seq key tag items => name key + (tagText tag).length < keyWidth && items.isEmpty
  | .map key tag entries => name key + (tagText tag).length < keyWidth && entries.isEmpty

/-- Writes the name of an object, if it has one. -/
def putName (anchors : List ObjectKey) (key : Option ObjectKey) (p : Pen) : Pen :=
  match nameOf? anchors key with
  | some name => p.mark ('&' :: name)
  | none => p

/-- Writes a tag, unless it is the one that the node has anyway. -/
def putTag (tag default : String) (p : Pen) : Pen :=
  if tag = default then p else p.mark (tagText tag)

/-- The column of what is inside of a column. -/
def inside (column : Option Nat) : Nat := (column.map (· + indentWidth)).getD 0

/-- Writes a scalar. -/
def putScalar (column : Option Nat) (isKey : Bool) (tag : String) (isLiteral : Bool) (text : String)
    (p : Pen) : Pen :=
  let kind := Tag.ofName (Tag.root ++ tag)
  let isRecognised := kind ≠ .other && Tag.ofPlain text = kind
  let style := ScalarStyle.choose isKey isLiteral isRecognised text
  let isImplied := if style = .plain then isRecognised else tag = "str"
  let p := if isImplied then p else p.mark (tagText tag)
  p.scalar style ((column.getD 0) + indentWidth) (!isKey) text.toList

mutual

/-- Writes a node that stands in a place of the collection at a column. -/
def put (anchors : List ObjectKey) (column : Option Nat) (place : Place) : Form → Pen → Pen
  | .again key, p => p.mark ('*' :: (nameOf? anchors (some key)).getD [])
  | .scalar key tag isLiteral text, p =>
    putScalar column (place = .key) tag isLiteral text (putName anchors key p)
  | .seq key tag items, p =>
    let p := putTag tag "seq" (putName anchors key p)
    if items.isEmpty then { p.mark ['['] with isSpaced := true }.markClose [']']
    else
      let isLevel := place ≠ .entry && !p.isIndenting
      putItems anchors (if isLevel then column.getD 0 else inside column) items p
  | .map key tag entries, p =>
    let p := putTag tag "map" (putName anchors key p)
    if entries.isEmpty then
      { p.mark [Char.ofNat 0x7B] with isSpaced := true }.markClose [Char.ofNat 0x7D]
    else putEntries anchors (inside column) entries p

/-- Writes the entries of a sequence at a column. -/
def putItems (anchors : List ObjectKey) (column : Nat) : List Form → Pen → Pen
  | [], p => p
  | f :: fs, p =>
    let p := (p.indent column).markEntry ['-']
    putItems anchors column fs (f.put anchors (some column) .entry p)

/-- Writes the entries of a mapping at a column. -/
def putEntries (anchors : List ObjectKey) (column : Nat) : List (Form × Form) → Pen → Pen
  | [], p => p
  | (k, v) :: es, p =>
    let p := p.indent column
    let p := if k.isSimple anchors then (k.put anchors (some column) .key p).markClose [':']
      else
        let p := k.put anchors (some column) .pair (p.markEntry ['?'])
        (p.indent column).markEntry [':']
    putEntries anchors column es (v.put anchors (some column) .pair p)

end

/-- The text of a document. -/
def text (f : Form) : String := ((f.put f.anchors none .entry .start).indent 0).text

end Form

/-- The YAML text of a value. -/
def text (v : Value) : Except Fault String := do
  let (f, _) ← Form.ofValue [] v
  return f.text

end EntityGraph.Yaml
