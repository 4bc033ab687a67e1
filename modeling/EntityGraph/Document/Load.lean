import EntityGraph.Bytes.Utf8
import EntityGraph.Document.Folder
import EntityGraph.Document.Yaml
import EntityGraph.Text.Lines

/-!
# Loading documents

The model that a file declares. The suffix of a file says how its text is read, which is looked at
after the text is known to be one.
-/

namespace EntityGraph.Document

open EntityGraph.Text

/-- The characters of a file. -/
def charactersOf (path : Path) (bytes : List UInt8) : Except Failure (List Char) :=
  match Bytes.Utf8.decode bytes with
  | .ok cs => .ok (unifyBreaks cs)
  | .error e =>
    (SchemaError.format ("file is not valid UTF-8: " ++ e.message) (some path.text)).raise

/-- The model that the bytes of a file declare. -/
def readBytes (yaml : Yaml.Library) (path : Path) (bytes : List UInt8) : Except Failure Model := do
  let text := String.ofList (← charactersOf path bytes)
  if [".yaml", ".yml"].contains path.suffix then readYaml yaml text
  else if path.suffix = ".json" then readJson text
  else
    (SchemaError.format ("unsupported schema file type '" ++ path.suffix ++ "'")
      (some path.text)).raise

/-- The model that is declared at a path of which reading found bytes or a fault. -/
def load (yaml : Yaml.Library) (path : Path) (found : Except FileFault (List UInt8)) :
    Except Failure Model := do
  if path.text.contains '\x00' then Refusal.zeroInPath.raise
  else
    let bytes ← found.mapError .file
    readBytes yaml path bytes

end EntityGraph.Document
