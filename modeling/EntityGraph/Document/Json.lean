import EntityGraph.Document.Read
import EntityGraph.Document.Write
import EntityGraph.Json.Reader
import EntityGraph.Json.Writer

/-!
# Documents as JSON

The JSON texts of schema documents. A text whose value does not count as true is read as an empty
document.
-/

namespace EntityGraph.Document

/-- The value of a document, an empty mapping where a text holds none. -/
def orEmpty (v : Value) : Value := v.orElse (.record [])

/-- The model that a JSON text declares. -/
def readJson (text : String) : Except Failure Model :=
  let cs := text.toList
  match Json.read cs with
  | .ok v => read (orEmpty v)
  | .error (.tooLong digits) =>
    .error (.unreadable ⟨.value, (Json.ReadError.tooLong digits).message cs⟩)
  | .error e => (SchemaError.format ("invalid JSON: " ++ e.message cs) none).raise

/-- The JSON text of a document. -/
def jsonText (v : Value) : Except Fault String := Json.text .document v

end EntityGraph.Document
