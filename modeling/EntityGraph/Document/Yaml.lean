import EntityGraph.Document.Json
import EntityGraph.Yaml.Library

/-!
# Documents as YAML

The YAML texts of schema documents. A text whose value does not count as true is read as an empty
document.
-/

namespace EntityGraph.Document

/-- The failure of a text that a library does not read. -/
def yamlFailure : Yaml.Rejection → Failure
  | .refused words => (SchemaError.format ("invalid YAML: " ++ words) none).failure
  | .broken m => .unreadable m

/-- The model that a YAML text declares. -/
def readYaml (yaml : Yaml.Library) (text : String) : Except Failure Model :=
  match yaml.read text with
  | .ok v => read (orEmpty v)
  | .error e => .error (yamlFailure e)

end EntityGraph.Document
