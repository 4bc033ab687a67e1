import EntityGraph.Host
import EntityGraph.Schema.Consistency
import EntityGraph.Schema.Link
import EntityGraph.Schema.Model
import EntityGraph.Schema.View
import EntityGraph.Settings

/-!
# Compiling

A list of entity declarations becomes a schema: names are checked, defaults are copied, uniqueness
constraints are looked up, relationships are linked, and the fingerprint and the findings are
computed. Either all of it succeeds or there is no schema.
-/

namespace EntityGraph

/-- The default that an attribute of an entity has: a copy of the declared one where the type is
opaque. -/
def AttributeDecl.copyDefault (host : Host) (entity : Value) (a : AttributeDecl) :
    Except Fault Value :=
  if a.type.isOpaque then a.default.deepCopy (host.copier entity a.name) else .ok a.default

/-- The attribute of an entity that a declaration describes, with a default. -/
def AttributeDecl.attribute (entity : Value) (a : AttributeDecl) (default : Value) : Attribute :=
  ⟨entity, a.name, a.type, a.isOptional, default, a.externalStorage, a.preservedOnDelete⟩

namespace Schema

/-- The attribute of an entity that a declaration describes. -/
def attributeOf (host : Host) (entity : Value) (a : AttributeDecl) : Except Failure Attribute :=
  match a.copyDefault host entity with
  | .ok default => .ok (a.attribute entity default)
  | .error f =>
    if f.kind = .type || f.kind = .copying then
      (SchemaError.uncopyableDefault entity a.name f.message).raise
    else .error (.fault f)

/-- Checks that every uniqueness constraint names an attribute. -/
def checkUnique (e : EntityDecl) : List Value → Except Failure Unit
  | [] => .ok ()
  | name :: names => do
    name.checkKey
    if name.among (e.attributes.map (·.name)) then checkUnique e names
    else (SchemaError.unknownUnique e.name name).raise

/-- The attributes of an entity, when its uniqueness constraints name some of them. -/
def skeleton (host : Host) (e : EntityDecl) : Except Failure (EntityDecl × List Attribute) := do
  let attributes ← e.attributes.mapM (attributeOf host e.name)
  checkUnique e e.unique
  return (e, attributes)

/-- The entity of a declaration under some links. -/
def entityOf (config : CompilerConfig) (l : Links) (e : EntityDecl) (attributes : List Attribute) :
    Except Failure Entity := do
  let relationships ← e.relationships.mapM fun r ↦ (Draft.ofLinks l e.name r).freeze
  return ⟨e.name, e.isAbstract, e.boundType.orElse (.text config.defaultBoundType), e.boundType,
    attributes, relationships, e.unique⟩

/-- Whether a fault means that a schema has no text. -/
def isUnserializable (f : Fault) : Bool := f.kind = .type || f.kind = .value || f.kind = .depth

/-- The schema of a graph, or the report that it has no text. -/
def ofGraph? (host : Host) (g : Graph) : Except Failure Schema :=
  match ofGraph g with
  | .ok s => .ok s
  | .error f =>
    if isUnserializable f then (SchemaError.unserializable g.name (host.message f)).raise
    else .error (.fault f)

/-- The text of a count. -/
def countText (n : Nat) : String := String.ofList (Text.decimal n)

/-- The note that a schema is built. -/
def compiledText (s : Schema) : Except Fault String := do
  let name ← s.graph.name.display
  let version ← s.graph.version.display
  return "Compiled schema '" ++ name ++ "' v" ++ version ++ " with " ++
    countText s.graph.entities.length ++ " entities, fingerprint=" ++ s.fingerprint

/-- The note of a finding. -/
def findingText (name : Value) (finding : String) : Except Fault String := do
  return "Schema '" ++ (← name.display) ++ "': " ++ finding

/-- Notes the findings about a schema, and refuses it where none are allowed. -/
def report (config : CompilerConfig) (name : Value) (findings : List String) : Traced Unit := do
  findings.forM fun finding ↦ Traced.note .warning Links.logger (findingText name finding)
  if !findings.isEmpty && config.isStrict then
    Traced.ofResult (SchemaError.inconsistent name findings).raise

/-- The schema that entities of a name and a version compile to on a host. -/
def compile (host : Host) (config : CompilerConfig) (entities : List EntityDecl)
    (name version : Value) : Traced Schema := do
  (checkDistinct .duplicateEntity [] (entities.map (·.name)) : Except Failure Unit)
  let skeletons ← (entities.mapM (skeleton host) :
    Except Failure (List (EntityDecl × List Attribute)))
  Traced.note .debug Links.logger
    (.ok ("Built skeleton for " ++ countText entities.length ++ " entities"))
  let links ← Links.ofEntities entities
  let resolved ← (skeletons.mapM fun (e, attributes) ↦ entityOf config links e attributes :
    Except Failure (List Entity))
  let schema ← (ofGraph? host ⟨name, version, resolved⟩ : Except Failure Schema)
  let findings ← schema.graph.validate
  report config name findings
  Traced.note .info Links.logger schema.compiledText
  return schema

/-- Checks that all entries have names, and that no two have the same. -/
def checkNames (seen : List Value) : List Entry → Except Failure Unit
  | [] => .ok ()
  | .entity e :: rest => do
    checkDistinct .duplicateEntity seen [e.name]
    checkNames (seen ++ [e.name]) rest
  | .named _ name :: rest => do
    checkDistinct .duplicateEntity seen [name]
    checkNames (seen ++ [name]) rest
  | .other type :: _ => .error (.fault (.noMember type "name"))
  | .value v :: _ => .error (.fault (v.lacks "name"))

/-- The entities that entries are. Whatever else has a name has no attributes, which shows when the
entities before it have theirs. -/
def namedEntities (host : Host) : List Entry → Except Failure (List EntityDecl)
  | [] => .ok []
  | .entity e :: rest => do
    let _ ← skeleton host e
    let entities ← namedEntities host rest
    return e :: entities
  | .named type _ :: _ | .other type :: _ => .error (.fault (.noMember type "attributes"))
  | .value v :: _ => .error (.fault (v.lacks "attributes"))

/-- The schema that entries compile to. -/
def compileEntries (host : Host) (config : CompilerConfig) (entries : List Entry)
    (name version : Value) : Traced Schema := do
  (checkNames [] entries : Except Failure Unit)
  let entities ← namedEntities host entries
  compile host config entities name version

end Schema

/-- The schema that a model compiles to on a host. -/
def Model.compile (m : Model) (host : Host) (config : CompilerConfig) : Traced Schema := do
  let start : Except Fault String := do
    let name ← m.name.display
    let version ← m.version.display
    return "Compiling model '" ++ name ++ "' v" ++ version
  Traced.note .debug "entmodel.model" start
  Schema.compile host config m.entities m.name m.version

end EntityGraph
