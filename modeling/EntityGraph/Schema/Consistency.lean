import EntityGraph.Schema.Graph

/-!
# Consistency of graphs

Findings about linked and unlinked relationships beyond what linking demands: a linked pair one
side of which does not lead back, and two to-many relationships that lead to each other's entities
although neither has an inverse. Every pair is reported at most once, when the first of its sides
is met.
-/

namespace EntityGraph

/-- Something odd about two relationships. -/
inductive Finding
  /-- The inverse of the first relationship does not lead back to its entity. -/
  | strayInverse (r inverse : Relationship)
  /-- Two to-many relationships lead to each other's entities without an inverse. -/
  | unlinkedPair (r other : Relationship)

/-- The sentence of a finding. -/
def Finding.message : Finding → Except Fault String
  | strayInverse r inverse => do
    let key ← r.key.text
    let inverseKey ← inverse.key.text
    let destination ← inverse.destination.display
    let owner ← r.entity.display
    return "Relationship '" ++ key ++ "' has inverse '" ++ inverseKey ++
      "' whose destination is '" ++ destination ++ "', not '" ++ owner ++ "'"
  | unlinkedPair r other => do
    let key ← r.key.text
    let otherKey ← other.key.text
    return "To-many relationships '" ++ key ++ "' and '" ++ otherKey ++
      "' point at each other but neither declares an inverse"

/-- What has been found so far: the keys that need not be looked at again, and the findings. -/
structure Survey where
  seen : List Key
  findings : List Finding

namespace Survey

/-- Whether a relationship makes an unlinked pair with one that is met before it. -/
def isPartner (seen : List Key) (r other : Relationship) : Bool :=
  !other.key.same r.key && !other.key.among seen && other.isToMany && other.inverse.isNone &&
    other.destination.equals r.entity

/-- The survey after one more relationship. -/
def visit (g : Graph) (s : Survey) (r : Relationship) : Except Fault Survey := do
  match ← g.inverseOf r with
  | some inverse =>
    if r.key.among s.seen then return s
    let seen := inverse.key :: s.seen
    if inverse.destination.equals r.entity then return ⟨seen, s.findings⟩
    return ⟨seen, s.findings ++ [.strayInverse r inverse]⟩
  | none =>
    if !r.isToMany then return s
    let destination ← g.destinationOf r
    match destination.relationships.find? (isPartner s.seen r) with
    | some other => return ⟨r.key :: s.seen, s.findings ++ [.unlinkedPair r other]⟩
    | none => return s

end Survey

/-- Every relationship of a graph in order. -/
def Graph.relationships (g : Graph) : List Relationship := g.entities.flatMap (·.relationships)

/-- The findings about a graph. -/
def Graph.findings (g : Graph) : Except Fault (List Finding) :=
  (g.relationships.foldlM (Survey.visit g) ⟨[], []⟩).map (·.findings)

/-- The sentences of the findings about a graph. -/
def Graph.validate (g : Graph) : Except Fault (List String) := do
  let findings ← g.findings
  findings.mapM (·.message)

end EntityGraph
