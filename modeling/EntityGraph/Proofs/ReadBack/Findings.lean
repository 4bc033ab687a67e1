import EntityGraph.Proofs.Success
import EntityGraph.Schema.Consistency

/-!
# What findings depend on

The findings about a graph depend on its relationships and on what they are linked to. The names of
inverses that relationships declare, and everything else about entities, are passed over.
-/

namespace EntityGraph

/-- A relationship without the name of the inverse that it declares. -/
def Relationship.bare (r : Relationship) : Relationship := { r with inverseName := .null }

/-- An entity of which nothing is kept but its name and its relationships. -/
def Entity.bare (e : Entity) : Entity :=
  ⟨e.name, false, .null, .null, [], e.relationships.map (·.bare), []⟩

/-- A finding about relationships without the names that they declare. -/
def Finding.bare : Finding → Finding
  | strayInverse r inverse => strayInverse r.bare inverse.bare
  | unlinkedPair r other => unlinkedPair r.bare other.bare

/-- What has been found so far about relationships without the names that they declare. -/
def Survey.bare (s : Survey) : Survey := ⟨s.seen, s.findings.map (·.bare)⟩

private theorem Survey.bare_concat (seen : List Key) (fs : List Finding) (f : Finding) :
    Survey.bare ⟨seen, fs ++ [f]⟩ = ⟨seen, fs.map (·.bare) ++ [f.bare]⟩ := by
  rw [Survey.bare, List.map_append]
  rfl

private theorem Finding.message_bare (f : Finding) : f.bare.message = f.message := by
  cases f <;> rfl

namespace Graph

/-- A graph of which nothing is kept but entities and their relationships. -/
def bare (g : Graph) : Graph := ⟨g.name, g.version, g.entities.map (·.bare)⟩

variable (g : Graph)

private theorem relationships_bare : g.bare.relationships = g.relationships.map (·.bare) := by
  simp [relationships, bare, Entity.bare, List.flatMap_map, List.map_flatMap]

/-- An entity is found as before. -/
theorem entity?_bare (name : Value) :
    g.bare.entity? name = (g.entity? name).map (·.map (·.bare)) := by
  have found : g.bare.find? name = (g.find? name).map (·.bare) := by
    rw [find?, find?, bare, List.find?_map]
    rfl
  rw [entity?, entity?, found]
  cases name.checkKey <;> rfl

private theorem relationshipAt_bare (key : Key) :
    g.bare.relationshipAt key = (g.relationshipAt key).map (·.map (·.bare)) := by
  have found : ∀ e : Entity, e.bare.relationship? key.name =
      (e.relationship? key.name).map (·.bare) := by
    intro e
    rw [Entity.relationship?, Entity.relationship?, Entity.bare, List.find?_map]
    rfl
  rw [relationshipAt, relationshipAt, entity?_bare]
  cases g.entity? key.entity with
  | error f => rfl
  | ok e =>
    cases e with
    | none => rfl
    | some e => exact congrArg Except.ok (found e)

private theorem inverseOf_bare (r : Relationship) :
    g.bare.inverseOf r.bare = (g.inverseOf r).map (·.map (·.bare)) := by
  have inverse : r.bare.inverse = r.inverse := rfl
  rw [inverseOf, inverseOf, inverse]
  cases r.inverse with
  | none => rfl
  | some key => exact g.relationshipAt_bare key

private theorem destinationOf_bare (r : Relationship) :
    g.bare.destinationOf r.bare = (g.destinationOf r).map (·.bare) := by
  have destination : r.bare.destination = r.destination := rfl
  rw [destinationOf, destinationOf, destination, entity?_bare]
  cases g.entity? r.destination with
  | error f => rfl
  | ok e =>
    cases e with
    | none => cases r.destination.inspect <;> rfl
    | some e => rfl

/-- One more relationship is surveyed as before. -/
private theorem visit_bare (s : Survey) (r : Relationship) :
    s.bare.visit g.bare r.bare = (s.visit g r).map (·.bare) := by
  rw [Survey.visit, Survey.visit, inverseOf_bare]
  cases g.inverseOf r with
  | error f => rfl
  | ok i =>
    cases i with
    | some i =>
      show (if r.key.among s.seen then _ else _) =
        Except.map _ (if r.key.among s.seen then _ else _)
      split
      · rfl
      · show (if i.destination.equals r.entity then _ else _) =
          Except.map _ (if i.destination.equals r.entity then _ else _)
        split
        · rfl
        · exact congrArg Except.ok (Survey.bare_concat _ s.findings (.strayInverse r i)).symm
    | none =>
      show (if !r.isToMany then _ else _) = Except.map _ (if !r.isToMany then _ else _)
      split
      · rfl
      · show (g.bare.destinationOf r.bare >>= _) = Except.map _ (g.destinationOf r >>= _)
        rw [destinationOf_bare]
        cases g.destinationOf r with
        | error f => rfl
        | ok e =>
          have found : e.bare.relationships.find? (Survey.isPartner s.bare.seen r.bare) =
              (e.relationships.find? (Survey.isPartner s.seen r)).map (·.bare) := by
            rw [Entity.bare, List.find?_map]
            rfl
          simp only [Except.map, bind, Except.bind, found]
          cases e.relationships.find? (Survey.isPartner s.seen r) with
          | none => rfl
          | some other =>
            exact congrArg Except.ok (Survey.bare_concat _ s.findings (.unlinkedPair r other)).symm

private theorem foldlM_visit_bare (rs : List Relationship) (s : Survey) :
    (rs.map (·.bare)).foldlM (Survey.visit g.bare) s.bare =
      (rs.foldlM (Survey.visit g) s).map (·.bare) := by
  induction rs generalizing s with
  | nil => rfl
  | cons r rs ih =>
    rw [List.map_cons, List.foldlM_cons, List.foldlM_cons, visit_bare]
    cases s.visit g r with
    | error f => rfl
    | ok t => exact ih t

/-- The findings about a graph have the same sentences. -/
theorem validate_bare : g.bare.validate = g.validate := by
  have findings : g.bare.findings = g.findings.map (·.map (·.bare)) := by
    have survey := g.foldlM_visit_bare g.relationships ⟨[], []⟩
    rw [Graph.findings, Graph.findings, relationships_bare]
    cases h : g.relationships.foldlM (Survey.visit g) ⟨[], []⟩ <;>
      exact congrArg (Except.map _) (h ▸ survey)
  rw [validate, validate, findings]
  cases g.findings with
  | error f => rfl
  | ok fs =>
    show (fs.map Finding.bare).mapM Finding.message = fs.mapM Finding.message
    rw [List.mapM_map]
    exact congrArg (fs.mapM ·) (funext Finding.message_bare)

end Graph

end EntityGraph
