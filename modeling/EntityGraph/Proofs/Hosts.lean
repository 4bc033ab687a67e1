import EntityGraph.Proofs.Native
import EntityGraph.Schema.Model

/-!
# Compiling on other hosts

What a run is given from outside decides little of how it ends. Hosts that copy foreign objects
alike compile entities to one schema, or fail in one way. Only the words for a default that contains
itself are each host's own.
-/

namespace EntityGraph

/-- An error that can be shown is reported. -/
theorem SchemaError.failure_of_ok {e : SchemaError} {text : String} (h : e.message = .ok text) :
    e.failure = .reported ⟨e, text, h⟩ := by
  unfold failure
  split
  · next text' h' =>
    obtain rfl := Except.ok.inj (h.symm.trans h')
    rfl
  · next h' => cases h.symm.trans h'

private theorem SchemaError.failure_of_error {e : SchemaError} {f : Fault}
    (h : e.message = .error f) :
    e.failure = .fault f := by
  unfold failure
  split
  · next h' => cases h.symm.trans h'
  · next h' => exact congrArg Failure.fault (Except.error.inj (h'.symm.trans h))

/-- What two hosts report is one thing; or it is that a schema of one name has no text, for a reason
that each of the hosts has words of its own for. -/
inductive Report.Echoes (host host' : Host) (r : Report) : Report → Prop
  | same : Echoes host host' r r
  | overflow {name : Value} {r' : Report} (h : r.error = .unserializable name host.overflow)
    (h' : r'.error = .unserializable name host'.overflow) : Echoes host host' r r'

/-- Hosts of the same words report in the same words. -/
theorem Report.Echoes.text_eq {host host' : Host} {r r' : Report} (h : r.Echoes host host' r')
    (words : host'.overflow = host.overflow) : r'.text = r.text := by
  cases h with
  | same => rfl
  | overflow h h' =>
    have texts := r'.text_eq
    rw [h', words, ← h, r.text_eq] at texts
    exact (Except.ok.inj texts).symm

/-- Two runs on two hosts end in one way, or with reports that echo each other. -/
inductive Echoes (host host' : Host) {α : Type} : Except Failure α → Except Failure α → Prop
  | same (x : Except Failure α) : Echoes host host' x x
  | reported {r r' : Report} (h : r.Echoes host host' r') :
    Echoes host host' (.error (.reported r)) (.error (.reported r'))

namespace Echoes

variable {α β : Type} {host host' : Host}

/-- Runs that end alike on every value end alike after runs that end alike. -/
theorem bind {x y : Except Failure α} {f g : α → Except Failure β} (h : Echoes host host' x y)
    (step : ∀ a, x = .ok a → Echoes host host' (f a) (g a)) :
    Echoes host host' (x.bind f) (y.bind g) := by
  cases h with
  | same =>
    cases x with
    | ok a => exact step a rfl
    | error e => exact .same (.error e)
  | reported h => exact .reported h

/-- Runs of which the first reports nothing end in the same way. -/
theorem eq_of_unreported {x y : Except Failure α} (h : Echoes host host' x y)
    (unreported : ∀ r, x ≠ .error (.reported r)) : y = x := by
  cases h with
  | same => rfl
  | @reported r => exact absurd rfl (unreported r)

/-- What echoes a report is a report. -/
theorem exists_eq_reported {r : Report} {y : Except Failure α}
    (h : Echoes host host' (.error (.reported r)) y) :
    ∃ r', y = .error (.reported r') ∧ r.Echoes host host' r' := by
  cases h with
  | same => exact ⟨r, rfl, .same⟩
  | @reported _ r' h => exact ⟨r', rfl, h⟩

/-- The report that a schema has no text because a default contains itself, on two hosts. -/
private theorem raise (name : Value) : Echoes host host'
    ((SchemaError.unserializable name host.overflow).raise : Except Failure α)
    (SchemaError.unserializable name host'.overflow).raise := by
  cases shown : name.display with
  | ok t =>
    have message : ∀ reason, (SchemaError.unserializable name reason).message =
        .ok ("Schema '" ++ t ++ "' cannot be serialized: " ++ reason) := by
      intro reason
      rw [SchemaError.message, shown]
      rfl
    rw [SchemaError.raise, SchemaError.raise, SchemaError.failure_of_ok (message _),
      SchemaError.failure_of_ok (message _)]
    exact .reported (.overflow rfl rfl)
  | error g =>
    have message : ∀ reason, (SchemaError.unserializable name reason).message = .error g := by
      intro reason
      rw [SchemaError.message, shown]
      rfl
    rw [SchemaError.raise, SchemaError.raise, SchemaError.failure_of_error (message _),
      SchemaError.failure_of_error (message _)]
    exact .same _

end Echoes

namespace Schema

variable {host host' : Host}

private theorem ofGraph?_echoes (g : Graph) : Echoes host host' (ofGraph? host g)
    (ofGraph? host' g) := by
  unfold ofGraph?
  cases ofGraph g with
  | ok s => exact .same (.ok s)
  | error f =>
    dsimp only
    split
    · cases f with
      | endless => exact .raise g.name
      | _ => exact .same _
    · exact .same _

private theorem skeleton_congr {entities : List EntityDecl}
    (alike : host.CopiesAlike host' entities)
    {e : EntityDecl} (he : e ∈ entities) : skeleton host e = skeleton host' e := by
  have attributes : e.attributes.mapM (attributeOf host e.name) =
      e.attributes.mapM (attributeOf host' e.name) := by
    refine Success.mapM_congr fun a ha ↦ ?_
    rw [attributeOf, attributeOf, AttributeDecl.copyDefault_congr (alike e he a ha)]
  rw [skeleton, skeleton, attributes]

private theorem compile_echoes {entities : List EntityDecl}
    (alike : host.CopiesAlike host' entities) (config : CompilerConfig) (name version : Value) :
    Echoes host host' (compile host config entities name version).result
      (compile host' config entities name version).result := by
  have skeletons : entities.mapM (skeleton host) = entities.mapM (skeleton host') :=
    Success.mapM_congr fun e he ↦ skeleton_congr alike he
  simp only [compile, skeletons, Traced.result_bind]
  refine (Echoes.same _).bind fun _ _ ↦ (Echoes.same _).bind fun _ _ ↦
    (Echoes.same _).bind fun _ _ ↦ (Echoes.same _).bind fun _ _ ↦
    (Echoes.same _).bind fun _ _ ↦ (ofGraph?_echoes _).bind fun _ _ ↦ .same _

end Schema

/-- A model compiles alike on hosts that copy the objects in its defaults alike. -/
theorem Model.compile_echoes {host host' : Host} {m : Model}
    (alike : host.CopiesAlike host' m.entities) (config : CompilerConfig) :
    Echoes host host' (m.compile host config).result (m.compile host' config).result := by
  simp only [compile, Traced.result_bind]
  exact (Echoes.same _).bind fun _ _ ↦ Schema.compile_echoes alike config m.name m.version

end EntityGraph
