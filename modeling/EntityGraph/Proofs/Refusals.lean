import EntityGraph.Proofs.Coherence

/-!
# Errors that compilation reports

The codes of the errors that each stage of compilation can report. A relationship is fixed only once
all of them are linked, so that an unresolved one is never reported.
-/

namespace EntityGraph

/-- The code of the error that a failure reports, if it reports one. -/
def Failure.code? : Failure → Option String
  | reported r => some r.error.code
  | _ => none

/-- A computation reports no error but those of some codes. -/
def ReportsOnly {α : Type} (codes : List String) (x : Except Failure α) : Prop :=
  ∀ f, x = .error f → ∀ c, f.code? = some c → c ∈ codes

open Success (FailsOnly)

namespace ReportsOnly

variable {α β : Type} {codes : List String}

/-- A value reports no error. -/
theorem ok (a : α) : ReportsOnly codes (.ok a) := FailsOnly.ok a

/-- A fault is no report. -/
theorem fault (f : Fault) : ReportsOnly codes (.error (.fault f) : Except Failure α) :=
  FailsOnly.error nofun

/-- A computation that can only meet a fault reports no error. -/
theorem mapError (x : Except Fault α) : ReportsOnly codes (x.mapError .fault) :=
  FailsOnly.mapError fun _ _ ↦ nofun

/-- An error is reported with its code, unless it cannot be shown. -/
theorem raise (e : SchemaError) (h : e.code ∈ codes) :
    ReportsOnly codes (e.raise : Except Failure α) := by
  refine FailsOnly.error fun c hc ↦ ?_
  unfold SchemaError.failure at hc
  split at hc
  · obtain rfl := Option.some.inj hc
    exact h
  · cases hc

/-- Two computations in a row report what either reports. -/
theorem bind {x : Except Failure α} {f : α → Except Failure β} (hx : ReportsOnly codes x)
    (hf : ∀ a, x = .ok a → ReportsOnly codes (f a)) : ReportsOnly codes (x >>= f) :=
  FailsOnly.bind hx hf

/-- Two traced computations in a row report what either reports. -/
theorem result_bind {t : Traced α} {f : α → Traced β} (ht : ReportsOnly codes t.result)
    (hf : ∀ a, t.result = .ok a → ReportsOnly codes (f a).result) :
    ReportsOnly codes (t >>= f).result :=
  FailsOnly.result_bind ht hf

/-- A note reports no error. -/
theorem note (level : LogLevel) (logger : String) (message : Except Fault String) :
    ReportsOnly codes (Traced.note level logger message).result :=
  FailsOnly.note level logger fun _ _ ↦ nofun

/-- Computations for the members of a list report what those for single members do. -/
theorem mapM {f : α → Except Failure β} {as : List α} (h : ∀ a ∈ as, ReportsOnly codes (f a)) :
    ReportsOnly codes (as.mapM f) :=
  FailsOnly.mapM h

private theorem foldlM {f : β → α → Traced β} (h : ∀ b a, ReportsOnly codes (f b a).result)
    (as : List α) (b : β) : ReportsOnly codes (as.foldlM f b).result := by
  rw [Traced.result_foldlM]
  exact (FailsOnly.foldlM (fun _ ↦ True) (fun a _ b _ ↦ ⟨h b a, fun _ _ ↦ trivial⟩) trivial).1

private theorem forM {f : α → Traced Unit} (h : ∀ a, ReportsOnly codes (f a).result) (as : List α) :
    ReportsOnly codes (as.forM f).result :=
  FailsOnly.forM fun a _ ↦ h a

end ReportsOnly

open ReportsOnly

variable {codes : List String}

private theorem reportsOnly_checkDistinct (refuse : Value → SchemaError)
    (h : ∀ n, (refuse n).code ∈ codes) (seen names : List Value) :
    ReportsOnly codes (checkDistinct refuse seen names) := by
  induction names generalizing seen with
  | nil => exact ok ()
  | cons n names ih =>
    refine (mapError n.checkKey).bind fun _ _ ↦ ?_
    split
    · exact (raise _ (h n)).bind fun _ _ ↦ ih (seen ++ [n])
    · exact ih (seen ++ [n])

namespace Links

private theorem reportsOnly_join? (h : "CONFLICTING_INVERSE" ∈ codes) (l : Links) (k i : Key) :
    ReportsOnly codes (l.join? k i) := by
  have free : ∀ k i, ReportsOnly codes (l.checkFree k i) := by
    intro k i
    unfold checkFree
    split
    · exact ok ()
    · split
      · exact ok ()
      · exact (mapError _).bind fun _ _ ↦ (mapError _).bind fun _ _ ↦ raise _ h
  exact (free k i).bind fun _ _ ↦ (free i k).bind fun _ _ ↦ ok _

private theorem reportsOnly_visit
    (h : ["UNKNOWN_DESTINATION_ENTITY", "UNKNOWN_INVERSE_RELATIONSHIP",
      "CONFLICTING_INVERSE"] ⊆ codes) (entities : List EntityDecl) (l : Links)
    (owner : EntityDecl) (r : RelationshipDecl) :
    ReportsOnly codes (visit entities l owner r).result := by
  refine (mapError r.destination.checkKey).result_bind fun _ _ ↦ ?_
  split
  · exact raise _ (h (by simp [SchemaError.code]))
  · next destination _ =>
    split
    · exact (note _ _ _).result_bind fun _ _ ↦ ok _
    · refine (mapError r.inverse.checkKey).result_bind fun _ _ ↦ ?_
      split
      · exact raise _ (h (by simp [SchemaError.code]))
      · exact (reportsOnly_join? (h (by simp)) _ _ _).result_bind fun _ _ ↦
          (note _ _ _).result_bind fun _ _ ↦ ok _

private theorem reportsOnly_ofEntities
    (h : ["UNKNOWN_DESTINATION_ENTITY", "UNKNOWN_INVERSE_RELATIONSHIP",
      "CONFLICTING_INVERSE"] ⊆ codes) (entities : List EntityDecl) :
    ReportsOnly codes (ofEntities entities).result := by
  apply foldlM
  intro l p
  exact reportsOnly_visit h entities l p.1 p.2

end Links

namespace Schema

private theorem reportsOnly_attributeOf (h : "UNCOPYABLE_DEFAULT" ∈ codes) (host : Host)
    (entity : Value) (a : AttributeDecl) : ReportsOnly codes (attributeOf host entity a) := by
  unfold attributeOf
  split
  · exact ok _
  · split
    · exact raise _ h
    · exact fault _

private theorem reportsOnly_checkUnique (h : "UNKNOWN_UNIQUE_ATTRIBUTE" ∈ codes) (e : EntityDecl)
    (names : List Value) : ReportsOnly codes (checkUnique e names) := by
  induction names with
  | nil => exact ok ()
  | cons n names ih =>
    refine (mapError n.checkKey).bind fun _ _ ↦ ?_
    split
    · exact ih
    · exact raise _ h

private theorem reportsOnly_skeleton
    (h : ["UNCOPYABLE_DEFAULT", "UNKNOWN_UNIQUE_ATTRIBUTE"] ⊆ codes)
    (host : Host) (e : EntityDecl) : ReportsOnly codes (skeleton host e) :=
  (mapM fun a _ ↦ reportsOnly_attributeOf (h (by simp)) host e.name a).bind fun _ _ ↦
    (reportsOnly_checkUnique (h (by simp)) e e.unique).bind fun _ _ ↦ ok _

private theorem reportsOnly_ofGraph? (h : "UNSERIALIZABLE_SCHEMA" ∈ codes) (host : Host)
    (g : Graph) :
    ReportsOnly codes (ofGraph? host g) := by
  unfold ofGraph?
  split
  · exact ok _
  · split
    · exact raise _ h
    · exact fault _

private theorem reportsOnly_report (h : "INCONSISTENT_SCHEMA" ∈ codes) (config : CompilerConfig)
    (name : Value) (findings : List String) :
    ReportsOnly codes (report config name findings).result := by
  refine (forM (fun f ↦ note _ _ _) findings).result_bind fun _ _ ↦ ?_
  split
  · exact raise _ h
  · exact ok ()

/-- The codes of the errors that compilation reports. -/
def compileCodes : List String :=
  ["DUPLICATE_ENTITY", "UNCOPYABLE_DEFAULT", "UNKNOWN_UNIQUE_ATTRIBUTE",
    "UNKNOWN_DESTINATION_ENTITY", "UNKNOWN_INVERSE_RELATIONSHIP", "CONFLICTING_INVERSE",
    "UNSERIALIZABLE_SCHEMA", "INCONSISTENT_SCHEMA"]

/-- Compilation of textual entities reports no error but those of its codes. An unresolved
relationship is none of them: a relationship is fixed only after all of them are directed. -/
theorem reportsOnly_compile {entities : List EntityDecl} (texts : ∀ e ∈ entities, e.IsTextual)
    (host : Host) (config : CompilerConfig) (name version : Value) :
    ReportsOnly compileCodes (compile host config entities name version).result := by
  have names : ReportsOnly compileCodes
      (checkDistinct .duplicateEntity [] (entities.map (·.name))) :=
    reportsOnly_checkDistinct _ (by simp [compileCodes, SchemaError.code]) _ _
  refine names.result_bind (t := liftM _) fun _ hnames ↦ ?_
  have distinct := (checkDistinct_entities_eq_ok (EntityDecl.isNamed texts) _).mp hnames
  refine (mapM fun e _ ↦ reportsOnly_skeleton (by simp [compileCodes]) host e).result_bind
    (t := liftM _) fun skeletons hskeletons ↦ ?_
  refine (note _ _ _).result_bind fun _ _ ↦ ?_
  refine (Links.reportsOnly_ofEntities (by simp [compileCodes]) entities).result_bind
    fun l hl ↦ ?_
  obtain ⟨-, rfl⟩ := ((Success.mapM_eq_ok_map (skeleton host) _ _ entities fun e he ↦
    skeleton_eq_ok (texts e he).toIsNamed) skeletons).mp hskeletons
  have resolved :=
    (mapM_entityOf_eq_ok (EntityDecl.isNamed texts) distinct hl host config _).mpr rfl
  refine result_bind (t := liftM _) (fun f hf ↦ ?_) fun _ _ ↦ ?_
  · cases resolved.symm.trans hf
  · refine (reportsOnly_ofGraph? (by simp [compileCodes]) host _).result_bind
      (t := liftM _) fun s _ ↦ ?_
    refine (mapError _).result_bind (t := liftM _) fun _ _ ↦ ?_
    refine (reportsOnly_report (by simp [compileCodes]) config name _).result_bind fun _ _ ↦ ?_
    exact (note _ _ _).result_bind fun _ _ ↦ ok s

end Schema

end EntityGraph
