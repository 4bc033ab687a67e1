import Mathlib.Data.List.Induction
import EntityGraph.Proofs.Coherence

/-!
# Which error comes first

Compilation reports the first thing that is wrong, in the order of declaration. A name that repeats
comes before everything else. Among relationships it is the earliest one whose destination or
inverse is not declared, or which would make a relationship the inverse of two, given those before
it.
-/

namespace EntityGraph

/-- A computation fails and reports an error, with its message. -/
def Reports {α : Type} (x : Except Failure α) (e : SchemaError) : Prop :=
  ∃ text h, x = .error (.reported ⟨e, text, h⟩)

/-- An error that can be said is reported. -/
theorem reports_raise {α : Type} {e : SchemaError} {text : String} (h : e.message = .ok text) :
    Reports (e.raise : Except Failure α) e := by
  refine ⟨text, h, ?_⟩
  unfold SchemaError.raise SchemaError.failure
  split
  · next t ht =>
    obtain rfl := Except.ok.inj (ht.symm.trans h)
    rfl
  · next f hf => cases hf.symm.trans h

/-- A name is the first one of some that occurs a second time. -/
def IsFirstRepeated (names : List Value) (n : Value) : Prop :=
  ∃ before after, names = before ++ n :: after ∧ before.Nodup ∧ n ∈ before

namespace Links

/-- What is wrong with a relationship that comes after some others, as the error that says so. A
conflict is about the relationship if it has another inverse already, and otherwise about the
inverse that it asks for. -/
inductive Blames (entities : List EntityDecl) (before : List (EntityDecl × RelationshipDecl))
    (p : EntityDecl × RelationshipDecl) : SchemaError → Prop
  | destination (absent : ∀ e ∈ entities, e.name ≠ p.2.destination) :
    Blames entities before p (.unknownDestination p.1.name p.2.name p.2.destination)
  | inverse {e : EntityDecl} (he : e ∈ entities) (hd : e.name = p.2.destination)
    (hn : p.2.inverse.isNull = false) (absent : ∀ i ∈ e.relationships, i.name ≠ p.2.inverse) :
    Blames entities before p (.unknownInverse p.1.name p.2.name p.2.inverse p.2.destination)
  | conflict {w k existing requested : Key} {linked asked : String}
    (resolves : Resolves entities p.2) (wanted : wanted? p = some w)
    (conflict : ¬ OneToOne (before ++ [p]))
    (side : (k = keyOf p ∧ requested = w) ∨
      ((∀ i, Joined before (keyOf p) i → i = w) ∧ k = w ∧ requested = keyOf p))
    (joined : Joined before k existing) (other : existing ≠ requested)
    (hlinked : existing.text = .ok linked) (hasked : requested.text = .ok asked) :
    Blames entities before p (.conflictingInverse k.entity k.name (.text linked) (.text asked))

/-- An error is about the earliest declared relationship that anything is wrong with. -/
def BlamesFirst (entities : List EntityDecl) (e : SchemaError) : Prop :=
  ∃ before p after, declared entities = before ++ p :: after ∧ Blames entities before p e ∧
    ∀ first q rest, before = first ++ q :: rest → ∀ e', ¬ Blames entities first q e'

private theorem checkFree_eq_raise (l : Links) {k existing requested : Key} (he : existing.IsText)
    (hr : requested.IsText) (hl : l.inverse? k = some existing) (other : existing ≠ requested)
    {linked asked : String} (hlinked : existing.text = .ok linked)
    (hasked : requested.text = .ok asked) :
    l.checkFree k requested =
      (SchemaError.conflictingInverse k.entity k.name (.text linked) (.text asked)).raise := by
  have apart : existing.same requested = false := by
    rw [← Bool.not_eq_true, he.same_iff hr]
    exact other
  rw [checkFree, hl]
  simp only [apart, hlinked, hasked]
  rfl

/-- Where a relationship and the inverse that it asks for are in conflict with those before them,
they are not joined: one of them has another inverse already, and the first such one is reported. -/
private theorem exists_join?_eq_raise {ps : List (EntityDecl × RelationshipDecl)}
    {p : EntityDecl × RelationshipDecl} {l : Links}
    (linked : ∀ k i, k.IsText → (l.inverse? k = some i ↔ Joined ps k i))
    (hps : ∀ q ∈ ps, IsTextual q) (hp : IsTextual p) {w : Key} (hw : wanted? p = some w)
    (hone : OneToOne ps) (conflict : ¬ OneToOne (ps ++ [p])) :
    ∃ k existing requested linked asked, ((k = keyOf p ∧ requested = w) ∨
        ((∀ i, Joined ps (keyOf p) i → i = w) ∧ k = w ∧ requested = keyOf p)) ∧
      Joined ps k existing ∧ existing ≠ requested ∧ existing.text = .ok linked ∧
      requested.text = .ok asked ∧ l.join? (keyOf p) w =
        (SchemaError.conflictingInverse k.entity k.name (.text linked) (.text asked)).raise := by
  have hkey := hp.keyOf
  have hwt := hp.wanted hw
  obtain ⟨own, hown⟩ := hkey.exists_text
  obtain ⟨asked, hasked⟩ := hwt.exists_text
  by_cases first : ∃ i, Joined ps (keyOf p) i ∧ i ≠ w
  · obtain ⟨i, hi, other⟩ := first
    have hit := hi.isText hps
    obtain ⟨existing, hexisting⟩ := hit.exists_text
    refine ⟨keyOf p, i, w, existing, asked, .inl ⟨rfl, rfl⟩, hi, other, hexisting, hasked, ?_⟩
    rw [join?, l.checkFree_eq_raise hit hwt ((linked _ i hkey).mpr hi) other hexisting hasked]
    rfl
  · have free : ∀ i, Joined ps (keyOf p) i → i = w := fun i hi ↦
      not_not.mp fun other ↦ first ⟨i, hi, other⟩
    have second : ∃ j, Joined ps w j ∧ j ≠ keyOf p := by
      by_contra taken
      refine conflict ((oneToOne_concat_some hw).mpr ⟨hone, free, fun j hj ↦ ?_⟩)
      exact not_not.mp fun other ↦ taken ⟨j, hj, other⟩
    obtain ⟨j, hj, other⟩ := second
    have hjt := hj.isText hps
    obtain ⟨existing, hexisting⟩ := hjt.exists_text
    have passed : l.checkFree (keyOf p) w = .ok () :=
      (checkFree_eq_ok l hwt fun i hi ↦ ((linked _ i hkey).mp hi).isText hps).mpr fun i hi ↦
        free i ((linked _ i hkey).mp hi)
    refine ⟨w, j, keyOf p, existing, own, .inr ⟨free, rfl, rfl⟩, hj, other, hexisting, hown, ?_⟩
    rw [join?, passed,
      l.checkFree_eq_raise hjt hkey ((linked _ j hwt).mpr hj) other hexisting hown]
    rfl

section Visit

variable {entities : List EntityDecl} (texts : ∀ e ∈ entities, e.IsNamed)
  (distinct : (entities.map (·.name)).Nodup) {ps : List (EntityDecl × RelationshipDecl)}
  {p : EntityDecl × RelationshipDecl}

/-- The error about a relationship of texts can be said. -/
private theorem Blames.exists_message (hp : IsTextual p) {e : SchemaError}
    (h : Blames entities ps p e) : ∃ text, e.message = .ok text := by
  obtain ⟨owner, howner⟩ := hp.1.exists_display
  obtain ⟨name, hname⟩ := hp.2.name.exists_display
  obtain ⟨destination, hdestination⟩ := hp.2.destination.exists_display
  cases h with
  | destination absent =>
    exact ⟨_, by
      simp only [SchemaError.message, SchemaError.memberText, howner, hname, hdestination]
      rfl⟩
  | inverse he hd hn absent =>
    obtain ⟨inverse, hinverse⟩ := (hp.inverse hn).exists_display
    exact ⟨_, by
      simp only [SchemaError.message, SchemaError.memberText, howner, hname, hinverse,
        hdestination, p.2.directed]
      rfl⟩
  | conflict resolves wanted conflict side joined other hlinked hasked =>
    next w k existing requested linked asked =>
    have hk : k.IsText := by
      rcases side with ⟨rfl, -⟩ | ⟨-, rfl, -⟩
      · exact hp.keyOf
      · exact hp.wanted wanted
    obtain ⟨member, hmember⟩ := hk.exists_text
    simp only [SchemaError.message,
      show SchemaError.memberText k.entity k.name = .ok member from hmember]
    split
    · exact ⟨_, rfl⟩
    · exact ⟨_, rfl⟩

include distinct

/-- The destination of a relationship that resolves declares its inverse, if it has one. -/
theorem Resolves.exists_inverse {r : RelationshipDecl} (h : Resolves entities r) {d : EntityDecl}
    (hd : d ∈ entities) (hn : d.name = r.destination) (named : r.inverse.isNull = false) :
    ∃ i ∈ d.relationships, i.name = r.inverse := by
  obtain ⟨d', hd', hn', hi⟩ := h
  obtain rfl : d = d' := List.inj_on_of_nodup_map distinct hd hd' (hn.trans hn'.symm)
  exact hi named

/-- Nothing is wrong with a relationship that resolves and keeps the closure one to one. -/
theorem not_blames (resolves : Resolves entities p.2)
    (hone : OneToOne (ps ++ [p])) (e : SchemaError) : ¬ Blames entities ps p e := by
  intro h
  cases h with
  | destination absent =>
    obtain ⟨d, hd, hname, -⟩ := resolves
    exact absent d hd hname
  | inverse hd hname hn absent =>
    obtain ⟨i, hi, hin⟩ := resolves.exists_inverse distinct hd hname hn
    exact absent i hi hin
  | conflict resolves wanted conflict side joined other hlinked hasked => exact conflict hone

include texts

/-- A step for a relationship that has no inverse elsewhere fails with what is wrong with it. -/
private theorem visit_eq_raise {l : Links} (h : Records ps l) (hps : ∀ q ∈ ps, IsTextual q)
    (hone : OneToOne ps) (hp : IsTextual p)
    (wrong : ¬ (Resolves entities p.2 ∧ OneToOne (ps ++ [p]))) :
    ∃ e, Blames entities ps p e ∧ (visit entities l p.1 p.2).result = e.raise := by
  have hkey := hp.keyOf
  have resolved := resolves_iff texts distinct hp.2
  simp only [visit, Traced.result_bind, Traced.result_liftM_fault, hp.2.destination.checkKey]
  cases he : EntityDecl.find? entities p.2.destination with
  | none =>
    refine ⟨_, .destination ?_, rfl⟩
    intro e he' hd
    cases he.symm.trans ((find?_eq_some texts distinct hp.2.destination e).mpr ⟨he', hd⟩)
  | some d =>
    obtain ⟨hd, hdn⟩ := (find?_eq_some texts distinct hp.2.destination d).mp he
    cases hn : p.2.inverse.isNull with
    | true =>
      have hw := (wanted?_eq_none p).mpr hn
      refine absurd ⟨resolved.mpr ⟨d, he, ?_⟩, (oneToOne_concat_none hw).mpr hone⟩ wrong
      simp [hn]
    | false =>
      have ht := hp.inverse hn
      cases hi : d.member? p.2.inverse with
      | none =>
        refine ⟨_, .inverse hd hdn hn ?_, ?_⟩
        · intro i hi' hin
          cases hi.symm.trans ((member?_eq_some texts hd ht i).mpr ⟨hi', hin⟩)
        · simp [ht.checkKey, hi, Except.mapError, Except.bind, SchemaError.raise]
      | some i =>
        obtain ⟨hi', hin⟩ := (member?_eq_some texts hd ht i).mp hi
        have hw : wanted? p = some ⟨d.name, i.name⟩ :=
          (wanted?_eq_some p _).mpr ⟨hn, by rw [hdn, hin]⟩
        have hwt := hp.wanted hw
        have resolves : Resolves entities p.2 := resolved.mpr ⟨d, he, fun _ ↦ ⟨i, hi⟩⟩
        have conflict : ¬ OneToOne (ps ++ [p]) := fun hone ↦ wrong ⟨resolves, hone⟩
        obtain ⟨k, existing, requested, linked, asked, side, joined, other, hlinked, hasked,
          failed⟩ := exists_join?_eq_raise (l := l.direct (keyOf p) p.2.destination) h.inverse
            hps hp hw hone conflict
        refine ⟨_, .conflict resolves hw conflict side joined other hlinked hasked, ?_⟩
        rw [keyOf] at failed
        simp [ht.checkKey, hi, Except.mapError, Except.bind, failed, SchemaError.raise]

/-- The steps for the rest of the declarations, from links that record a prefix: where not all of
them succeed they fail at the first relationship that anything is wrong with. -/
theorem foldlM_visit_eq_raise (qs ps : List (EntityDecl × RelationshipDecl)) (l : Links)
    (h : Records ps l) (hone : OneToOne ps) (hps : ∀ p ∈ ps, IsTextual p)
    (hqs : ∀ q ∈ qs, IsTextual q)
    (wrong : ¬ ((∀ q ∈ qs, Resolves entities q.2) ∧ OneToOne (ps ++ qs))) :
    ∃ before p after e, qs = before ++ p :: after ∧ (∀ q ∈ before, Resolves entities q.2) ∧
      OneToOne (ps ++ before) ∧ Blames entities (ps ++ before) p e ∧
      (qs.foldlM (fun l (e, r) ↦ Links.visit entities l e r) l).result = e.raise := by
  -- The induction is on the rest, for every prefix before it.
  induction qs generalizing ps l with
  | nil => exact absurd ⟨by simp, by simpa using hone⟩ wrong
  | cons q qs ih =>
    obtain ⟨hq, hqs⟩ := List.forall_mem_cons.mp hqs
    simp only [List.foldlM_cons, Traced.result_bind]
    by_cases good : Resolves entities q.2 ∧ OneToOne (ps ++ [q])
    · obtain ⟨l₁, hl₁⟩ := (exists_visit_eq_ok texts distinct h hps hone hq).mpr good
      have hpq : ∀ p ∈ ps ++ [q], IsTextual p := by
        intro p hp
        rcases List.mem_append.mp hp with hp | hp
        · exact hps p hp
        · exact List.mem_singleton.mp hp ▸ hq
      obtain ⟨before, p, after, e, rfl, resolves, one, blamed, failed⟩ :=
        ih (ps ++ [q]) l₁ (h.visit texts distinct hps hone hq hl₁) good.2 hpq hqs
          fun rest ↦ wrong ⟨List.forall_mem_cons.mpr ⟨good.1, rest.1⟩, by simpa using rest.2⟩
      refine ⟨q :: before, p, after, e, rfl, List.forall_mem_cons.mpr ⟨good.1, resolves⟩,
        by simpa using one, by simpa using blamed, ?_⟩
      rw [hl₁]
      exact failed
    · obtain ⟨e, blamed, failed⟩ := visit_eq_raise texts distinct h hps hone hq good
      refine ⟨[], q, qs, e, rfl, by simp, by simpa using hone, by simpa using blamed, ?_⟩
      rw [failed]
      rfl

private theorem oneToOne_of_not_blames {before : List (EntityDecl × RelationshipDecl)}
    (hbefore : ∀ q ∈ before, IsTextual q)
    (first : ∀ ps q rest, before = ps ++ q :: rest → ∀ e, ¬ Blames entities ps q e) :
    OneToOne before := by
  by_contra many
  obtain ⟨ps, q, rest, e, split, -, -, blamed, -⟩ := foldlM_visit_eq_raise texts distinct before []
    none records_none (by simp [OneToOne, Joined, Declares]) (by simp) hbefore
    fun h ↦ many h.2
  exact first ps q rest split e blamed

omit texts in
/-- Only one thing is wrong with a relationship after others that are one to one. -/
private theorem Blames.unique (hone : OneToOne ps) {e f : SchemaError} (he : Blames entities ps p e)
    (hf : Blames entities ps p f) : f = e := by
  cases he with
  | destination absent =>
    cases hf with
    | destination _ => rfl
    | inverse hd hn _ _ => exact absurd hn (absent _ hd)
    | conflict resolves _ _ _ _ _ _ _ =>
      obtain ⟨d, hd, hn, -⟩ := resolves
      exact absurd hn (absent d hd)
  | inverse hd hn named absent =>
    cases hf with
    | destination absent' => exact absurd hn (absent' _ hd)
    | inverse _ _ _ _ => rfl
    | conflict resolves _ _ _ _ _ _ _ =>
      obtain ⟨i, hi, hin⟩ := resolves.exists_inverse distinct hd hn named
      exact absurd hin (absent i hi)
  | @conflict w k existing requested linked asked resolves wanted _ side joined other hlinked
      hasked =>
    cases hf with
    | destination absent =>
      obtain ⟨d, hd, hn, -⟩ := resolves
      exact absurd hn (absent d hd)
    | inverse hd hn named absent =>
      obtain ⟨i, hi, hin⟩ := resolves.exists_inverse distinct hd hn named
      exact absurd hin (absent i hi)
    | @conflict w' k' existing' requested' linked' asked' _ wanted' _ side' joined' other' hlinked'
        hasked' =>
      obtain rfl : w = w' := Option.some.inj (wanted.symm.trans wanted')
      have same : k' = k ∧ requested' = requested := by
        rcases side with ⟨rfl, rfl⟩ | ⟨free, rfl, rfl⟩ <;>
          rcases side' with ⟨rfl, rfl⟩ | ⟨free', rfl, rfl⟩
        · exact ⟨rfl, rfl⟩
        · exact absurd (free' _ joined) other
        · exact absurd (free _ joined') other'
        · exact ⟨rfl, rfl⟩
      obtain ⟨rfl, rfl⟩ := same
      obtain rfl : existing' = existing := hone k' existing' existing joined' joined
      obtain rfl := Except.ok.inj (hlinked.symm.trans hlinked')
      obtain rfl := Except.ok.inj (hasked.symm.trans hasked')
      rfl

/-- Only one error is about the earliest relationship that anything is wrong with. -/
private theorem BlamesFirst.unique {e f : SchemaError} (he : BlamesFirst entities e)
    (hf : BlamesFirst entities f) : f = e := by
  obtain ⟨before, p, after, hsplit, blamed, first⟩ := he
  obtain ⟨before', p', after', hsplit', blamed', first'⟩ := hf
  have textual : ∀ q ∈ before, IsTextual q := fun q hq ↦
    isTextual_of_mem texts (hsplit ▸ List.mem_append_left _ hq)
  have hone := oneToOne_of_not_blames texts distinct textual first
  rcases List.append_eq_append_iff.mp (hsplit.symm.trans hsplit') with
    ⟨rest, rfl, hrest⟩ | ⟨rest, rfl, hrest⟩
  · cases rest with
    | nil =>
      obtain ⟨rfl, rfl⟩ := List.cons.inj hrest
      exact Blames.unique distinct hone blamed (by simpa using blamed')
    | cons q rest =>
      obtain ⟨rfl, -⟩ := List.cons.inj hrest
      exact absurd blamed (first' before p rest rfl e)
  · cases rest with
    | nil =>
      obtain ⟨rfl, rfl⟩ := List.cons.inj hrest
      exact Blames.unique distinct hone blamed (by simpa using blamed')
    | cons q rest =>
      obtain ⟨rfl, -⟩ := List.cons.inj hrest
      exact absurd blamed' (first before' p' rest rfl f)

/-- Where linking fails, it fails with the one error that is about the earliest relationship that
anything is wrong with. -/
private theorem ofEntities_eq_raise (fails : ¬ ∃ l, (ofEntities entities).result = .ok l) :
    ∃ e, (∃ text, e.message = .ok text) ∧ (∀ f, BlamesFirst entities f ↔ f = e) ∧
      (ofEntities entities).result = e.raise := by
  have textual : ∀ p ∈ declared entities, IsTextual p := fun p hp ↦ isTextual_of_mem texts hp
  rw [exists_ofEntities_eq_ok texts distinct] at fails
  obtain ⟨before, p, after, e, hsplit, resolves, hone, blamed, failed⟩ :=
    foldlM_visit_eq_raise texts distinct (declared entities) [] none records_none
      (by simp [OneToOne, Joined, Declares]) (by simp) textual (by simpa using fails)
  have hp : IsTextual p := textual p (by simp [hsplit])
  have earliest : BlamesFirst entities e := by
    refine ⟨before, p, after, hsplit, blamed, ?_⟩
    rintro ps q rest rfl f
    have all : OneToOne ((ps ++ [q]) ++ rest) := by simpa using hone
    exact not_blames distinct (resolves q (by simp)) all.of_append f
  refine ⟨e, blamed.exists_message hp, fun f ↦ ⟨?_, ?_⟩, failed⟩
  · exact earliest.unique texts distinct
  · rintro rfl
    exact earliest

private theorem not_ofEntities_of_blames {e : SchemaError} (h : BlamesFirst entities e) :
    ¬ ∃ l, (ofEntities entities).result = .ok l := by
  obtain ⟨before, p, after, hsplit, blamed, -⟩ := h
  rw [exists_ofEntities_eq_ok texts distinct]
  rintro ⟨resolves, hone⟩
  have all : OneToOne ((before ++ [p]) ++ after) := by simpa [hsplit] using hone
  exact not_blames distinct (resolves p (by simp [hsplit])) all.of_append e blamed

end Visit

end Links

/-! ### Repeated names -/

/-- Among texts that are not distinct there is a first one that repeats. -/
theorem exists_isFirstRepeated (names : List Value) (repeats : ¬ names.Nodup) :
    ∃ n, IsFirstRepeated names n := by
  induction names using List.reverseRecOn with
  | nil => simp at repeats
  | append_singleton names n ih =>
    by_cases distinct : names.Nodup
    · refine ⟨n, names, [], rfl, distinct, ?_⟩
      by_contra absent
      exact repeats (List.nodup_append.mpr ⟨distinct, by simp, by rintro a ha b hb rfl; simp_all⟩)
    · obtain ⟨m, before, after, rfl, hnodup, hm⟩ := ih distinct
      exact ⟨m, before, after ++ [n], by simp, hnodup, hm⟩

/-- The check of names refuses the first text that repeats one before it. -/
theorem checkDistinct_eq_raise (refuse : Value → SchemaError) {n : Value} (after : List Value)
    (hn : n.IsText) (before seen : List Value) (texts : ∀ m ∈ seen ++ before, m.IsText)
    (distinct : (seen ++ before).Nodup) (hmem : n ∈ seen ++ before) :
    checkDistinct refuse seen (before ++ n :: after) = (refuse n).raise := by
  -- What is seen grows by the names that pass.
  induction before generalizing seen with
  | nil =>
    rw [List.append_nil] at texts hmem
    have repeated : n.among seen = true := (Value.among_iff_mem hn texts).mpr hmem
    simp [checkDistinct, hn.checkKey, repeated, bind, Except.bind, SchemaError.raise]
  | cons m before ih =>
    have hm : m.IsText := texts m (by simp)
    have fresh : m.among seen = false := by
      rw [← Bool.not_eq_true, Value.among_iff_mem hm fun v hv ↦ texts v (List.mem_append_left _ hv)]
      intro hms
      exact (List.nodup_append.mp distinct).2.2 m hms m (by simp) rfl
    have rest := ih (seen ++ [m]) (by simpa using texts) (by simpa using distinct)
      (by simpa using hmem)
    simpa [checkDistinct, hm.checkKey, fresh, bind, Except.bind] using rest

/-! ### Compilation -/

namespace Schema

variable {entities : List EntityDecl} (texts : ∀ e ∈ entities, e.IsTextual)

include texts

/-- Compilation reports the first name that repeats, whatever else is wrong. Otherwise, where all
defaults are copied and all constraints name attributes, it reports a failure to link with the one
error that is about the earliest relationship that anything is wrong with. -/
theorem compile_reports_first (host : Host) (config : CompilerConfig) (name version : Value) :
    (¬ (entities.map (·.name)).Nodup →
      ∃ n, IsFirstRepeated (entities.map (·.name)) n ∧
        Reports (compile host config entities name version).result (.duplicateEntity n)) ∧
    ((entities.map (·.name)).Nodup →
      (∀ e ∈ entities, (∀ a ∈ e.attributes, a.IsCopied) ∧ e.NamesUnique) →
      (¬ ∃ l, (Links.ofEntities entities).result = .ok l) →
      ∃ e, (∀ f, Links.BlamesFirst entities f ↔ f = e) ∧
        Reports (compile host config entities name version).result e) := by
  constructor
  · intro repeats
    obtain ⟨n, first⟩ := exists_isFirstRepeated _ repeats
    refine ⟨n, first, ?_⟩
    obtain ⟨before, after, hsplit, hnodup, hn⟩ := first
    have named : ∀ m ∈ before ++ n :: after, m.IsText := by
      rw [← hsplit, List.forall_mem_map]
      exact fun e he ↦ (texts e he).name
    have hnt : n.IsText := named n (by simp)
    have refused := checkDistinct_eq_raise .duplicateEntity after hnt before []
      (fun m hm ↦ named m (List.mem_append_left _ hm)) hnodup hn
    obtain ⟨shown, hshown⟩ := hnt.exists_display
    have said : (SchemaError.duplicateEntity n).message =
        .ok ("Duplicate entity '" ++ shown ++ "'") := by
      simp [SchemaError.message, hshown]
    have failed : (compile host config entities name version).result =
        (SchemaError.duplicateEntity n).raise := by
      simp only [compile, Traced.result_bind, Traced.result_liftM, hsplit, refused]
      rfl
    rw [failed]
    exact reports_raise said
  · intro distinct parts fails
    have named := EntityDecl.isNamed texts
    obtain ⟨e, ⟨text, said⟩, earliest, failed⟩ := Links.ofEntities_eq_raise named distinct fails
    refine ⟨e, earliest, ?_⟩
    have checked := (checkDistinct_entities_eq_ok named .duplicateEntity).mpr distinct
    have skeletons := (Success.mapM_eq_ok_map (skeleton host) _ _ entities
      (fun d hd ↦ skeleton_eq_ok (named d hd)) _).mpr ⟨parts, rfl⟩
    have stopped : (compile host config entities name version).result = e.raise := by
      simp only [compile, Traced.result_bind, Traced.result_liftM, checked, skeletons, failed]
      rfl
    rw [stopped]
    exact reports_raise said

end Schema

/-! ### An example -/

namespace Employment

/-- People have a name. -/
theorem ne_person : "Person" ≠ "" := by decide

/-- Where a person works, among the staff of a company. -/
def employer : RelationshipDecl := { Staff.employer with inverse := .text "staff" }

/-- The staff of a company. It is declared without an inverse. -/
def staff : RelationshipDecl :=
  { name := .text "staff"
    destination := .text "Person"
    isToMany := true
    isOptional := true
    deleteRule := .nullify
    inverse := .null
    named := by decide
    directed := Value.truthy_of_ne ne_person }

/-- People, who have an employer. -/
def person : EntityDecl := Staff.entityOf "Person" ne_person employer ⟨_, rfl⟩

/-- Companies, which have staff. -/
def company : EntityDecl := Staff.entityOf "Company" (by decide) staff ⟨_, rfl⟩

/-- People and companies, and teams whose leads declare the employer of a person as their inverse
too. -/
def entities : List EntityDecl := [person, company, Staff.team]

private theorem isTextual : ∀ e ∈ entities, e.IsTextual := by
  have hemployer : employer.IsTextual := ⟨⟨_, rfl⟩, ⟨_, rfl⟩, .inr ⟨_, rfl⟩⟩
  have hstaff : staff.IsTextual := ⟨⟨_, rfl⟩, ⟨_, rfl⟩, .inl rfl⟩
  have hteam : Staff.team.IsTextual := Staff.isTextual _ (by simp [Staff.entities])
  simp only [entities, List.forall_mem_cons]
  refine ⟨⟨⟨⟨_, rfl⟩, by simp [person, Staff.entityOf], ?_, by simp [person, Staff.entityOf]⟩,
      .inl rfl⟩,
    ⟨⟨⟨_, rfl⟩, by simp [company, Staff.entityOf], ?_, by simp [company, Staff.entityOf]⟩,
      .inl rfl⟩, hteam, by simp⟩
  · simpa [person, Staff.entityOf] using hemployer
  · simpa [company, Staff.entityOf] using hstaff

/-- No two entities of the example have one name. -/
theorem distinct : (entities.map (·.name)).Nodup := by
  simp [entities, person, company, Staff.team, Staff.entityOf, Value.text]

/-- Before teams, people declare the staff of a company as the inverse of their employer, and
nothing else declares one. -/
theorem declares_iff (k i : Key) :
    Links.Declares [(person, employer), (company, staff)] k i ↔
      k = ⟨.text "Person", .text "employer"⟩ ∧ i = ⟨.text "Company", .text "staff"⟩ := by
  simp only [Links.Declares, List.exists_mem_cons_iff, Links.wanted?_eq_some]
  have unnamed : staff.inverse.isNull = true := rfl
  simp [unnamed, employer, Staff.employer, Links.keyOf, person, Staff.entityOf,
    eq_comm (b := k)]

private theorem oneToOne : Links.OneToOne [(person, employer), (company, staff)] := by
  intro k i j
  simp only [Links.Joined, declares_iff]
  grind

/-- The lead of a team is the earliest relationship that anything is wrong with: the employer of a
person is linked to the staff of a company. -/
private theorem blamesFirst : Links.BlamesFirst entities (.conflictingInverse (.text "Person")
    (.text "employer") (.text "Company.staff") (.text "Team.lead")) := by
  have resolves : ∀ q ∈ [(person, employer), (company, staff)], Links.Resolves entities q.2 := by
    simp [Links.Resolves, entities, person, company, Staff.team, Staff.entityOf, employer, staff,
      Staff.employer, Value.text]
  refine ⟨[(person, employer), (company, staff)], (Staff.team, Staff.lead), [], rfl, ?_, ?_⟩
  · refine @Links.Blames.conflict _ _ _ ⟨.text "Person", .text "employer"⟩
      ⟨.text "Person", .text "employer"⟩ ⟨.text "Company", .text "staff"⟩
      ⟨.text "Team", .text "lead"⟩ _ _ ?_ rfl ?_ (.inr ⟨?_, rfl, rfl⟩) ?_ ?_ rfl rfl
    · simp [Links.Resolves, entities, person, company, Staff.team, Staff.entityOf, employer,
        Staff.employer, Staff.lead, Value.text]
    · rw [Links.oneToOne_concat_some (w := ⟨.text "Person", .text "employer"⟩) rfl]
      rintro ⟨-, -, free⟩
      have taken := free ⟨.text "Company", .text "staff"⟩ (.inl ((declares_iff _ _).mpr ⟨rfl, rfl⟩))
      simp [Links.keyOf, Staff.team, Staff.entityOf, Value.text] at taken
    · intro i
      simp only [Links.Joined, declares_iff]
      simp [Links.keyOf, Staff.team, Staff.entityOf, Value.text]
    · exact .inl ((declares_iff _ _).mpr ⟨rfl, rfl⟩)
    · simp [Value.text]
  · intro ps q rest split
    have hq : q ∈ [(person, employer), (company, staff)] := by simp [split]
    have all : Links.OneToOne ((ps ++ [q]) ++ rest) := by simpa [split] using oneToOne
    exact Links.not_blames distinct (resolves q hq) all.of_append

/-- The example is refused with the conflict of its teams. -/
theorem compile_reports_conflict :
    (∀ e ∈ entities, e.IsTextual) ∧ (entities.map (·.name)).Nodup ∧
      (∀ e ∈ entities, (∀ a ∈ e.attributes, a.IsCopied) ∧ e.NamesUnique) ∧
      (¬ ∃ l, (Links.ofEntities entities).result = .ok l) ∧
      Reports (Schema.compile default default entities (.text "Employment") (.int 1)).result
        (.conflictingInverse (.text "Person") (.text "employer") (.text "Company.staff")
          (.text "Team.lead")) := by
  have parts : ∀ e ∈ entities, (∀ a ∈ e.attributes, a.IsCopied) ∧ e.NamesUnique := by
    simp [entities, person, company, Staff.team, Staff.entityOf, EntityDecl.NamesUnique]
  have fails := Links.not_ofEntities_of_blames (EntityDecl.isNamed isTextual) distinct blamesFirst
  obtain ⟨e, earliest, reported⟩ :=
    (Schema.compile_reports_first isTextual default default (.text "Employment") (.int 1)).2
      distinct parts fails
  obtain rfl := (earliest _).mp blamesFirst
  exact ⟨isTextual, distinct, parts, fails, reported⟩

end Employment

end EntityGraph
