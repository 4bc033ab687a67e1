import EntityGraph.Proofs.Names
import EntityGraph.Proofs.Success

/-!
# What linking does

Linking goes through the declared relationships one by one. After any prefix of them the links are
exactly the symmetric closure of what the prefix declares, and the next step succeeds exactly if
its relationship can be resolved and the closure stays one to one. Hence linking all of them asks
for a condition that does not mention their order, and the links are a closed form of the
declarations.
-/

namespace EntityGraph.Links

/-- The key of a declared relationship. -/
def keyOf (p : EntityDecl × RelationshipDecl) : Key := ⟨p.1.name, p.2.name⟩

/-- The key that a relationship declares as its inverse, if it declares one. -/
def wanted? (p : EntityDecl × RelationshipDecl) : Option Key :=
  if p.2.inverse.isNull then Option.none else some ⟨p.2.destination, p.2.inverse⟩

/-- A relationship among some is declared to have an inverse. -/
def Declares (ps : List (EntityDecl × RelationshipDecl)) (k i : Key) : Prop :=
  ∃ p ∈ ps, keyOf p = k ∧ wanted? p = some i

/-- One of two relationships declares the other as its inverse. -/
def Joined (ps : List (EntityDecl × RelationshipDecl)) (k i : Key) : Prop :=
  Declares ps k i ∨ Declares ps i k

/-- No relationship is joined to two different ones. -/
def OneToOne (ps : List (EntityDecl × RelationshipDecl)) : Prop :=
  ∀ k i j, Joined ps k i → Joined ps k j → i = j

/-- The destination of a relationship is declared, and so is its inverse on the destination. -/
def Resolves (entities : List EntityDecl) (r : RelationshipDecl) : Prop :=
  ∃ e ∈ entities, e.name = r.destination ∧
    (r.inverse.isNull = false → ∃ i ∈ e.relationships, i.name = r.inverse)

/-- A declared relationship and its owner are named by texts. -/
def IsTextual (p : EntityDecl × RelationshipDecl) : Prop := p.1.name.IsText ∧ p.2.IsTextual

/-! ### Declarations -/

/-- The declared relationships are those of the entities. -/
theorem mem_declared (entities : List EntityDecl) (p : EntityDecl × RelationshipDecl) :
    p ∈ declared entities ↔ p.1 ∈ entities ∧ p.2 ∈ p.1.relationships := by
  obtain ⟨e, r⟩ := p
  simp only [declared, List.mem_flatMap, List.mem_map, Prod.mk.injEq]
  constructor
  · rintro ⟨f, hf, s, hs, rfl, rfl⟩
    exact ⟨hf, hs⟩
  · rintro ⟨he, hr⟩
    exact ⟨e, he, r, hr, rfl, rfl⟩

/-- Textual entities declare textual relationships. -/
theorem isTextual_of_mem {entities : List EntityDecl} (texts : ∀ e ∈ entities, e.IsNamed)
    {p : EntityDecl × RelationshipDecl} (hp : p ∈ declared entities) : IsTextual p := by
  obtain ⟨he, hr⟩ := (mem_declared entities p).mp hp
  exact ⟨(texts p.1 he).name, (texts p.1 he).relationships p.2 hr⟩

/-- The key of a textual declaration is one of texts. -/
theorem IsTextual.keyOf {p : EntityDecl × RelationshipDecl} (h : IsTextual p) :
    (keyOf p).IsText := ⟨h.1, h.2.name⟩

/-- A relationship wants no key exactly if it declares no inverse. -/
theorem wanted?_eq_none (p : EntityDecl × RelationshipDecl) :
    wanted? p = Option.none ↔ p.2.inverse.isNull = true := by
  simp [wanted?]

/-- A relationship wants the key of the inverse that it declares on its destination. -/
theorem wanted?_eq_some (p : EntityDecl × RelationshipDecl) (i : Key) :
    wanted? p = some i ↔ p.2.inverse.isNull = false ∧ i = ⟨p.2.destination, p.2.inverse⟩ := by
  rw [eq_comm (a := i)]
  simp [wanted?]

/-- The name of a declared inverse is a text. -/
theorem IsTextual.inverse {p : EntityDecl × RelationshipDecl} (h : IsTextual p)
    (hn : p.2.inverse.isNull = false) : p.2.inverse.IsText :=
  h.2.inverse.resolve_left (by simp [hn])

/-- The key that a textual declaration wants is one of texts. -/
theorem IsTextual.wanted {p : EntityDecl × RelationshipDecl} (h : IsTextual p) {i : Key}
    (hi : wanted? p = some i) : i.IsText := by
  obtain ⟨hn, rfl⟩ := (wanted?_eq_some p i).mp hi
  exact ⟨h.2.destination, h.inverse hn⟩

/-- A declared relationship is known by its key. -/
theorem eq_of_keyOf_eq {entities : List EntityDecl} (texts : ∀ e ∈ entities, e.IsNamed)
    (distinct : (entities.map (·.name)).Nodup) {p q : EntityDecl × RelationshipDecl}
    (hp : p ∈ declared entities) (hq : q ∈ declared entities) (h : keyOf p = keyOf q) :
    p = q := by
  obtain ⟨he, hr⟩ := (mem_declared entities p).mp hp
  obtain ⟨hf, hs⟩ := (mem_declared entities q).mp hq
  obtain ⟨e, r⟩ := p
  obtain ⟨f, s⟩ := q
  obtain ⟨hn, hm⟩ := Key.mk.injEq .. ▸ h
  have hef : e = f := List.inj_on_of_nodup_map distinct he hf hn
  subst hef
  have hrs : r = s := List.inj_on_of_nodup_map (texts e he).nodup_relationships hr hs hm
  rw [hrs]

/-- Being joined has no direction. -/
theorem Joined.symm {ps : List (EntityDecl × RelationshipDecl)} {k i : Key} (h : Joined ps k i) :
    Joined ps i k := Or.symm h

/-- Only keys of texts are joined in textual declarations. -/
theorem Joined.isText {ps : List (EntityDecl × RelationshipDecl)} (texts : ∀ p ∈ ps, IsTextual p)
    {k i : Key} (h : Joined ps k i) : i.IsText := by
  rcases h with ⟨p, hp, -, hi⟩ | ⟨p, hp, rfl, -⟩
  · exact (texts p hp).wanted hi
  · exact (texts p hp).keyOf

/-- Where all relationships resolve, what is joined to a relationship is declared. -/
theorem exists_of_joined {entities : List EntityDecl}
    (resolves : ∀ p ∈ declared entities, Resolves entities p.2) {k i : Key}
    (h : Joined (declared entities) k i) : ∃ q ∈ declared entities, keyOf q = i := by
  rcases h with ⟨p, hp, -, hw⟩ | ⟨q, hq, hk, -⟩
  · obtain ⟨hn, rfl⟩ := (wanted?_eq_some p i).mp hw
    obtain ⟨e, he, hd, hi⟩ := resolves p hp
    obtain ⟨r, hr, hi⟩ := hi hn
    exact ⟨(e, r), (mem_declared entities (e, r)).mpr ⟨he, hr⟩, by rw [keyOf, hd, hi]⟩
  · exact ⟨q, hq, hk⟩

/-- What one more relationship declares. -/
theorem declares_concat (ps : List (EntityDecl × RelationshipDecl))
    (p : EntityDecl × RelationshipDecl) (k i : Key) :
    Declares (ps ++ [p]) k i ↔ Declares ps k i ∨ keyOf p = k ∧ wanted? p = some i := by
  simp [Declares, or_and_right, exists_or]

/-- A relationship that declares no inverse joins nothing. -/
theorem joined_concat_none {ps : List (EntityDecl × RelationshipDecl)}
    {p : EntityDecl × RelationshipDecl} (hp : wanted? p = Option.none) (k i : Key) :
    Joined (ps ++ [p]) k i ↔ Joined ps k i := by
  simp [Joined, declares_concat, hp]

/-- A relationship that declares an inverse joins the two. -/
theorem joined_concat_some {ps : List (EntityDecl × RelationshipDecl)}
    {p : EntityDecl × RelationshipDecl} {w : Key} (hp : wanted? p = some w) (k i : Key) :
    Joined (ps ++ [p]) k i ↔
      Joined ps k i ∨ (k = keyOf p ∧ i = w) ∨ (k = w ∧ i = keyOf p) := by
  simp only [Joined, declares_concat, hp, Option.some.injEq]
  grind

/-- A relationship that declares no inverse keeps the closure one to one. -/
theorem oneToOne_concat_none {ps : List (EntityDecl × RelationshipDecl)}
    {p : EntityDecl × RelationshipDecl} (hp : wanted? p = Option.none) :
    OneToOne (ps ++ [p]) ↔ OneToOne ps := by
  simp only [OneToOne, joined_concat_none hp]

/-- A relationship that declares an inverse keeps the closure one to one exactly if neither of the
two is joined to a third. -/
theorem oneToOne_concat_some {ps : List (EntityDecl × RelationshipDecl)}
    {p : EntityDecl × RelationshipDecl} {w : Key} (hp : wanted? p = some w) :
    OneToOne (ps ++ [p]) ↔ OneToOne ps ∧ (∀ j, Joined ps (keyOf p) j → j = w) ∧
      ∀ j, Joined ps w j → j = keyOf p := by
  simp only [OneToOne, joined_concat_some hp]
  constructor
  · intro h
    refine ⟨fun k i j hi hj ↦ h k i j (.inl hi) (.inl hj), fun j hj ↦ ?_, fun j hj ↦ ?_⟩
    · exact h (keyOf p) j w (.inl hj) (.inr (.inl ⟨rfl, rfl⟩))
    · exact h w j (keyOf p) (.inl hj) (.inr (.inr ⟨rfl, rfl⟩))
  · rintro ⟨h, hk, hw⟩ k i j hi hj
    rcases hi with hi | ⟨rfl, rfl⟩ | ⟨rfl, rfl⟩ <;> rcases hj with hj | ⟨hj, rfl⟩ | ⟨hj, rfl⟩
    · exact h k i j hi hj
    · exact hk i (hj ▸ hi)
    · exact hw i (hj ▸ hi)
    · exact (hk j hj).symm
    · rfl
    · exact hj.symm
    · exact (hw j hj).symm
    · exact hj.symm
    · rfl

/-- A part of declarations that are one to one is one to one. -/
theorem OneToOne.of_append {ps qs : List (EntityDecl × RelationshipDecl)}
    (h : OneToOne (ps ++ qs)) : OneToOne ps := by
  have grow : ∀ k i, Joined ps k i → Joined (ps ++ qs) k i := by
    rintro k i (⟨p, hp, hd⟩ | ⟨p, hp, hd⟩)
    · exact .inl ⟨p, List.mem_append_left _ hp, hd⟩
    · exact .inr ⟨p, List.mem_append_left _ hp, hd⟩
  intro k i j hi hj
  exact h k i j (grow k i hi) (grow k j hj)

/-! ### Links -/

section Operations

variable (l : Links) {k i : Key}

private theorem destination?_direct_self (hk : k.IsText) (d : Value) :
    (l.direct k d).destination? k = some d := by
  simp [destination?, direct, Key.find?, (hk.same_iff hk).mpr rfl]

private theorem destination?_direct_of_ne (hk : k.IsText) (d : Value) {j : Key} (hj : j.IsText)
    (h : k ≠ j) : (l.direct k d).destination? j = l.destination? j := by
  have hn : k.same j = false := by
    rw [← Bool.not_eq_true, hk.same_iff hj]
    exact h
  simp [destination?, direct, Key.find?, hn]

/-- The second of two joined relationships has the first as its inverse. -/
theorem inverse?_join_right (hi : i.IsText) : (l.join k i).inverse? i = some k := by
  simp [inverse?, join, Key.find?, (hi.same_iff hi).mpr rfl]

private theorem inverse?_join_left (hk : k.IsText) (hi : i.IsText) :
    (l.join k i).inverse? k = some i := by
  by_cases h : i = k
  · subst h
    exact inverse?_join_right l hi
  · have hn : i.same k = false := by
      rw [← Bool.not_eq_true, hi.same_iff hk]
      exact h
    simp [inverse?, join, Key.find?, hn, (hk.same_iff hk).mpr rfl]

private theorem inverse?_join_of_ne (hk : k.IsText) (hi : i.IsText) {j : Key} (hj : j.IsText)
    (hkj : k ≠ j) (hij : i ≠ j) : (l.join k i).inverse? j = l.inverse? j := by
  have hn : k.same j = false := by
    rw [← Bool.not_eq_true, hk.same_iff hj]
    exact hkj
  have hm : i.same j = false := by
    rw [← Bool.not_eq_true, hi.same_iff hj]
    exact hij
  simp [inverse?, join, Key.find?, hn, hm]

/-- A relationship is free for another one exactly if it is linked to nothing else. -/
theorem checkFree_eq_ok (hi : i.IsText) (linked : ∀ j, l.inverse? k = some j → j.IsText) :
    l.checkFree k i = .ok () ↔ ∀ j, l.inverse? k = some j → j = i := by
  unfold checkFree
  cases h : l.inverse? k with
  | none => simp
  | some j =>
    have hj : j.IsText := linked j h
    obtain ⟨s, hs⟩ := hj.exists_text
    obtain ⟨t, ht⟩ := hi.exists_text
    by_cases hji : j = i
    · subst hji
      simp [(hi.same_iff hi).mpr rfl]
    · have hn : ¬ j.same i = true := fun he ↦ hji ((hj.same_iff hi).mp he)
      simp [hn, hs, ht, hji, bind, Except.bind, SchemaError.raise]

/-- Two relationships are joined exactly if each is free for the other. -/
theorem join?_eq_ok (k i : Key) (l' : Links) :
    l.join? k i = .ok l' ↔
      l.checkFree k i = .ok () ∧ l.checkFree i k = .ok () ∧ l.join k i = l' := by
  simp only [join?, Success.bind_eq_ok, pure, Except.pure, Except.ok.injEq]
  grind

end Operations

/-- Exactly the relationships among some are directed, each where it is declared to lead. -/
structure Directs (ps : List (EntityDecl × RelationshipDecl)) (l : Links) : Prop where
  directed : ∀ p ∈ ps, ∃ d, l.destination? (keyOf p) = some d
  destination : ∀ k d, k.IsText → l.destination? k = some d →
    ∃ p ∈ ps, keyOf p = k ∧ p.2.destination = d

/-- The links that a prefix of the declarations leads to: the relationships of the prefix are
directed, and the inverses are what the prefix joins. -/
structure Records (ps : List (EntityDecl × RelationshipDecl)) (l : Links) : Prop
    extends Directs ps l where
  inverse : ∀ k i, k.IsText → (l.inverse? k = some i ↔ Joined ps k i)

/-- No links record no declarations. -/
theorem records_none : Records [] none := by
  refine ⟨⟨by simp, ?_⟩, ?_⟩
  · intro k d _ h
    cases h
  · intro k i _
    simp [none, inverse?, Key.find?, Joined, Declares]

variable {ps : List (EntityDecl × RelationshipDecl)} {l : Links}
  {p : EntityDecl × RelationshipDecl}

/-- Directing one more relationship directs it as well. -/
theorem Directs.direct (h : Directs ps l) (texts : ∀ q ∈ ps, IsTextual q) (hp : IsTextual p) :
    Directs (ps ++ [p]) (l.direct (keyOf p) p.2.destination) := by
  constructor
  · intro q hq
    by_cases he : keyOf p = keyOf q
    · rw [← he]
      exact ⟨_, destination?_direct_self l hp.keyOf _⟩
    · have hmem : q ∈ ps := by
        rcases List.mem_append.mp hq with hq | hq
        · exact hq
        · exact absurd (congrArg Links.keyOf (List.mem_singleton.mp hq).symm) he
      rw [destination?_direct_of_ne l hp.keyOf _ (texts q hmem).keyOf he]
      exact h.directed q hmem
  · intro k d hk hd
    by_cases he : keyOf p = k
    · subst he
      rw [destination?_direct_self l hp.keyOf] at hd
      exact ⟨p, by simp, rfl, Option.some.inj hd⟩
    · rw [destination?_direct_of_ne l hp.keyOf _ hk he] at hd
      obtain ⟨q, hq, hqk⟩ := h.destination k d hk hd
      exact ⟨q, List.mem_append_left _ hq, hqk⟩

namespace Records

/-- In links that record textual declarations, texts are linked to texts. -/
theorem isText (h : Records ps l) (texts : ∀ q ∈ ps, IsTextual q) {k : Key} (hk : k.IsText)
    (j : Key) (hj : l.inverse? k = some j) : j.IsText :=
  ((h.inverse k j hk).mp hj).isText texts

private theorem direct (h : Records ps l) (texts : ∀ q ∈ ps, IsTextual q) (hp : IsTextual p)
    (hw : wanted? p = Option.none) :
    Records (ps ++ [p]) (l.direct (keyOf p) p.2.destination) := by
  refine ⟨h.toDirects.direct texts hp, ?_⟩
  intro k i hk
  rw [joined_concat_none hw]
  exact h.inverse k i hk

/-- Directing a relationship and joining it with the inverse that it declares records it, if
neither of the two is linked to a third. -/
private theorem join (h : Records ps l) (texts : ∀ q ∈ ps, IsTextual q) (hp : IsTextual p) {w : Key}
    (hw : wanted? p = some w) (hone : OneToOne (ps ++ [p])) :
    Records (ps ++ [p]) ((l.direct (keyOf p) p.2.destination).join (keyOf p) w) := by
  have hd := h.toDirects.direct texts hp
  refine ⟨⟨hd.directed, hd.destination⟩, ?_⟩
  intro k i hk
  have hkey := hp.keyOf
  have hwt := hp.wanted hw
  have joined : ∀ j, Joined (ps ++ [p]) k j → (j = i ↔ Joined (ps ++ [p]) k i) := by
    intro j hj
    exact ⟨fun he ↦ he ▸ hj, fun hi ↦ hone k j i hj hi⟩
  by_cases hkw : w = k
  · subst hkw
    rw [inverse?_join_right _ hwt, Option.some.injEq]
    exact joined _ ((joined_concat_some hw _ _).mpr (.inr (.inr ⟨rfl, rfl⟩)))
  · by_cases hkp : keyOf p = k
    · subst hkp
      rw [inverse?_join_left _ hkey hwt, Option.some.injEq]
      exact joined _ ((joined_concat_some hw _ _).mpr (.inr (.inl ⟨rfl, rfl⟩)))
    · rw [inverse?_join_of_ne _ hkey hwt hk hkp hkw, joined_concat_some hw]
      have rest : Joined ps k i ∨ (k = keyOf p ∧ i = w) ∨ (k = w ∧ i = keyOf p) ↔
          Joined ps k i := by
        simp [Ne.symm hkp, Ne.symm hkw]
      rw [rest]
      exact h.inverse k i hk

private theorem free_iff (h : Records ps l) (texts : ∀ q ∈ ps, IsTextual q) (hp : IsTextual p)
    {w : Key} (hw : wanted? p = some w) (hone : OneToOne ps) :
    l.checkFree (keyOf p) w = .ok () ∧ l.checkFree w (keyOf p) = .ok () ↔
      OneToOne (ps ++ [p]) := by
  have hkey := hp.keyOf
  have hwt := hp.wanted hw
  rw [checkFree_eq_ok l hwt (h.isText texts hkey), checkFree_eq_ok l hkey (h.isText texts hwt),
    oneToOne_concat_some hw]
  simp only [h.inverse _ _ hkey, h.inverse _ _ hwt]
  exact ⟨fun hf ↦ ⟨hone, hf⟩, fun hf ↦ hf.2⟩

end Records

/-! ### One step -/

/-- The note about a relationship of textual names can be shown. -/
theorem exists_resolvedText {k : Key} (hk : k.IsText) {d : Value} (hd : d.IsText)
    (i : Option Key) (hi : ∀ j, i = some j → j.IsText) :
    ∃ t, resolvedText k d i = .ok t := by
  obtain ⟨s, hs⟩ := hk.exists_text
  obtain ⟨t, ht⟩ := hd.exists_display
  cases i with
  | none => exact ⟨_, by rw [resolvedText, hs, ht]; rfl⟩
  | some j =>
    obtain ⟨u, hu⟩ := (hi j rfl).exists_text
    exact ⟨_, by rw [resolvedText, hs, ht]; simp only [hu]; rfl⟩

section Visit

variable {entities : List EntityDecl} (texts : ∀ e ∈ entities, e.IsNamed)
  (distinct : (entities.map (·.name)).Nodup)

include texts distinct

/-- The entity that a name finds is the declared one of the name. -/
theorem find?_eq_some {d : Value} (hd : d.IsText) (e : EntityDecl) :
    EntityDecl.find? entities d = some e ↔ e ∈ entities ∧ e.name = d := by
  rw [EntityDecl.find?, find?_name_eq_some (fun e he ↦ (texts e he).name) distinct]
  constructor
  · rintro ⟨he, hs⟩
    exact ⟨he, ((texts e he).name.same_iff hd).mp hs⟩
  · rintro ⟨he, hs⟩
    exact ⟨he, ((texts e he).name.same_iff hd).mpr hs⟩

omit distinct in
/-- The relationship that a name finds on an entity is the declared one of the name. -/
theorem member?_eq_some {e : EntityDecl} (he : e ∈ entities) {n : Value} (hn : n.IsText)
    (r : RelationshipDecl) : e.member? n = some r ↔ r ∈ e.relationships ∧ r.name = n := by
  have named : ∀ r ∈ e.relationships, r.name.IsText := fun r hr ↦
    ((texts e he).relationships r hr).name
  rw [EntityDecl.member?, find?_name_eq_some named (texts e he).nodup_relationships]
  constructor
  · rintro ⟨hr, hs⟩
    exact ⟨hr, ((named r hr).same_iff hn).mp hs⟩
  · rintro ⟨hr, hs⟩
    exact ⟨hr, ((named r hr).same_iff hn).mpr hs⟩

/-- A relationship resolves exactly if its destination is found and its inverse, if it declares one,
is found there. -/
theorem resolves_iff {r : RelationshipDecl} (hr : r.IsTextual) :
    Resolves entities r ↔ ∃ e, EntityDecl.find? entities r.destination = some e ∧
      (r.inverse.isNull = false → ∃ i, e.member? r.inverse = some i) := by
  simp only [Resolves, find?_eq_some texts distinct hr.destination]
  constructor
  · rintro ⟨e, he, hd, hi⟩
    refine ⟨e, ⟨he, hd⟩, fun hn ↦ ?_⟩
    obtain ⟨i, hi⟩ := hi hn
    have ht : r.inverse.IsText := hr.inverse.resolve_left (by simp [hn])
    exact ⟨i, (member?_eq_some texts he ht i).mpr hi⟩
  · rintro ⟨e, ⟨he, hd⟩, hi⟩
    refine ⟨e, he, hd, fun hn ↦ ?_⟩
    obtain ⟨i, hi⟩ := hi hn
    have ht : r.inverse.IsText := hr.inverse.resolve_left (by simp [hn])
    exact ⟨i, (member?_eq_some texts he ht i).mp hi⟩

/-- A step for a relationship that declares no inverse asks for its destination and directs it. -/
theorem visit_none_eq_ok {p : EntityDecl × RelationshipDecl} (hp : IsTextual p)
    (hw : wanted? p = Option.none) (l l' : Links) :
    (visit entities l p.1 p.2).result = .ok l' ↔
      Resolves entities p.2 ∧ l.direct (keyOf p) p.2.destination = l' := by
  have hn := (wanted?_eq_none p).mp hw
  rw [resolves_iff texts distinct hp.2]
  simp only [visit, Traced.result_bind_eq_ok, Traced.result_liftM_fault,
    hp.2.destination.checkKey, hn]
  cases he : EntityDecl.find? entities p.2.destination with
  | none => simp [SchemaError.raise]
  | some e =>
    obtain ⟨t, ht⟩ := exists_resolvedText hp.keyOf hp.2.destination Option.none (by simp)
    have hk : (⟨p.1.name, p.2.name⟩ : Key) = keyOf p := rfl
    simp [-Traced.result_bind, Traced.result_bind_eq_ok, hk, ht, Except.mapError]

/-- A step for a relationship that declares an inverse asks for both ends and joins them. -/
theorem visit_some_eq_ok {p : EntityDecl × RelationshipDecl} (hp : IsTextual p) {w : Key}
    (hw : wanted? p = some w) (l l' : Links) :
    (visit entities l p.1 p.2).result = .ok l' ↔
      Resolves entities p.2 ∧ (l.checkFree (keyOf p) w = .ok () ∧
        l.checkFree w (keyOf p) = .ok ()) ∧
        (l.direct (keyOf p) p.2.destination).join (keyOf p) w = l' := by
  have hn := (wanted?_eq_some p w).mp hw
  have ht := hp.inverse hn.1
  rw [resolves_iff texts distinct hp.2]
  simp only [visit, Traced.result_bind_eq_ok, Traced.result_liftM_fault,
    hp.2.destination.checkKey, hn.1]
  cases he : EntityDecl.find? entities p.2.destination with
  | none => simp [SchemaError.raise]
  | some e =>
    have hen := (find?_eq_some texts distinct hp.2.destination e).mp he
    cases hi : e.member? p.2.inverse with
    | none =>
      simp [-Traced.result_bind, Traced.result_bind_eq_ok, hi, SchemaError.raise]
    | some i =>
      have hin := (member?_eq_some texts hen.1 ht i).mp hi
      have hk : (⟨p.1.name, p.2.name⟩ : Key) = keyOf p := rfl
      have hwk : (⟨e.name, i.name⟩ : Key) = w := by rw [hen.2, hin.2, hn.2]
      obtain ⟨t, hshown⟩ := exists_resolvedText hp.keyOf hp.2.destination (some w)
        (fun j hj ↦ Option.some.inj hj ▸ hp.wanted hw)
      have free : ∀ k i, (l.direct (keyOf p) p.2.destination).checkFree k i = l.checkFree k i :=
        fun _ _ ↦ rfl
      simp [-Traced.result_bind, Traced.result_bind_eq_ok, ht.checkKey, hi, hk, hwk, hshown,
        Except.mapError, join?_eq_ok, free, and_assoc]

/-- A step succeeds exactly if its relationship resolves and the closure stays one to one. -/
theorem exists_visit_eq_ok {ps : List (EntityDecl × RelationshipDecl)} {l : Links}
    (h : Records ps l) (hps : ∀ q ∈ ps, IsTextual q) (hone : OneToOne ps)
    {p : EntityDecl × RelationshipDecl} (hp : IsTextual p) :
    (∃ l', (visit entities l p.1 p.2).result = .ok l') ↔
      Resolves entities p.2 ∧ OneToOne (ps ++ [p]) := by
  cases hw : wanted? p with
  | none => simp [visit_none_eq_ok texts distinct hp hw, oneToOne_concat_none hw, hone]
  | some w =>
    rw [← h.free_iff hps hp hw hone]
    simp [visit_some_eq_ok texts distinct hp hw]

/-- What a step leads to records the relationship as well. -/
theorem Records.visit {ps : List (EntityDecl × RelationshipDecl)} {l l' : Links}
    (h : Records ps l) (hps : ∀ q ∈ ps, IsTextual q) (hone : OneToOne ps)
    {p : EntityDecl × RelationshipDecl} (hp : IsTextual p)
    (hv : (Links.visit entities l p.1 p.2).result = .ok l') : Records (ps ++ [p]) l' := by
  have hstep := ((exists_visit_eq_ok texts distinct h hps hone hp).mp ⟨l', hv⟩).2
  cases hw : wanted? p with
  | none =>
    obtain ⟨-, rfl⟩ := (visit_none_eq_ok texts distinct hp hw l l').mp hv
    exact h.direct hps hp hw
  | some w =>
    obtain ⟨-, -, rfl⟩ := (visit_some_eq_ok texts distinct hp hw l l').mp hv
    exact h.join hps hp hw hstep

/-! ### All steps -/

/-- The steps for the rest of the declarations, from links that record a prefix: they succeed
exactly if every relationship of the rest resolves and the closure of all is one to one, and then
the links record all. -/
theorem foldlM_visit (qs ps : List (EntityDecl × RelationshipDecl)) (l : Links)
    (h : Records ps l) (hone : OneToOne ps) (hps : ∀ p ∈ ps, IsTextual p)
    (hqs : ∀ q ∈ qs, IsTextual q) :
    ((∃ l', (qs.foldlM (fun l (e, r) ↦ Links.visit entities l e r) l).result = .ok l') ↔
      (∀ q ∈ qs, Resolves entities q.2) ∧ OneToOne (ps ++ qs)) ∧
    ∀ l', (qs.foldlM (fun l (e, r) ↦ Links.visit entities l e r) l).result = .ok l' →
      Records (ps ++ qs) l' := by
  -- The induction is on the rest, for every prefix before it.
  induction qs generalizing ps l with
  | nil =>
    rw [List.append_nil]
    refine ⟨by simp [hone], ?_⟩
    intro l' hl'
    cases hl'
    exact h
  | cons q qs ih =>
    obtain ⟨hq, hqs⟩ := List.forall_mem_cons.mp hqs
    have hpq : ∀ p ∈ ps ++ [q], IsTextual p := by
      intro p hp
      rcases List.mem_append.mp hp with hp | hp
      · exact hps p hp
      · exact List.mem_singleton.mp hp ▸ hq
    have hassoc : ps ++ q :: qs = (ps ++ [q]) ++ qs := by simp
    have hstep := exists_visit_eq_ok texts distinct h hps hone hq
    simp only [List.foldlM_cons, Traced.result_bind_eq_ok, hassoc]
    have rest : ∀ l₁, (Links.visit entities l q.1 q.2).result = .ok l₁ → _ := fun l₁ hl₁ ↦
      ih (ps ++ [q]) l₁ (Records.visit texts distinct h hps hone hq hl₁)
        (hstep.mp ⟨l₁, hl₁⟩).2 hpq hqs
    constructor
    · constructor
      · rintro ⟨l', l₁, hl₁, hl'⟩
        obtain ⟨hr, ho⟩ := (rest l₁ hl₁).1.mp ⟨l', hl'⟩
        exact ⟨List.forall_mem_cons.mpr ⟨(hstep.mp ⟨l₁, hl₁⟩).1, hr⟩, ho⟩
      · rintro ⟨hr, ho⟩
        obtain ⟨hr₁, hr⟩ := List.forall_mem_cons.mp hr
        obtain ⟨l₁, hl₁⟩ := hstep.mpr ⟨hr₁, ho.of_append⟩
        obtain ⟨l', hl'⟩ := (rest l₁ hl₁).1.mpr ⟨hr, ho⟩
        exact ⟨l', l₁, hl₁, hl'⟩
    · rintro l' ⟨l₁, hl₁, hl'⟩
      exact (rest l₁ hl₁).2 l' hl'

/-- Linking succeeds exactly if every declared relationship resolves and the closure of all
declarations is one to one. -/
theorem exists_ofEntities_eq_ok :
    (∃ l, (ofEntities entities).result = .ok l) ↔
      (∀ p ∈ declared entities, Resolves entities p.2) ∧ OneToOne (declared entities) :=
  (foldlM_visit texts distinct (declared entities) [] none records_none
    (by simp [OneToOne, Joined, Declares]) (by simp) fun _ hp ↦ isTextual_of_mem texts hp).1

/-- The links of all declarations record all declarations. -/
theorem records_of_ofEntities {l : Links} (hl : (ofEntities entities).result = .ok l) :
    Records (declared entities) l :=
  (foldlM_visit texts distinct (declared entities) [] none records_none
    (by simp [OneToOne, Joined, Declares]) (by simp) fun _ hp ↦ isTextual_of_mem texts hp).2 l hl

/-- A declared relationship is directed to the destination that it declares. -/
theorem destination?_of_ofEntities {l : Links} (hl : (ofEntities entities).result = .ok l)
    {p : EntityDecl × RelationshipDecl} (hp : p ∈ declared entities) :
    l.destination? (keyOf p) = some p.2.destination := by
  have h := records_of_ofEntities texts distinct hl
  obtain ⟨d, hd⟩ := h.directed p hp
  obtain ⟨q, hq, hk, rfl⟩ := h.destination _ d (isTextual_of_mem texts hp).keyOf hd
  rw [hd, eq_of_keyOf_eq texts distinct hq hp hk]

end Visit

end EntityGraph.Links
