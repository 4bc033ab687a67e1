import EntityGraph.Proofs.Consistency

/-!
# Which unlinked pairs are reported

Two to-many relationships without an inverse face each other if each leads to the owner of the
other. A survey reports only such pairs, none of them twice, and the first one of every such pair
once, perhaps with another partner.
-/

namespace EntityGraph

open EntityGraph.Graph

/-- Two different to-many relationships without an inverse lead to the owners of each other. -/
structure Relationship.IsReciprocal (r i : Relationship) : Prop where
  ne : r ≠ i
  isToMany : r.isToMany = true ∧ i.isToMany = true
  unlinked : r.inverse = none ∧ i.inverse = none
  leads : r.destination = i.entity
  leadsBack : i.destination = r.entity

private theorem Relationship.IsReciprocal.symm {r i : Relationship} (h : r.IsReciprocal i) :
    i.IsReciprocal r :=
  ⟨h.ne.symm, h.isToMany.symm, h.unlinked.symm, h.leadsBack, h.leads⟩

namespace Finding

/-- Whether a finding is about two relationships as an unlinked pair, in whatever order. -/
def isUnlinked (k i : Key) : Finding → Bool
  | strayInverse .. => false
  | unlinkedPair r other =>
    (r.key.same k && other.key.same i) || (r.key.same i && other.key.same k)

/-- Whether a finding is about an unlinked pair and names a relationship first. -/
def isLedBy (k : Key) : Finding → Bool
  | strayInverse .. => false
  | unlinkedPair r _ => r.key.same k

/-- The unlinked pair that a finding is about, if it is about one. -/
def pair? : Finding → Option (Relationship × Relationship)
  | strayInverse .. => none
  | unlinkedPair r other => some (r, other)

private theorem pair?_eq_some (f : Finding) (p : Relationship × Relationship) :
    f.pair? = some p ↔ f = .unlinkedPair p.1 p.2 := by
  cases f <;> simp [pair?, Prod.ext_iff]

/-- Findings with a property that only unlinked pairs have are counted among these. -/
theorem countP_eq {p : Finding → Bool} (hp : ∀ r i, p (.strayInverse r i) = false)
    (fs : List Finding) :
    fs.countP p = (fs.filterMap pair?).countP fun q ↦ p (.unlinkedPair q.1 q.2) := by
  rw [List.countP_filterMap]
  congr 1
  funext f
  cases f <;> simp [pair?, hp]

/-- A list no two of whose members have a property has at most one member with it. -/
theorem countP_le_one_of_pairwise {α : Type} {p : α → Bool} {as : List α}
    (h : as.Pairwise fun a b ↦ ¬ (p a = true ∧ p b = true)) : as.countP p ≤ 1 := by
  induction as with
  | nil => simp
  | cons a as ih =>
    obtain ⟨hfirst, hrest⟩ := List.pairwise_cons.mp h
    cases ha : p a with
    | false => simpa [ha] using ih hrest
    | true =>
      have hnone : as.countP p = 0 :=
        List.countP_eq_zero.mpr fun b hb hpb ↦ hfirst b hb ⟨ha, hpb⟩
      simp [ha, hnone]

end Finding

private theorem Graph.IsLinked.not_mem_of_precedes {g : Graph} (h : g.IsLinked) {r i : Relationship}
    {before after : List Relationship} (hg : g.relationships = before ++ r :: after)
    (order : g.Precedes r i) : i ∉ before := by
  obtain ⟨first, last, hl, hi⟩ := order
  obtain ⟨-, hrest, hfirst⟩ := List.nodup_append'.mp (hl ▸ h.nodup_relationships)
  have hlast : r ∉ last := (List.nodup_cons.mp hrest).1
  obtain ⟨rfl, -, -⟩ := (List.append_cons_inj_of_notMem
    (fun hm ↦ hfirst hm List.mem_cons_self) hlast).mp (hl.symm.trans hg)
  exact fun hm ↦ hfirst hm hi

namespace Survey

/-- The unlinked pairs that a survey has reported, in order. -/
def pairs (s : Survey) : List (Relationship × Relationship) := s.findings.filterMap Finding.pair?

/-- A pair is among these exactly if it is reported. -/
theorem mem_pairs (s : Survey) (r i : Relationship) :
    (r, i) ∈ s.pairs ↔ .unlinkedPair r i ∈ s.findings := by
  simp [pairs, Finding.pair?_eq_some]

/-- What a survey knows of unlinked pairs after some relationships of a graph. -/
structure Pairs (g : Graph) (before : List Relationship) (s : Survey) : Prop where
  sound : ∀ p ∈ s.pairs, p.1 ∈ before ∧ p.2 ∈ g.relationships ∧ p.1.IsReciprocal p.2
  distinct : s.pairs.Pairwise fun p q ↦ p.1 ≠ q.1 ∧ p ≠ q.swap
  /-- Among the unlinked relationships, those that lead a reported pair are seen, and no others. -/
  seen : ∀ x ∈ g.relationships, x.inverse = none →
    (x.key.among s.seen = true ↔ ∃ other, (x, other) ∈ s.pairs)
  complete : ∀ x ∈ before, ∀ i ∈ g.relationships, x.IsReciprocal i → g.Precedes x i →
    ∃ other, (x, other) ∈ s.pairs

private theorem Pairs.start (g : Graph) : Pairs g [] ⟨[], []⟩ :=
  ⟨by simp [pairs], by simp [pairs], by simp [pairs, Key.among], by simp⟩

section Step

variable {g : Graph} (h : g.IsLinked) {r : Relationship} {before : List Relationship} {s : Survey}

include h

private theorem isPartner_iff (hr : r ∈ g.relationships) (hm : r.isToMany = true)
    (hn : r.inverse = none)
    {e : Entity} (he : e ∈ g.entities) (hd : e.name = r.destination) {other : Relationship}
    (ho : other ∈ e.relationships) (seen : List Key) :
    isPartner seen r other = true ↔ r.IsReciprocal other ∧ other.key.among seen = false := by
  have hog : other ∈ g.relationships := (mem_relationships g other).mpr ⟨e, he, ho⟩
  have hown : r.destination = other.entity := hd.symm.trans (h.owned e he other ho).symm
  have hback := h.equals_entity_iff hr hog
  have hne : other.key.same r.key = false ↔ r ≠ other := by
    rw [← Bool.not_eq_true, h.same_key_iff hog hr, ne_comm]
  simp only [isPartner, Bool.and_eq_true, Bool.not_eq_true', Option.isNone_iff_eq_none, hne, hback]
  constructor
  · rintro ⟨⟨⟨⟨hne, hseen⟩, hom⟩, hon⟩, hb⟩
    exact ⟨⟨hne, ⟨hm, hom⟩, ⟨hn, hon⟩, hown, hb⟩, hseen⟩
  · rintro ⟨⟨hne, ⟨-, hom⟩, ⟨-, hon⟩, -, hb⟩, hseen⟩
    exact ⟨⟨⟨⟨hne, hseen⟩, hom⟩, hon⟩, hb⟩

omit h in
/-- A relationship that leads no pair may pass without a report. -/
theorem Pairs.pass (hp : Pairs g before s)
    (hnone : ∀ i ∈ g.relationships, r.IsReciprocal i → ¬ g.Precedes r i) :
    Pairs g (before ++ [r]) s := by
  refine ⟨?_, hp.distinct, hp.seen, ?_⟩
  · intro p hmem
    obtain ⟨hfirst, hrest⟩ := hp.sound p hmem
    exact ⟨List.mem_append_left _ hfirst, hrest⟩
  · rw [List.forall_mem_append]
    refine ⟨hp.complete, ?_⟩
    simpa using fun i hi hri order ↦ absurd order (hnone i hi hri)

/-- Visiting a linked relationship reports no unlinked pair, and makes no unlinked relationship
seen. -/
private theorem Pairs.visit_linked (hp : Pairs g before s) {i : Relationship}
    (hr : r ∈ g.relationships) (hi : i ∈ g.relationships) (hl : r.inverse = some i.key) :
    ∃ s', visit g s r = .ok s' ∧ Pairs g (before ++ [r]) s' := by
  have hpass : Pairs g (before ++ [r]) s := by
    refine hp.pass fun j _ hrj ↦ ?_
    have hnone := hrj.unlinked.1
    rw [hl] at hnone
    cases hnone
  refine ⟨_, Survey.visit_linked h hi hl s, ?_⟩
  cases hseen : r.key.among s.seen with
  | true => exact hpass
  | false =>
    have hpairs : pairs ⟨i.key :: s.seen, s.findings ++
        if i.destination.equals r.entity then [] else [.strayInverse r i]⟩ = s.pairs := by
      cases i.destination.equals r.entity <;> simp [pairs, Finding.pair?]
    rw [if_neg Bool.false_ne_true]
    refine ⟨hpairs ▸ hpass.sound, hpairs ▸ hpass.distinct, ?_, hpairs ▸ hpass.complete⟩
    intro x hx hn
    have hxi : x ≠ i := by
      rintro rfl
      rw [h.inverse_symm hr hx hl] at hn
      cases hn
    rw [hpairs, ← hp.seen x hx hn]
    simp [Key.among, h.same_key_of_ne hx hi hxi]

omit h in
private theorem pairs_report (s : Survey) (r other : Relationship) :
    pairs ⟨r.key :: s.seen, s.findings ++ [.unlinkedPair r other]⟩ = s.pairs ++ [(r, other)] := by
  simp [pairs, Finding.pair?]

/-- A reciprocal relationship that is not seen may be reported with a relationship that is visited
for the first time. -/
private theorem Pairs.report (hp : Pairs g before s) (hr : r ∈ g.relationships) (hb : r ∉ before)
    {other : Relationship} (ho : other ∈ g.relationships) (hro : r.IsReciprocal other)
    (hseen : other.key.among s.seen = false) :
    Pairs g (before ++ [r]) ⟨r.key :: s.seen, s.findings ++ [.unlinkedPair r other]⟩ := by
  constructor <;> rw [pairs_report]
  · rw [List.forall_mem_append]
    constructor
    · intro p hmem
      obtain ⟨hfirst, hrest⟩ := hp.sound p hmem
      exact ⟨List.mem_append_left _ hfirst, hrest⟩
    · simpa using ⟨ho, hro⟩
  · rw [List.pairwise_append]
    refine ⟨hp.distinct, List.pairwise_singleton _ _, ?_⟩
    intro p hmem q hq
    obtain rfl := List.mem_singleton.mp hq
    constructor
    · rintro rfl
      exact hb (hp.sound p hmem).1
    · -- A pair that the partner leads would have made the partner seen.
      rintro rfl
      have hled := (hp.seen other ho hro.unlinked.2).mpr ⟨r, hmem⟩
      rw [hseen] at hled
      cases hled
  · intro x hx hxn
    by_cases hxr : x = r
    · subst hxr
      have hself : x.key.among (x.key :: s.seen) = true := by
        simp [Key.among, (h.same_key_iff hx hx).mpr rfl]
      exact iff_of_true hself ⟨other, by simp⟩
    · have hothers := hp.seen x hx hxn
      simp only [Key.among] at hothers ⊢
      simp [h.same_key_of_ne hx hr hxr, hxr, hothers]
  · rw [List.forall_mem_append]
    constructor
    · intro x hx i hi hxi order
      obtain ⟨first, hmem⟩ := hp.complete x hx i hi hxi order
      exact ⟨first, List.mem_append_left _ hmem⟩
    · simp only [List.mem_singleton, forall_eq]
      exact fun _ _ _ _ ↦ ⟨other, by simp⟩

/-- Visiting an unlinked relationship for the first time reports a pair that it leads, if there is
a reciprocal relationship after it. -/
private theorem Pairs.visit_unlinked (hp : Pairs g before s) {after : List Relationship}
    (hg : g.relationships = before ++ r :: after) (hn : r.inverse = none) :
    ∃ s', visit g s r = .ok s' ∧ Pairs g (before ++ [r]) s' := by
  have hr : r ∈ g.relationships := by simp [hg]
  have hb : r ∉ before := by
    have hnodup := hg ▸ h.nodup_relationships
    exact fun hmem ↦ (List.nodup_append'.mp hnodup).2.2 hmem List.mem_cons_self
  obtain ⟨e, he, hd, hname⟩ := h.exists_destinationOf hr
  refine ⟨_, Survey.visit_unlinked hd hn s, ?_⟩
  cases hm : r.isToMany with
  | false =>
    refine hp.pass fun i _ hri ↦ ?_
    have hmany := hri.isToMany.1
    rw [hm] at hmany
    cases hmany
  | true =>
    cases hf : e.relationships.find? (isPartner s.seen r) with
    | none =>
      refine hp.pass fun i hi hri order ↦ ?_
      -- It comes after, so it leads no pair and is not seen; and it stands on the destination.
      have hunseen : i.key.among s.seen = false := by
        rw [← Bool.not_eq_true, hp.seen i hi hri.unlinked.2]
        rintro ⟨other, hmem⟩
        exact h.not_mem_of_precedes hg order (hp.sound _ hmem).1
      obtain ⟨f, hf', hif⟩ := (mem_relationships g i).mp hi
      obtain rfl : f = e := by
        apply List.inj_on_of_nodup_map h.distinct hf' he
        rw [hname, hri.leads, h.owned f hf' i hif]
      have hpartner := (isPartner_iff h hr hm hn he hname hif s.seen).mpr ⟨hri, hunseen⟩
      exact absurd hpartner (List.find?_eq_none.mp hf i hif)
    | some other =>
      have ho := List.mem_of_find?_eq_some hf
      obtain ⟨hro, hseen⟩ := (isPartner_iff h hr hm hn he hname ho s.seen).mp
        (List.find?_some hf)
      exact hp.report h hr hb ((mem_relationships g other).mpr ⟨e, he, ho⟩) hro hseen

/-- A survey goes on from some relationships of a graph to all others. -/
private theorem Pairs.foldlM_visit (after : List Relationship) {before : List Relationship}
    {s : Survey} (hp : Pairs g before s) (hg : g.relationships = before ++ after) :
    ∃ s', after.foldlM (visit g) s = .ok s' ∧ Pairs g g.relationships s' := by
  induction after generalizing before s with
  | nil =>
    rw [List.append_nil] at hg
    exact ⟨s, rfl, hg ▸ hp⟩
  | cons r after ih =>
    have hr : r ∈ g.relationships := by simp [hg]
    obtain ⟨s₁, hv, hp₁⟩ : ∃ s₁, visit g s r = .ok s₁ ∧ Pairs g (before ++ [r]) s₁ := by
      cases hl : r.inverse with
      | some k =>
        obtain ⟨i, hi, rfl, -⟩ := h.inverse r hr k hl
        exact hp.visit_linked h hr hi hl
      | none => exact hp.visit_unlinked h hg hl
    obtain ⟨s', hf, hp'⟩ := ih hp₁ (by simp [hg])
    refine ⟨s', ?_, hp'⟩
    rw [List.foldlM_cons, hv]
    exact hf

end Step

end Survey

namespace Graph.IsLinked

variable {g : Graph} (h : g.IsLinked) {r i : Relationship}

include h

/-- The survey of a linked graph knows all about its unlinked pairs. -/
theorem exists_pairs : ∃ s, g.findings = .ok s.findings ∧ Survey.Pairs g g.relationships s := by
  obtain ⟨s, hs, hp⟩ := (Survey.Pairs.start g).foldlM_visit h g.relationships rfl
  refine ⟨s, ?_, hp⟩
  rw [findings, hs]
  rfl

private theorem countP_isUnlinked_le {fs : List Finding} (hfs : g.findings = .ok fs)
    (hr : r ∈ g.relationships) (hi : i ∈ g.relationships) :
    fs.countP (Finding.isUnlinked r.key i.key) ≤ 1 := by
  obtain ⟨s, hs, hp⟩ := h.exists_pairs
  obtain rfl := Except.ok.inj (hfs.symm.trans hs)
  have meant : ∀ p ∈ s.pairs, (Finding.unlinkedPair p.1 p.2).isUnlinked r.key i.key = true →
      p = (r, i) ∨ p = (i, r) := by
    intro p hmem hu
    obtain ⟨hp₁, hp₂, -⟩ := hp.sound p hmem
    simpa [Finding.isUnlinked, h.same_key_iff, hp₁, hp₂, hr, hi, Prod.ext_iff] using hu
  rw [Finding.countP_eq (fun _ _ ↦ rfl)]
  refine Finding.countP_le_one_of_pairwise (hp.distinct.imp_of_mem ?_)
  rintro p q hmp hmq ⟨hfirst, hswap⟩ ⟨hup, huq⟩
  rcases meant p hmp hup with rfl | rfl <;> rcases meant q hmq huq with rfl | rfl <;>
    simp at hfirst hswap

private theorem countP_isLedBy_eq_one {fs : List Finding} (hfs : g.findings = .ok fs)
    (hr : r ∈ g.relationships) (hi : i ∈ g.relationships) (hri : r.IsReciprocal i)
    (order : g.Precedes r i) : fs.countP (Finding.isLedBy r.key) = 1 := by
  obtain ⟨s, hs, hp⟩ := h.exists_pairs
  obtain rfl := Except.ok.inj (hfs.symm.trans hs)
  have led : ∀ p ∈ s.pairs, (Finding.unlinkedPair p.1 p.2).isLedBy r.key = true ↔ p.1 = r :=
    fun p hmem ↦ h.same_key_iff (hp.sound p hmem).1 hr
  rw [Finding.countP_eq (fun _ _ ↦ rfl)]
  apply Nat.le_antisymm
  · refine Finding.countP_le_one_of_pairwise (hp.distinct.imp_of_mem ?_)
    rintro p q hmp hmq ⟨hfirst, -⟩ ⟨hlp, hlq⟩
    exact hfirst (((led p hmp).mp hlp).trans ((led q hmq).mp hlq).symm)
  · obtain ⟨other, hmem⟩ := hp.complete r hr i hi hri order
    exact List.countP_pos_iff.mpr ⟨_, hmem, (led _ hmem).mpr rfl⟩

/-- Every reported unlinked pair is reciprocal. -/
theorem isReciprocal_of_mem {fs : List Finding} (hfs : g.findings = .ok fs)
    (hmem : .unlinkedPair r i ∈ fs) :
    r ∈ g.relationships ∧ i ∈ g.relationships ∧ r.IsReciprocal i := by
  obtain ⟨s, hs, hp⟩ := h.exists_pairs
  obtain rfl := Except.ok.inj (hfs.symm.trans hs)
  exact hp.sound (r, i) ((s.mem_pairs r i).mpr hmem)

private theorem exists_unlinkedPair_iff {fs : List Finding} (hfs : g.findings = .ok fs) :
    (∃ r i, .unlinkedPair r i ∈ fs) ↔
      ∃ r ∈ g.relationships, ∃ i ∈ g.relationships, r.IsReciprocal i := by
  constructor
  · rintro ⟨r, i, hmem⟩
    obtain ⟨hr, hi, hri⟩ := h.isReciprocal_of_mem hfs hmem
    exact ⟨r, hr, i, hi, hri⟩
  · rintro ⟨r, hr, i, hi, hri⟩
    obtain ⟨s, hs, hp⟩ := h.exists_pairs
    obtain rfl := Except.ok.inj (hfs.symm.trans hs)
    rcases precedes_total hr hi with order | order
    · obtain ⟨other, hmem⟩ := hp.complete r hr i hi hri order
      exact ⟨r, other, (s.mem_pairs r other).mp hmem⟩
    · obtain ⟨other, hmem⟩ := hp.complete i hi r hr hri.symm order
      exact ⟨i, other, (s.mem_pairs i other).mp hmem⟩

end Graph.IsLinked

namespace Schema

variable {entities : List EntityDecl} {host : Host} {config : CompilerConfig} {name version : Value}
    {s : Schema}

/-- The findings about a schema report only reciprocal pairs, no unordered pair twice, and the first
one of every reciprocal pair as the first of exactly one reported pair. So there is a report exactly
if there is a reciprocal pair. -/
theorem reportsPairs_of_compile (texts : ∀ e ∈ entities, e.IsTextual)
    (h : (compile host config entities name version).result = .ok s) :
    ∃ fs notes, s.graph.findings = .ok fs ∧ s.graph.validate = .ok notes ∧
      List.Forall₂ (fun f t ↦ f.message = .ok t) fs notes ∧
      (∀ r i, .unlinkedPair r i ∈ fs →
        r ∈ s.graph.relationships ∧ i ∈ s.graph.relationships ∧ r.IsReciprocal i) ∧
      (∀ r ∈ s.graph.relationships, ∀ i ∈ s.graph.relationships,
        fs.countP (Finding.isUnlinked r.key i.key) ≤ 1 ∧
          (r.IsReciprocal i → s.graph.Precedes r i → fs.countP (Finding.isLedBy r.key) = 1)) ∧
      ((∃ r i, .unlinkedPair r i ∈ fs) ↔
        ∃ r ∈ s.graph.relationships, ∃ i ∈ s.graph.relationships, r.IsReciprocal i) := by
  have linked := isLinked_of_compile (EntityDecl.isNamed texts) h
  obtain ⟨fs, notes, hfs, hnotes, hsaid, -⟩ := exists_findings_of_compile texts h
  refine ⟨fs, notes, hfs, hnotes, hsaid, ?_, ?_, linked.exists_unlinkedPair_iff hfs⟩
  · intro r i hmem
    exact linked.isReciprocal_of_mem hfs hmem
  · intro r hr i hi
    exact ⟨linked.countP_isUnlinked_le hfs hr hi, linked.countP_isLedBy_eq_one hfs hr hi⟩

end Schema

/-! ### An example -/

namespace Teaching

/-- A to-many relationship without an inverse. -/
def many (name destination : String) (named : name ≠ "") (directed : destination ≠ "") :
    RelationshipDecl :=
  { name := .text name
    destination := .text destination
    isToMany := true
    isOptional := true
    deleteRule := .nullify
    inverse := .null
    named := Value.truthy_of_ne named
    directed := Value.truthy_of_ne directed }

/-- Courses, which have students and graduates. -/
def course : EntityDecl :=
  { name := .text "Course"
    attributes := []
    relationships := [many "students" "Student" (by decide) (by decide),
      many "graduates" "Student" (by decide) (by decide)]
    isAbstract := false
    boundType := .null
    unique := []
    named := by decide
    distinct := ⟨by simp [propertyNames, many], by simp [propertyNames, many]⟩ }

/-- Students, who take courses. -/
def student : EntityDecl :=
  { name := .text "Student"
    attributes := []
    relationships := [many "courses" "Course" (by decide) (by decide)]
    isAbstract := false
    boundType := .null
    unique := []
    named := by decide
    distinct := ⟨by simp [propertyNames, many], by simp [propertyNames, many]⟩ }

/-- Courses before students. -/
def entities : List EntityDecl := [course, student]

/-- All names in the example are texts. -/
theorem isTextual : ∀ e ∈ entities, e.IsTextual := by
  have hmany : ∀ name destination named directed,
      (many name destination named directed).IsTextual :=
    fun _ _ _ _ ↦ ⟨⟨_, rfl⟩, ⟨_, rfl⟩, .inl rfl⟩
  simp only [entities, List.forall_mem_cons]
  exact ⟨⟨⟨⟨_, rfl⟩, by simp [course], by simp [course, hmany], by simp [course]⟩, .inl rfl⟩,
    ⟨⟨⟨_, rfl⟩, by simp [student], by simp [student, hmany], by simp [student]⟩, .inl rfl⟩,
    by simp⟩

/-- Nothing in the example declares an inverse. -/
theorem not_declares (k i : Key) : ¬ Links.Declares (Links.declared entities) k i := by
  simp [Links.Declares, Links.declared, entities, course, student, Links.wanted?_eq_some, many]

private theorem coherent : Coherent entities := by
  refine ⟨?_, ?_, ?_, ?_, ?_⟩
  · simp [entities, course, student, Value.text]
  · simp [entities, course, student, EntityDecl.NamesUnique]
  · simp [entities, course, student, many, Value.text]
  · simp [entities, course, student, many, Value.text]
  · intro k i j hki
    exact (hki.elim (not_declares _ _) (not_declares _ _)).elim

/-- The example has a schema, in which no relationship has an inverse. -/
private theorem exists_compile_eq_ok : ∃ s,
    (Schema.compile default default entities (.text "Teaching") (.int 1)).result = .ok s ∧
    s.graph.relationships =
      [(many "students" "Student" (by decide) (by decide)).linked (.text "Course") none,
        (many "graduates" "Student" (by decide) (by decide)).linked (.text "Course") none,
        (many "courses" "Course" (by decide) (by decide)).linked (.text "Student") none] := by
  have lenient : (default : CompilerConfig).isStrict = false := rfl
  obtain ⟨s, hs⟩ := (Schema.exists_compile_eq_ok isTextual lenient).mpr ⟨coherent,
    by simp [entities, course, student], Value.isShowable_text "Teaching",
    (Value.isShowable_int_iff 1).mpr (Number.Integer.isTooLong_of_le_one le_rfl)⟩
  obtain ⟨l, records, -, hgraph, -⟩ := Schema.exists_links_of_compile
    (EntityDecl.isNamed isTextual) hs
  have unlinked : ∀ o n : String, l.inverse? ⟨.text o, .text n⟩ = none := by
    intro o n
    rw [Option.eq_none_iff_forall_ne_some]
    intro i hi
    exact ((records.inverse _ _ ⟨⟨_, rfl⟩, ⟨_, rfl⟩⟩).mp hi).elim (not_declares _ _)
      (not_declares _ _)
  refine ⟨s, hs, ?_⟩
  rw [hgraph, Schema.relationships_linkedGraph]
  simp [Links.declared, entities, course, student, Links.relationship, Links.keyOf, many, unlinked]

end Teaching

/-- In the example both relationships of a course are reciprocal with the one of a student, and
each leads one finding. -/
theorem Schema.reportsPairs_of_compile_teaching : ∃ s fs,
    (compile default default Teaching.entities (.text "Teaching") (.int 1)).result = .ok s ∧
      s.graph.findings = .ok fs ∧
      fs.countP (Finding.isLedBy ⟨.text "Course", .text "students"⟩) = 1 ∧
      fs.countP (Finding.isLedBy ⟨.text "Course", .text "graduates"⟩) = 1 ∧
      fs.countP (Finding.isUnlinked ⟨.text "Student", .text "courses"⟩
        ⟨.text "Course", .text "graduates"⟩) ≤ 1 := by
  obtain ⟨s, hs, members⟩ := Teaching.exists_compile_eq_ok
  obtain ⟨fs, -, hfs, -, -, -, reported, -⟩ := reportsPairs_of_compile Teaching.isTextual hs
  have hstudents := (reported _ (by rw [members]; exact .head _) _
    (by rw [members]; exact .tail _ (.tail _ (.head _)))).2
    ⟨by simp [RelationshipDecl.linked, Teaching.many, Value.text], ⟨rfl, rfl⟩, ⟨rfl, rfl⟩, rfl, rfl⟩
    ⟨[], _, members, .tail _ (.tail _ (.head _))⟩
  have hgraduates := (reported _ (by rw [members]; exact .tail _ (.head _)) _
    (by rw [members]; exact .tail _ (.tail _ (.head _)))).2
    ⟨by simp [RelationshipDecl.linked, Teaching.many, Value.text], ⟨rfl, rfl⟩, ⟨rfl, rfl⟩, rfl, rfl⟩
    ⟨[_], _, members, .tail _ (.head _)⟩
  have honce := (reported _ (by rw [members]; exact .tail _ (.tail _ (.head _))) _
    (by rw [members]; exact .tail _ (.head _))).1
  exact ⟨s, fs, hs, hfs, hstudents, hgraduates, honce⟩

end EntityGraph
