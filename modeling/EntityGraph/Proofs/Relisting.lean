import EntityGraph.Proofs.Rebuilding
import EntityGraph.Proofs.Relisted
import EntityGraph.Proofs.Spacing

/-!
# Sets that list their members in other orders

The canonical forms of values that differ in nothing but the orders in which sets list their
members, at any depth, have one text: members are put in the order of their texts, and those that
share a text may change places. So a set that is a default may list its members in any order, and
the schema has one fingerprint.
-/

namespace EntityGraph

open Json

namespace Value

/-! ### Copies -/

/-- A part of a value is copied to an object that follows from what it looks like, not from which
object it is. -/
def CopiesBy (look : Foreign → Foreign) (copier : Copier) : Value → Prop
  | .atom id (.foreign f) => f.copying = .anew → copier id f = look f
  | _ => True

private theorem CopiesBy.copiesAlike {look : Foreign → Foreign} {copier copier' : Copier}
    {v : Value}
    (h : CopiesBy look copier v) (h' : CopiesBy look copier' v) : CopiesAlike copier copier' v := by
  cases v with
  | atom id a =>
    cases a with
    | foreign f => exact fun hf ↦ (h hf).trans (h' hf).symm
    | _ => trivial
  | _ => trivial

/-- A set lists its members in an order that follows from their contents. -/
private theorem setOrder_anonymous (expected : Nat) (vs : List Value) :
    setOrder expected (vs.map anonymous) = (setOrder expected vs).map anonymous := by
  have code : ∀ v : Value, v.anonymous.code? = v.code? := by
    intro v
    cases v with
    | atom id a => cases a <;> rfl
    | _ => rfl
  have codes : (vs.map anonymous).mapM code? = vs.mapM code? := by
    rw [List.mapM_map]
    exact congrArg (vs.mapM ·) (funext code)
  rw [setOrder, setOrder, codes]
  cases vs.mapM code? with
  | none => rfl
  | some codes =>
    dsimp only
    have placed (f : Value × Nat → Nat × Value)
        (hf : ∀ v n, f (v.anonymous, n) = Prod.map id anonymous (f (v, n))) :
        (vs.map anonymous).zipIdx.map f = (vs.zipIdx.map f).map (Prod.map id anonymous) := by
      rw [List.zipIdx_map, List.map_map, List.map_map]
      exact List.map_congr_left fun p _ ↦ hf p.1 p.2
    have sorted (ps : List (Nat × Value)) :
        (ps.map (Prod.map id anonymous)).mergeSort (fun a b ↦ a.1 ≤ b.1) =
          (ps.mergeSort fun a b ↦ a.1 ≤ b.1).map (Prod.map id anonymous) :=
      (List.map_mergeSort (f := Prod.map id anonymous) fun _ _ _ _ ↦ rfl).symm
    rw [placed _ fun _ _ ↦ rfl, sorted, List.map_map, List.map_map]
    rfl

section Copiers

variable {look : Foreign → Foreign} {copier : Copier}

mutual

/-- The content of a copy is the copy of the content. -/
theorem map_anonymous_deepCopy {v : Value} (h : v.Every (CopiesBy look copier)) :
    (v.deepCopy copier).map anonymous = v.anonymous.deepCopy fun _ ↦ look := by
  cases v with
  | atom id a =>
    cases a with
    | foreign f =>
      have follows : f.copying = .anew → copier id f = look f := h
      simp only [anonymous, deepCopy, Foreign.copy]
      cases hf : f.copying with
      | anew =>
        rw [follows hf]
        rfl
      | _ => rfl
    | _ => rfl
  | seq id kind vs =>
    rw [deepCopy, anonymous, deepCopy, anonymousItems_eq_map, ← map_anonymous_copyItems h.2]
    cases copyItems copier vs with
    | error f => rfl
    | ok cs => cases kind <;> simp [bind, Except.bind, pure, Except.pure, Except.map, anonymous,
        anonymousItems_eq_map, setOrder_anonymous, Identity.copied]
  | dict id es =>
    rw [deepCopy, anonymous, deepCopy, ← map_anonymous_copyEntries h.2]
    cases copyEntries copier es <;> rfl
  | loop id kind => rfl

private theorem map_anonymous_copyItems {vs : List Value}
    (h : EveryMember (CopiesBy look copier) vs) :
    (copyItems copier vs).map (List.map anonymous) =
      copyItems (fun _ ↦ look) (vs.map anonymous) := by
  cases vs with
  | nil => rfl
  | cons v vs =>
    rw [List.map_cons, copyItems, copyItems, ← map_anonymous_deepCopy h.1,
      ← map_anonymous_copyItems h.2]
    cases v.deepCopy copier with
    | error f => rfl
    | ok c => cases copyItems copier vs <;> rfl

private theorem map_anonymous_copyEntries {es : List (Value × Value)}
    (h : EveryEntry (CopiesBy look copier) es) :
    (copyEntries copier es).map anonymousEntries =
      copyEntries (fun _ ↦ look) (anonymousEntries es) := by
  cases es with
  | nil => rfl
  | cons e es =>
    obtain ⟨k, v⟩ := e
    rw [anonymousEntries, copyEntries, copyEntries, ← map_anonymous_deepCopy h.1.2,
      ← map_anonymous_deepCopy h.1.1, ← map_anonymous_copyEntries h.2]
    cases v.deepCopy copier with
    | error f => rfl
    | ok c =>
      cases k.deepCopy copier with
      | error f => rfl
      | ok l => cases copyEntries copier es <;> rfl

end

variable {copier' : Copier}

mutual

/-- The copy of a value is relisted as the value is, where objects are copied by their looks. -/
theorem IsRelisted.exists_deepCopy {v w c : Value} (h : v.IsRelisted w)
    (hv : v.Every (CopiesBy look copier)) (hw : w.Every (CopiesBy look copier'))
    (hc : v.deepCopy copier = .ok c) : ∃ d, w.deepCopy copier' = .ok d ∧ c.IsRelisted d := by
  cases v with
  | atom id a =>
    obtain ⟨j, rfl⟩ := h
    cases a with
    | foreign f =>
      have here : f.copying = .anew → copier id f = look f := hv
      have there : f.copying = .anew → copier' j f = look f := hw
      simp only [deepCopy, Foreign.copy] at hc ⊢
      cases hf : f.copying with
      | itself =>
        simp only [hf] at hc
        obtain rfl := Except.ok.inj hc
        exact ⟨_, rfl, j, rfl⟩
      | anew =>
        simp only [hf] at hc
        obtain rfl := Except.ok.inj hc
        exact ⟨_, rfl, j.copied, by rw [here hf, there hf]⟩
      | refused m =>
        simp only [hf] at hc
        cases hc
    | _ =>
      obtain rfl := Except.ok.inj hc
      exact ⟨_, rfl, j, rfl⟩
  | seq id kind vs =>
    obtain ⟨j, us, ws, rfl, members, order⟩ := h
    obtain ⟨cs, hcs, rfl⟩ := (deepCopy_seq_eq_ok ..).mp hc
    have parts : EveryMember (CopiesBy look copier') us :=
      (everyMember_iff us).mpr fun u hu ↦
        (everyMember_iff ws).mp hw.2 u (order.perm.mem_iff.mpr hu)
    obtain ⟨xs, hxs, related⟩ := members.exists_copyItems hv.2 parts hcs
    -- The members are copied in the order in which they are listed, and then arranged.
    obtain ⟨ds, hds, perm⟩ :=
      List.perm_comp_forall₂ order.perm ((copyItems_eq_ok _ _ _).mp hxs)
    rw [← copyItems_eq_ok] at hds
    refine ⟨_, (deepCopy_seq_eq_ok ..).mpr ⟨ds, hds, rfl⟩, ?_⟩
    cases kind with
    | list | tuple =>
      obtain rfl := order
      obtain rfl := Except.ok.inj (hxs.symm.trans hds)
      exact ⟨_, xs, xs, rfl, related, rfl⟩
    | set | frozenset =>
      obtain ⟨zs, hzs, perm'⟩ := List.perm_comp_forall₂ (arranged_perm .set cs)
        ((areRelisted_iff _ _).mp related)
      exact ⟨_, zs, _, rfl, (areRelisted_iff _ _).mpr hzs,
        (arranged_perm .set ds).trans (perm.trans perm'.symm)⟩
  | dict id es =>
    obtain ⟨j, fs, rfl, values⟩ := h
    obtain ⟨cs, hcs, hc⟩ := (Success.bind_eq_ok _ _ _).mp hc
    obtain rfl := Except.ok.inj hc
    obtain ⟨ds, hds, related⟩ := values.exists_copyEntries hv.2 hw.2 hcs
    exact ⟨.dict j.copied ds, by rw [deepCopy, hds]; rfl, _, ds, rfl, related⟩
  | loop id kind =>
    obtain ⟨j, rfl⟩ := h
    obtain rfl := Except.ok.inj hc
    exact ⟨_, rfl, j.copied, rfl⟩
termination_by structural v

private theorem AreRelisted.exists_copyItems {vs ws cs : List Value} (h : AreRelisted vs ws)
    (hv : EveryMember (CopiesBy look copier) vs) (hw : EveryMember (CopiesBy look copier') ws)
    (hcs : copyItems copier vs = .ok cs) :
    ∃ ds, copyItems copier' ws = .ok ds ∧ AreRelisted cs ds := by
  cases vs with
  | nil =>
    obtain rfl := h
    obtain rfl := Except.ok.inj hcs
    exact ⟨[], rfl, rfl⟩
  | cons v vs =>
    obtain ⟨w, rest, rfl, first, others⟩ := h
    obtain ⟨c, hc, hcs⟩ := (Success.bind_eq_ok _ _ _).mp hcs
    obtain ⟨cs, hcs', hcs⟩ := (Success.bind_eq_ok _ _ _).mp hcs
    obtain rfl := Except.ok.inj hcs
    obtain ⟨d, hd, hcd⟩ := first.exists_deepCopy hv.1 hw.1 hc
    obtain ⟨ds, hds, hcds⟩ := others.exists_copyItems hv.2 hw.2 hcs'
    exact ⟨d :: ds, by rw [copyItems, hd, hds]; rfl, d, ds, rfl, hcd, hcds⟩
termination_by structural vs

private theorem HaveRelisted.exists_copyEntries {es fs cs : List (Value × Value)}
    (h : HaveRelisted es fs) (hv : EveryEntry (CopiesBy look copier) es)
    (hw : EveryEntry (CopiesBy look copier') fs) (hcs : copyEntries copier es = .ok cs) :
    ∃ ds, copyEntries copier' fs = .ok ds ∧ HaveRelisted cs ds := by
  cases es with
  | nil =>
    obtain rfl := h
    obtain rfl := Except.ok.inj hcs
    exact ⟨[], rfl, rfl⟩
  | cons e es =>
    obtain ⟨k, v⟩ := e
    obtain ⟨l, w, rest, rfl, key, first, others⟩ := h
    obtain ⟨c, hc, hcs⟩ := (Success.bind_eq_ok _ _ _).mp hcs
    obtain ⟨kc, hkc, hcs⟩ := (Success.bind_eq_ok _ _ _).mp hcs
    obtain ⟨cs, hcs', hcs⟩ := (Success.bind_eq_ok _ _ _).mp hcs
    obtain rfl := Except.ok.inj hcs
    obtain ⟨d, hd, hcd⟩ := first.exists_deepCopy hv.1.2 hw.1.2 hc
    obtain ⟨ds, hds, hcds⟩ := others.exists_copyEntries hv.2 hw.2 hcs'
    -- The copies of the keys have one content since the keys have.
    have contents : (l.deepCopy copier').map anonymous = .ok kc.anonymous := by
      rw [map_anonymous_deepCopy hw.1.1, key, ← map_anonymous_deepCopy hv.1.1, hkc]
      rfl
    obtain ⟨lc, hlc, same⟩ := (Success.map_eq_ok _ _ _).mp contents
    exact ⟨(lc, d) :: ds, by rw [copyEntries, hd, hlc, hds]; rfl, lc, d, ds, rfl, same, hcd, hcds⟩
termination_by structural es

end

end Copiers

/-! ### Texts of forms -/

private theorem sortText_list_congr {vs ws : List Value} (h : ws.map sortText = vs.map sortText) :
    (list ws).sortText = (list vs).sortText := by
  have text (us : List Value) : (list us).sortText =
      ((us.map sortText).mapM id).map (Style.sortedLine.array 0) := by
    have members : write Style.sortedLine 1 = id ∘ sortText :=
      funext fun v ↦ write_level rfl 1 0 v
    rw [sortText, Json.text, list, write, writeItems_eq_mapM, List.mapM_map, members]
  rw [text, text, h]

private theorem sortText_dict_congr {id j : Identity} {es fs : List (Value × Value)}
    (h : List.Forall₂ (fun e f ↦ f.1 = e.1 ∧ f.2.sortText = e.2.sortText) es fs) :
    (Value.dict j fs).sortText = (Value.dict id es).sortText := by
  have written : writeEntries .sortedLine 1 fs = writeEntries .sortedLine 1 es := by
    rw [writeEntries_eq_map, writeEntries_eq_map]
    refine Success.map_eq_of_forall₂ h fun e f hef ↦ ?_
    rw [hef.1, write_level rfl 1 0, write_level rfl 1 0]
    exact congrArg _ hef.2
  simp only [sortText, Json.text, write, written]

private theorem sortText_of_mem_withSortTexts {vs : List Value} {ps : List (String × Value)}
    (h : withSortTexts vs = .ok ps) : ∀ p ∈ ps, p.2.sortText = .ok p.1 := by
  intro p hp
  obtain ⟨v, -, -, text⟩ := Success.exists_of_forall₂ (forall₂_of_withSortTexts h).flip hp
  exact text

private theorem exists_map_sortText {vs ws : List Value} (h : sortMembers vs = .ok ws) :
    ∃ ts : List String, vs.map sortText = ts.map .ok ∧
      ws.map sortText = (ts.mergeSort fun s t ↦ !(t < s)).map .ok := by
  obtain ⟨ps, hps, h⟩ := (Success.bind_eq_ok _ _ _).mp h
  obtain rfl := Except.ok.inj h
  have texts := sortText_of_mem_withSortTexts hps
  have sort : (ps.map (·.1)).mergeSort (fun s t ↦ !(t < s)) =
      (ps.mergeSort fun p q ↦ !(q.1 < p.1)).map (·.1) :=
    (List.map_mergeSort (f := fun p : String × Value ↦ p.1) fun _ _ _ _ ↦ rfl).symm
  refine ⟨ps.map (·.1), ?_, ?_⟩
  · rw [← map_snd_of_withSortTexts hps, List.map_map, List.map_map]
    exact List.map_congr_left texts
  · rw [sort, List.map_map, List.map_map]
    exact List.map_congr_left fun p hp ↦ texts p (List.mem_mergeSort.mp hp)

/-- Members that have the texts of others, in any order, are put in an order in which the texts are
those of the others in theirs. -/
private theorem exists_sortMembers_of_perm {vs us ws : List Value}
    (perm : (us.map sortText).Perm (vs.map sortText)) (h : sortMembers vs = .ok ws) :
    ∃ xs, sortMembers us = .ok xs ∧ xs.map sortText = ws.map sortText := by
  obtain ⟨ts, hts, sorted⟩ := exists_map_sortText h
  rw [hts] at perm
  have written : ∀ u ∈ us, ∃ t, u.sortText = .ok t := by
    intro u hu
    obtain ⟨t, -, ht⟩ := List.mem_map.mp (perm.mem_iff.mp (List.mem_map_of_mem hu))
    exact ⟨t, ht.symm⟩
  obtain ⟨xs, hxs⟩ := exists_sortMembers written
  obtain ⟨ts', hts', sorted'⟩ := exists_map_sortText hxs
  rw [hts'] at perm
  have texts := (List.map_perm_map_iff fun _ _ ↦ Except.ok.inj).mp perm
  refine ⟨xs, hxs, ?_⟩
  rw [sorted, sorted']
  exact congrArg _ (mergeSort_eq_of_perm (f := id) texts fun _ _ _ _ same ↦ same)

/-! ### Forms of relisted values -/

mutual

/-- The form of a value has the text of the form of what the value is relisted to. -/
theorem IsRelisted.exists_canonical {v w : Value} (h : v.IsRelisted w) {f : Value}
    (hf : v.canonical = .ok f) : ∃ g, w.canonical = .ok g ∧ g.sortText = f.sortText := by
  cases v with
  | atom id a =>
    obtain ⟨j, rfl⟩ := h
    cases a with
    | null | bool | int | float | text =>
      obtain rfl := Except.ok.inj hf
      exact ⟨_, rfl, rfl⟩
    | _ => exact ⟨f, hf, rfl⟩
  | seq id kind vs =>
    obtain ⟨j, us, ws, rfl, members, order⟩ := h
    obtain ⟨fs, hfs, hf⟩ := (Success.bind_eq_ok _ _ _).mp hf
    obtain ⟨gs, hgs, texts⟩ := members.exists_canonicalItems hfs
    cases kind with
    | list | tuple =>
      obtain rfl := order
      obtain rfl := Except.ok.inj hf
      exact ⟨list gs, by rw [canonical, hgs]; rfl, sortText_list_congr texts⟩
    | set | frozenset =>
      obtain ⟨fs', hfs', rfl⟩ := (Success.map_eq_ok _ _ _).mp hf
      rw [canonicalItems_eq_mapM, Success.mapM_eq_ok] at hgs
      obtain ⟨hs, hhs, perm⟩ := List.perm_comp_forall₂ order.perm hgs
      rw [← Success.mapM_eq_ok, ← canonicalItems_eq_mapM] at hhs
      obtain ⟨hs', hhs', texts'⟩ := exists_sortMembers_of_perm (texts ▸ perm.map sortText) hfs'
      refine ⟨list hs', ?_, sortText_list_congr texts'⟩
      rw [canonical, hhs]
      simp only [bind, Except.bind, hhs']
      rfl
  | dict id es =>
    obtain ⟨j, fs, rfl, values⟩ := h
    obtain ⟨hs, hhs, hf⟩ := (Success.bind_eq_ok _ _ _).mp hf
    obtain rfl := Except.ok.inj hf
    have becomes := (canonicalEntries_eq_ok es hs).mp hhs
    obtain ⟨ks, hks, related⟩ := values.exists_canonicalEntries becomes
    have inserted := forall₂_foldl_insert (R := fun f g : Value ↦ g.sortText = f.sortText) related
      .nil
    refine ⟨ofEntries .fresh ks, ?_, sortText_dict_congr inserted⟩
    rw [canonical, (canonicalEntries_eq_ok fs ks).mpr hks]
    rfl
  | loop id kind => cases hf
termination_by structural v

/-- The forms of values have the texts of the forms of what they are relisted to. -/
theorem AreRelisted.exists_canonicalItems {vs ws : List Value} (h : AreRelisted vs ws)
    {fs : List Value} (hfs : canonicalItems vs = .ok fs) :
    ∃ gs, canonicalItems ws = .ok gs ∧ gs.map sortText = fs.map sortText := by
  cases vs with
  | nil =>
    obtain rfl := h
    obtain rfl := Except.ok.inj hfs
    exact ⟨[], rfl, rfl⟩
  | cons v vs =>
    obtain ⟨w, rest, rfl, hw, hrest⟩ := h
    obtain ⟨f, hf, hfs⟩ := (Success.bind_eq_ok _ _ _).mp hfs
    obtain ⟨fs, hfs', hfs⟩ := (Success.bind_eq_ok _ _ _).mp hfs
    obtain rfl := Except.ok.inj hfs
    obtain ⟨g, hg, text⟩ := hw.exists_canonical hf
    obtain ⟨gs, hgs, texts⟩ := hrest.exists_canonicalItems hfs'
    exact ⟨g :: gs, by rw [canonicalItems, hg, hgs]; rfl,
      by rw [List.map_cons, List.map_cons, text, texts]⟩
termination_by structural vs

/-- Entries become entries with the same keys and the same texts as those that they are relisted
to. -/
theorem HaveRelisted.exists_canonicalEntries {es fs : List (Value × Value)}
    (h : HaveRelisted es fs) {hs : List (Value × Value)} (hhs : List.Forall₂ EntryBecomes es hs) :
    ∃ ks, List.Forall₂ EntryBecomes fs ks ∧
      List.Forall₂ (fun e f ↦ f.1 = e.1 ∧ f.2.sortText = e.2.sortText) hs ks := by
  cases es with
  | nil =>
    obtain rfl := h
    obtain rfl := List.forall₂_nil_left_iff.mp hhs
    exact ⟨[], .nil, .nil⟩
  | cons e es =>
    obtain ⟨k, v⟩ := e
    obtain ⟨l, w, rest, rfl, key, hw, hrest⟩ := h
    obtain ⟨⟨_, f⟩, hs, ⟨s, hkey, rfl, hf⟩, becomes, rfl⟩ := List.forall₂_cons_left_iff.mp hhs
    obtain ⟨g, hg, hfg⟩ := hw.exists_canonical hf
    obtain ⟨ks, hks, related⟩ := hrest.exists_canonicalEntries becomes
    have key' : l.canonicalKey = .ok s := by
      rw [← canonicalKey_anonymous l, key, canonicalKey_anonymous]
      exact hkey
    exact ⟨(text s, g) :: ks, .cons ⟨s, key', rfl, hg⟩ hks, .cons ⟨rfl, hfg⟩ related⟩
termination_by structural es

end

private theorem IsRelisted.exists_text_canonical {v w : Value} (h : v.IsRelisted w)
    (told : v.Every IsTellable) : ∃ f g t, v.canonical = .ok f ∧ w.canonical = .ok g ∧
      Json.text .sortedLine f = .ok t ∧ Json.text .sortedLine g = .ok t := by
  obtain ⟨f, hf, form⟩ := Value.exists_canonical told
  obtain ⟨g, hg, text⟩ := h.exists_canonical hf
  obtain ⟨t, ht⟩ := form.exists_write .sortedLine 0
  exact ⟨f, g, t, hf, hg, ht, text.trans ht⟩

/-- Values that are relisted have canonical forms that are written alike. -/
theorem IsRelisted.followedBy {v w : Value} (h : v.IsRelisted w) :
    FollowedBy v.canonical w.canonical := by
  cases hf : v.canonical with
  | error f => exact .apart trivial _
  | ok f =>
    obtain ⟨g, hg, same⟩ := h.exists_canonical hf
    rw [hg]
    refine .ok fun level t ht ↦ ?_
    rw [write_level rfl level 0] at ht ⊢
    obtain ⟨u, hu⟩ : ∃ u, f.sortText = .ok u :=
      exists_write_of_strict rfl (fun _ ↦ rfl) 0 0 f ⟨t, ht⟩
    have compact : Json.text .compact g = Json.text .compact f := by
      rw [text_compact_eq hu, text_compact_eq (same.trans hu)]
    exact compact.trans ht

end Value

/-! ### Graphs -/

/-- An attribute of a graph is another one, but for an opaque default in which sets list their
members in other orders. -/
inductive Attribute.IsRelisted (s t : Attribute) : Prop
  | kept (h : t = s)
  | relisted (hidden : s.type.isOpaque = true) (default : s.default.IsRelisted t.default)
    (h : t = { s with default := t.default })

/-- An entity of a graph is another one, but for attributes with relisted defaults. -/
structure Entity.IsRelisted (e f : Entity) : Prop where
  attributes : List.Forall₂ Attribute.IsRelisted e.attributes f.attributes
  rest : f = { e with attributes := f.attributes }

/-- A graph is another one, but for attributes with relisted defaults. -/
structure Graph.IsRelisted (g h : Graph) : Prop where
  entities : List.Forall₂ Entity.IsRelisted g.entities h.entities
  rest : h = { g with entities := h.entities }

private theorem Attribute.IsRelisted.followedBy {s t : Attribute} (h : s.IsRelisted t) :
    FollowedBy s.view t.view := by
  cases h with
  | kept h =>
    rw [h]
    exact .refl _
  | relisted hidden default h =>
    rw [h]
    refine s.followedBy_view ?_
    rw [ScalarType.viewOf, ScalarType.viewOf, if_pos hidden, if_pos hidden]
    exact default.followedBy

private theorem Entity.IsRelisted.resembles {e f : Entity} (h : e.IsRelisted f) :
    e.Resembles f := by
  rw [h.rest]
  exact Entity.resembles_of_attributes rfl rfl rfl rfl rfl
    (h.attributes.imp fun _ _ ↦ Attribute.IsRelisted.followedBy)

private theorem Graph.IsRelisted.fingerprint_eq {s t : Schema} (h : s.graph.IsRelisted t.graph) :
    t.fingerprint = s.fingerprint := by
  have name : t.graph.name = s.graph.name := by rw [h.rest]
  have version : t.graph.version = s.graph.version := by rw [h.rest]
  have entities := h.entities.imp fun _ _ ↦ Entity.IsRelisted.resembles
  exact Except.ok.inj (t.fingerprint_eq.symm.trans
    (Graph.fingerprint_eq_of_resembles name version entities s.fingerprint_eq))

/-! ### Declarations -/

/-- An attribute is declared as another is, but for an opaque default in which sets list their
members in other orders. -/
structure AttributeDecl.IsRelisted (a b : AttributeDecl) : Prop where
  name : b.name = a.name
  type : b.type = a.type
  isOptional : b.isOptional = a.isOptional
  externalStorage : b.externalStorage = a.externalStorage
  preservedOnDelete : b.preservedOnDelete = a.preservedOnDelete
  default : b.default = a.default ∨ a.type.isOpaque = true ∧ a.default.IsRelisted b.default

private theorem AttributeDecl.IsRelisted.symm {a b : AttributeDecl} (h : a.IsRelisted b) :
    b.IsRelisted a :=
  ⟨h.name.symm, h.type.symm, h.isOptional.symm, h.externalStorage.symm, h.preservedOnDelete.symm,
    h.default.imp Eq.symm fun ⟨hidden, relisted⟩ ↦ ⟨h.type ▸ hidden, relisted.symm⟩⟩

/-- A host copies the objects in the defaults of some entities by their looks, which are told for
each entity and attribute. -/
def Host.CopiesBy (host : Host) (look : Value → Value → Foreign → Foreign)
    (entities : List EntityDecl) : Prop :=
  ∀ e ∈ entities, ∀ a ∈ e.attributes,
    a.default.Every (Value.CopiesBy (look e.name a.name) (host.copier e.name a.name))

private theorem Host.copiesBy_default (entities : List EntityDecl) :
    Host.CopiesBy default (fun _ _ f ↦ f) entities := by
  refine fun _ _ a _ ↦ Value.every_of_forall (fun v ↦ ?_) a.default
  cases v with
  | atom id a =>
    cases a with
    | foreign f => exact fun _ ↦ rfl
    | _ => trivial
  | _ => trivial

namespace Schema

variable {look : Value → Value → Foreign → Foreign} {host host' : Host}

/-- An attribute with a relisted default resembles the attribute, on hosts that copy objects by
their looks. -/
private theorem resembles_of_isRelisted {entity : Value} {a b : AttributeDecl} (h : a.IsRelisted b)
    (ha : a.default.Every (Value.CopiesBy (look entity a.name) (host.copier entity a.name)))
    (hb : b.default.Every (Value.CopiesBy (look entity b.name) (host'.copier entity b.name))) :
    AttributeDecl.Resembles host host' entity a b := by
  refine ⟨h.name, h.type, h.isOptional, h.externalStorage, h.preservedOnDelete, fun c hc ↦ ?_⟩
  rw [h.name] at hb
  rw [AttributeDecl.copyDefault] at hc ⊢
  rw [h.type, h.name]
  rcases h.default with same | ⟨hidden, relisted⟩
  · rw [same] at hb ⊢
    rw [← Value.deepCopy_congr (ha.combine (fun _ ↦ Value.CopiesBy.copiesAlike) hb)]
    exact ⟨c, hc, .refl _⟩
  · rw [if_pos hidden] at hc ⊢
    obtain ⟨d, hd, hcd⟩ := relisted.exists_deepCopy ha hb hc
    refine ⟨d, hd, ?_⟩
    rw [ScalarType.viewOf, ScalarType.viewOf, if_pos hidden, if_pos hidden]
    exact hcd.followedBy

private theorem exists_compile_of_isRelisted {config : CompilerConfig} {es fs : List EntityDecl}
    (h : List.Forall₂ (EntityDecl.Alters AttributeDecl.IsRelisted) es fs)
    (hes : host.CopiesBy look es) (hfs : host'.CopiesBy look fs) {name version : Value} {s : Schema}
    (hs : (compile host config es name version).result = .ok s) :
    ∃ t, (compile host' config fs name version).result = .ok t ∧
      t.fingerprint = s.fingerprint := by
  have paired := (List.forall₂_and_left _ _).mpr ⟨fun _ he ↦ he, h⟩
  have both := ((List.forall₂_and_left _ _).mpr ⟨fun _ hf ↦ hf, paired.flip⟩).flip
  refine exists_compile_of_resembles (both.imp fun e f ⟨hf, he, hef⟩ ↦ ?_) hs
  have members := (List.forall₂_and_left _ _).mpr ⟨fun _ ha ↦ ha, hef.attributes⟩
  have attributes := ((List.forall₂_and_left _ _).mpr ⟨fun _ hb ↦ hb, members.flip⟩).flip
  exact { hef with
    attributes := attributes.imp fun a b ⟨hb, ha, hab⟩ ↦
      resembles_of_isRelisted hab (hes e he a ha) (hef.name ▸ hfs f hf b hb) }

end Schema

/-- The canonical forms of values that differ in nothing but the orders in which sets list their
members have one text, and schemas whose defaults differ in no more have one fingerprint. Declared
defaults are copied, and a run copies other objects than another; where what classes outside of the
library make of these goes by their looks, entities whose defaults differ in no more compile to
schemas of one fingerprint. -/
theorem Schema.fingerprint_eq_of_isRelisted :
    (∀ v w : Value, v.Every Value.IsTellable → v.IsRelisted w → ∃ f g t,
      v.canonical = .ok f ∧ w.canonical = .ok g ∧
        Json.text .sortedLine f = .ok t ∧ Json.text .sortedLine g = .ok t) ∧
    (∀ s t : Schema, s.graph.IsRelisted t.graph → t.fingerprint = s.fingerprint) ∧
    ∀ (look : Value → Value → Foreign → Foreign) (host host' : Host) (config : CompilerConfig)
      (es fs : List EntityDecl) (name version : Value) (t : String),
      List.Forall₂ (EntityDecl.Alters AttributeDecl.IsRelisted) es fs →
      host.CopiesBy look es → host'.CopiesBy look fs →
        ((∃ s, (compile host config es name version).result = .ok s ∧ s.fingerprint = t) ↔
          ∃ s, (compile host' config fs name version).result = .ok s ∧ s.fingerprint = t) := by
  refine ⟨fun v w told relisted ↦ relisted.exists_text_canonical told,
    fun s t relisted ↦ relisted.fingerprint_eq, ?_⟩
  intro look host host' config es fs name version t h hes hfs
  have back : List.Forall₂ (EntityDecl.Alters AttributeDecl.IsRelisted) fs es :=
    h.flip.imp fun _ _ hef ↦ hef.flip.imp fun _ _ hab ↦ hab.symm
  constructor
  · rintro ⟨s, hs, rfl⟩
    exact exists_compile_of_isRelisted h hes hfs hs
  · rintro ⟨s, hs, rfl⟩
    exact exists_compile_of_isRelisted back hfs hes hs

/-! ### An example -/

namespace Blobs

/-- A set of a text, a byte string and a tuple that holds a frozen set. -/
def parcel : Value :=
  .seq .fresh .set [.text "YQ==", .atom .fresh (.bytes false [97]),
    .seq .fresh .tuple [.seq .fresh .frozenset [.text "a", .null]]]

/-- The same set, which lists its members in another order, as does the frozen set in it. -/
def repacked : Value :=
  .seq .fresh .set [.seq .fresh .tuple [.seq .fresh .frozenset [.null, .text "a"]],
    .atom .fresh (.bytes false [97]), .text "YQ=="]

/-- All that is in the set can be told. -/
theorem every_isTellable_parcel : parcel.Every Value.IsTellable :=
  ⟨trivial, ⟨_, rfl⟩, ⟨_, rfl⟩, ⟨trivial, ⟨trivial, ⟨_, rfl⟩, ⟨_, rfl⟩, trivial⟩, trivial⟩, trivial⟩

/-- The set is copied to one that lists the same members. -/
theorem deepCopy_parcel (copier : Copier) : parcel.deepCopy copier = .ok parcel := rfl

private theorem isRelisted_parcel : parcel.IsRelisted repacked := by
  have inner : (Value.seq .fresh .frozenset [.text "a", .null]).IsRelisted
      (.seq .fresh .frozenset [.null, .text "a"]) :=
    ⟨.fresh, [.text "a", .null], _, rfl,
      ⟨_, _, rfl, ⟨.fresh, rfl⟩, _, _, rfl, ⟨.fresh, rfl⟩, rfl⟩, .swap ..⟩
  have middle : (Value.seq .fresh .tuple [.seq .fresh .frozenset [.text "a", .null]]).IsRelisted
      (.seq .fresh .tuple [.seq .fresh .frozenset [.null, .text "a"]]) :=
    ⟨.fresh, _, _, rfl, ⟨_, _, rfl, inner, rfl⟩, rfl⟩
  exact ⟨.fresh, _, _, rfl,
    ⟨_, _, rfl, ⟨.fresh, rfl⟩, _, _, rfl, ⟨.fresh, rfl⟩, _, _, rfl, middle, rfl⟩,
    List.reverse_perm [_, _, _]⟩

end Blobs

/-- The text and the byte string share a text in the canonical form, and the schema of blobs has the
same fingerprint in either order. -/
theorem Schema.fingerprint_eq_of_isRelisted_blobs :
    Blobs.parcel.Every Value.IsTellable ∧ Blobs.parcel.IsRelisted Blobs.repacked ∧
      (∃ f g t, Blobs.parcel.canonical = .ok f ∧ Blobs.repacked.canonical = .ok g ∧
        Json.text .sortedLine f = .ok t ∧ Json.text .sortedLine g = .ok t) ∧
      ∃ s t, (compile default default [Blobs.blob Blobs.parcel] (.text "Blobs")
          (.int 1)).result = .ok s ∧
        (compile default default [Blobs.blob Blobs.repacked] (.text "Blobs")
          (.int 1)).result = .ok t ∧
        s.graph.IsRelisted t.graph ∧ t.fingerprint = s.fingerprint := by
  have told := Blobs.every_isTellable_parcel
  have relisted := Blobs.isRelisted_parcel
  obtain ⟨texts, graphs, schemas⟩ := fingerprint_eq_of_isRelisted
  obtain ⟨s, hs⟩ :=
    Blobs.exists_compile_of_isTellable default (Blobs.deepCopy_parcel _) told
  have data : (Blobs.data Blobs.parcel).IsRelisted (Blobs.data Blobs.repacked) :=
    ⟨rfl, rfl, rfl, rfl, rfl, .inr ⟨rfl, relisted⟩⟩
  have blob : EntityDecl.Alters AttributeDecl.IsRelisted (Blobs.blob Blobs.parcel)
      (Blobs.blob Blobs.repacked) :=
    ⟨rfl, rfl, rfl, rfl, rfl, .cons data .nil⟩
  obtain ⟨t, ht, -⟩ := (schemas (fun _ _ f ↦ f) default default default _ _
    (.text "Blobs") (.int 1) s.fingerprint (.cons blob .nil) (Host.copiesBy_default _)
    (Host.copiesBy_default _)).mp ⟨s, hs, rfl⟩
  obtain ⟨l, -, -, before, -⟩ := exists_links_of_compile (EntityDecl.isNamed (Blobs.isTextual _)) hs
  obtain ⟨m, -, -, after, -⟩ := exists_links_of_compile (EntityDecl.isNamed (Blobs.isTextual _)) ht
  have graph : s.graph.IsRelisted t.graph := by
    rw [before, after]
    exact ⟨.cons ⟨.cons (.relisted rfl relisted rfl) .nil, rfl⟩ .nil, rfl⟩
  exact ⟨told, relisted, texts _ _ told relisted, s, t, hs, ht, graph, graphs s t graph⟩

end EntityGraph
