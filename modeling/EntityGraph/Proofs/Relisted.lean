import Mathlib.Data.List.Perm.Basic
import EntityGraph.Proofs.Anonymity
import EntityGraph.Proofs.Success

/-!
# Relisted values

A value is relisted if sets in it, at any depth, list their members in other orders. Comparisons
with values of which only the contents are known make no difference between the two, as they look
for every member of a set.
-/

namespace EntityGraph

/-- Members of a value of a kind that are listed in another order: only sets may do that. -/
def SeqKind.Relists (kind : SeqKind) (vs ws : List Value) : Prop :=
  match kind with
  | .list | .tuple => ws = vs
  | .set | .frozenset => ws.Perm vs

/-- Members in their own order are listed in one that their kind allows. -/
theorem SeqKind.relists_refl (kind : SeqKind) (vs : List Value) : kind.Relists vs vs := by
  cases kind with
  | list | tuple => rfl
  | set | frozenset => exact .refl vs

/-- Members in another order are those that there were. -/
theorem SeqKind.Relists.perm {kind : SeqKind} {vs ws : List Value} (h : kind.Relists vs ws) :
    ws.Perm vs := by
  cases kind with
  | list | tuple => exact .of_eq h
  | set | frozenset => exact h

namespace Value

/-! ### Relisted values -/

mutual

/-- A value is another one with the members of sets listed in other orders. Which objects its parts
are does not matter, and keys are the same up to that. -/
def IsRelisted : Value → Value → Prop
  | .atom _ a, w => ∃ j, w = .atom j a
  | .seq _ kind vs, w => ∃ j us ws, w = .seq j kind ws ∧ AreRelisted vs us ∧ kind.Relists us ws
  | .dict _ es, w => ∃ j fs, w = .dict j fs ∧ HaveRelisted es fs
  | .loop _ kind, w => ∃ j, w = .loop j kind

/-- Each of some values is relisted. -/
def AreRelisted : List Value → List Value → Prop
  | [], ws => ws = []
  | v :: vs, ws => ∃ w rest, ws = w :: rest ∧ v.IsRelisted w ∧ AreRelisted vs rest

/-- The values of some entries are relisted under their keys. -/
def HaveRelisted : List (Value × Value) → List (Value × Value) → Prop
  | [], fs => fs = []
  | (k, v) :: es, fs =>
    ∃ l w rest, fs = (l, w) :: rest ∧ l.anonymous = k.anonymous ∧ v.IsRelisted w ∧
      HaveRelisted es rest

end

/-- Members are relisted one by one. -/
theorem areRelisted_iff (vs ws : List Value) :
    AreRelisted vs ws ↔ List.Forall₂ IsRelisted vs ws := by
  induction vs generalizing ws with
  | nil => simp [AreRelisted]
  | cons v vs ih =>
    rw [AreRelisted, List.forall₂_cons_left_iff]
    constructor
    · rintro ⟨w, rest, rfl, hw, hrest⟩
      exact ⟨w, rest, hw, (ih rest).mp hrest, rfl⟩
    · rintro ⟨w, rest, hw, hrest, rfl⟩
      exact ⟨w, rest, rfl, hw, (ih rest).mpr hrest⟩

private theorem haveRelisted_iff (es fs : List (Value × Value)) :
    HaveRelisted es fs ↔ List.Forall₂
      (fun e f ↦ f.1.anonymous = e.1.anonymous ∧ e.2.IsRelisted f.2) es fs := by
  induction es generalizing fs with
  | nil => simp [HaveRelisted]
  | cons e es ih =>
    obtain ⟨k, v⟩ := e
    rw [HaveRelisted, List.forall₂_cons_left_iff]
    constructor
    · rintro ⟨l, w, rest, rfl, key, hw, hrest⟩
      exact ⟨(l, w), rest, ⟨key, hw⟩, (ih rest).mp hrest, rfl⟩
    · rintro ⟨⟨l, w⟩, rest, ⟨key, hw⟩, hrest, rfl⟩
      exact ⟨l, w, rest, rfl, key, hw, (ih rest).mpr hrest⟩

private theorem length_eq_of_areRelisted {vs ws : List Value} (h : AreRelisted vs ws) :
    ws.length = vs.length := ((areRelisted_iff vs ws).mp h).length_eq.symm

private theorem length_eq_of_haveRelisted {es fs : List (Value × Value)} (h : HaveRelisted es fs) :
    fs.length = es.length := ((haveRelisted_iff es fs).mp h).length_eq.symm

/-- What is shown of atoms that differ in nothing but which objects they are, and of collections of
as many members or entries, holds of a value and the relisted one. -/
@[elab_as_elim]
theorem IsRelisted.shape {motive : Value → Value → Prop} {v w : Value} (h : v.IsRelisted w)
    (atom : ∀ id jd a, motive (.atom id a) (.atom jd a))
    (seq : ∀ id jd kind vs ws, ws.length = vs.length → motive (.seq id kind vs) (.seq jd kind ws))
    (dict : ∀ id jd es fs, fs.length = es.length → motive (.dict id es) (.dict jd fs))
    (loop : ∀ id jd kind, motive (.loop id kind) (.loop jd kind)) : motive v w := by
  cases v with
  | atom id a =>
    obtain ⟨j, rfl⟩ := h
    exact atom id j a
  | seq id kind vs =>
    obtain ⟨j, us, ws, rfl, members, order⟩ := h
    exact seq id j kind vs ws (order.perm.length_eq.trans (length_eq_of_areRelisted members))
  | dict id es =>
    obtain ⟨j, fs, rfl, values⟩ := h
    exact dict id j es fs (length_eq_of_haveRelisted values)
  | loop id kind =>
    obtain ⟨j, rfl⟩ := h
    exact loop id j kind

mutual

/-- Being relisted has no direction. -/
theorem IsRelisted.symm {v w : Value} (h : v.IsRelisted w) : w.IsRelisted v := by
  cases v with
  | atom id a =>
    obtain ⟨j, rfl⟩ := h
    exact ⟨id, rfl⟩
  | seq id kind vs =>
    obtain ⟨j, us, ws, rfl, members, order⟩ := h
    have back := members.symm
    cases kind with
    | list | tuple =>
      obtain rfl := order
      exact ⟨id, vs, vs, rfl, back, rfl⟩
    | set | frozenset =>
      obtain ⟨xs, hxs, perm⟩ := List.perm_comp_forall₂ order.perm ((areRelisted_iff _ _).mp back)
      exact ⟨id, xs, vs, rfl, (areRelisted_iff _ _).mpr hxs, perm.symm⟩
  | dict id es =>
    obtain ⟨j, fs, rfl, values⟩ := h
    exact ⟨id, es, rfl, values.symm⟩
  | loop id kind =>
    obtain ⟨j, rfl⟩ := h
    exact ⟨id, rfl⟩
termination_by structural v

private theorem AreRelisted.symm {vs ws : List Value} (h : AreRelisted vs ws) :
    AreRelisted ws vs := by
  cases vs with
  | nil =>
    obtain rfl := h
    rfl
  | cons v vs =>
    obtain ⟨w, rest, rfl, hw, hrest⟩ := h
    exact ⟨v, vs, rfl, hw.symm, hrest.symm⟩
termination_by structural vs

private theorem HaveRelisted.symm {es fs : List (Value × Value)} (h : HaveRelisted es fs) :
    HaveRelisted fs es := by
  cases es with
  | nil =>
    obtain rfl := h
    rfl
  | cons e es =>
    obtain ⟨k, v⟩ := e
    obtain ⟨l, w, rest, rfl, key, hw, hrest⟩ := h
    exact ⟨k, v, es, rfl, key.symm, hw.symm, hrest.symm⟩
termination_by structural es

end

/-! ### Contents -/

mutual

/-- Values of one content are relisted in the orders that they have. -/
theorem isRelisted_of_anonymous_eq {v w : Value} (h : w.anonymous = v.anonymous) :
    v.IsRelisted w := by
  cases v with
  | atom id a =>
    cases w with
    | atom jd b =>
      obtain rfl : b = a := (Value.atom.inj h).2
      exact ⟨jd, rfl⟩
    | _ => cases h
  | seq id kind vs =>
    cases w with
    | seq jd other ws =>
      obtain ⟨-, rfl, items⟩ := Value.seq.inj h
      exact ⟨jd, ws, ws, rfl, areRelisted_of_anonymousItems_eq items, other.relists_refl ws⟩
    | _ => cases h
  | dict id es =>
    cases w with
    | dict jd fs => exact ⟨jd, fs, rfl, haveRelisted_of_anonymousEntries_eq (Value.dict.inj h).2⟩
    | _ => cases h
  | loop id kind =>
    cases w with
    | loop jd other =>
      obtain rfl : other = kind := (Value.loop.inj h).2
      exact ⟨jd, rfl⟩
    | _ => cases h
termination_by structural v

private theorem areRelisted_of_anonymousItems_eq {vs ws : List Value}
    (h : anonymousItems ws = anonymousItems vs) : AreRelisted vs ws := by
  cases vs with
  | nil =>
    cases ws with
    | nil => rfl
    | cons w ws => cases h
  | cons v vs =>
    cases ws with
    | nil => cases h
    | cons w ws =>
      obtain ⟨first, rest⟩ := List.cons.inj h
      exact ⟨w, ws, rfl, isRelisted_of_anonymous_eq first, areRelisted_of_anonymousItems_eq rest⟩
termination_by structural vs

private theorem haveRelisted_of_anonymousEntries_eq {es fs : List (Value × Value)}
    (h : anonymousEntries fs = anonymousEntries es) : HaveRelisted es fs := by
  cases es with
  | nil =>
    cases fs with
    | nil => rfl
    | cons f fs => cases h
  | cons e es =>
    cases fs with
    | nil => cases h
    | cons f fs =>
      obtain ⟨first, rest⟩ := List.cons.inj h
      obtain ⟨key, value⟩ := Prod.mk.inj first
      exact ⟨f.1, f.2, fs, rfl, key, isRelisted_of_anonymous_eq value,
        haveRelisted_of_anonymousEntries_eq rest⟩
termination_by structural es

end

private theorem keys_of_haveRelisted {es fs : List (Value × Value)} (h : HaveRelisted es fs) :
    (anonymousEntries fs).map (·.1) = (anonymousEntries es).map (·.1) := by
  induction es generalizing fs with
  | nil =>
    obtain rfl := h
    rfl
  | cons e es ih =>
    obtain ⟨l, w, rest, rfl, key, -, hrest⟩ := h
    exact List.cons_eq_cons.mpr ⟨key, ih hrest⟩

mutual

/-- A relisted value can be told from its content if the value can. -/
theorem IsRelisted.isKnown_anonymous {v w : Value} (h : v.IsRelisted w)
    (known : v.anonymous.IsKnown) : w.anonymous.IsKnown := by
  cases v with
  | atom id a =>
    obtain ⟨j, rfl⟩ := h
    exact known
  | seq id kind vs =>
    obtain ⟨j, us, ws, rfl, members, order⟩ := h
    have each := AreRelisted.isKnown_anonymous members (known.resolve_left fun named ↦ named rfl)
    refine .inr ((areKnown_iff _).mpr ?_)
    rw [anonymousItems_eq_map, List.forall_mem_map]
    exact fun w hw ↦ each w (order.perm.mem_iff.mp hw)
  | dict id es =>
    obtain ⟨j, fs, rfl, values⟩ := h
    obtain ⟨distinct, each⟩ := known.resolve_left fun named ↦ named rfl
    have kept : ((anonymousEntries es).map (·.1)).Pairwise fun k l ↦ l.same k = false :=
      List.pairwise_map.mpr distinct
    rw [← keys_of_haveRelisted values] at kept
    exact .inr ⟨List.pairwise_map.mp kept, HaveRelisted.areKnown_anonymous values each⟩
  | loop id kind => exact absurd rfl known
termination_by structural v

private theorem AreRelisted.isKnown_anonymous {vs ws : List Value} (h : AreRelisted vs ws)
    (known : AreKnown (anonymousItems vs)) : ∀ w ∈ ws, w.anonymous.IsKnown := by
  cases vs with
  | nil =>
    obtain rfl := h
    exact List.forall_mem_nil _
  | cons v vs =>
    obtain ⟨w, rest, rfl, hw, hrest⟩ := h
    exact List.forall_mem_cons.mpr ⟨hw.isKnown_anonymous known.1,
      AreRelisted.isKnown_anonymous hrest known.2⟩
termination_by structural vs

private theorem HaveRelisted.areKnown_anonymous {es fs : List (Value × Value)}
    (h : HaveRelisted es fs) (known : AreKnownEntries (anonymousEntries es)) :
    AreKnownEntries (anonymousEntries fs) := by
  cases es with
  | nil =>
    obtain rfl := h
    trivial
  | cons e es =>
    obtain ⟨l, w, rest, rfl, key, hw, hrest⟩ := h
    have first : l.anonymous.IsKnown := key ▸ known.1.1
    exact ⟨⟨first, hw.isKnown_anonymous known.1.2⟩,
      HaveRelisted.areKnown_anonymous hrest known.2⟩
termination_by structural es

end

/-! ### Comparisons -/

private theorem any_eq_of_forall₂ {α : Type} {R : α → α → Prop} {p : α → Bool} {as bs : List α}
    (h : List.Forall₂ R as bs) (step : ∀ a b, R a b → p b = p a) : bs.any p = as.any p := by
  induction h with
  | nil => rfl
  | cons hab _ ih => rw [List.any_cons, List.any_cons, step _ _ hab, ih]

private theorem allAmong_eq_of_perm (us : List Value) {vs ws : List Value} (h : ws.Perm vs) :
    allAmong us ws = allAmong us vs := by
  rw [Bool.eq_iff_iff, allAmong_iff, allAmong_iff]
  simp only [h.mem_iff]

mutual

/-- An anonymous value is the same as a relisted one exactly if it is the same as the value. -/
theorem same_of_isRelisted (u : Value) {v w : Value} (h : v.IsRelisted w) :
    u.anonymous.same w = u.anonymous.same v := by
  cases v with
  | atom id a =>
    obtain ⟨j, rfl⟩ := h
    cases u <;> simp only [anonymous, same, fresh_same]
  | seq id kind vs =>
    obtain ⟨j, xs, ws, rfl, members, order⟩ := h
    cases u with
    | seq jd other us =>
      have counted : ws.length = vs.length :=
        order.perm.length_eq.trans (length_eq_of_areRelisted members)
      have found : allAmong (anonymousItems us) ws = allAmong (anonymousItems us) vs :=
        (allAmong_eq_of_perm _ order.perm).trans (allAmong_of_areRelisted us members)
      simp only [anonymous, same, fresh_same, counted, found]
      cases kind with
      | list | tuple =>
        obtain rfl := order
        rw [sameItems_of_areRelisted us members]
      | set | frozenset => cases other <;> rfl
    | _ => simp only [anonymous, same]
  | dict id es =>
    obtain ⟨j, fs, rfl, values⟩ := h
    cases u with
    | dict jd others =>
      simp only [anonymous, same, fresh_same, length_eq_of_haveRelisted values,
        entriesAmong_of_haveRelisted others values]
    | _ => simp only [anonymous, same]
  | loop id kind =>
    obtain ⟨j, rfl⟩ := h
    cases u <;> simp only [anonymous, same, fresh_same]
termination_by structural u

private theorem sameItems_of_areRelisted (us : List Value) {vs ws : List Value}
    (h : AreRelisted vs ws) :
    sameItems (anonymousItems us) ws = sameItems (anonymousItems us) vs := by
  cases us with
  | nil =>
    cases vs with
    | nil =>
      obtain rfl := h
      rfl
    | cons v vs =>
      obtain ⟨w, rest, rfl, -⟩ := h
      simp only [anonymousItems, sameItems]
  | cons u us =>
    cases vs with
    | nil =>
      obtain rfl := h
      rfl
    | cons v vs =>
      obtain ⟨w, rest, rfl, hw, hrest⟩ := h
      rw [anonymousItems, sameItems, sameItems, same_of_isRelisted u hw,
        sameItems_of_areRelisted us hrest]
termination_by structural us

private theorem allAmong_of_areRelisted (us : List Value) {vs ws : List Value}
    (h : AreRelisted vs ws) :
    allAmong (anonymousItems us) ws = allAmong (anonymousItems us) vs := by
  cases us with
  | nil => simp only [anonymousItems, allAmong]
  | cons u us =>
    have found : ws.any (u.anonymous.same ·) = vs.any (u.anonymous.same ·) :=
      any_eq_of_forall₂ ((areRelisted_iff vs ws).mp h) fun v w hvw ↦ same_of_isRelisted u hvw
    rw [anonymousItems, allAmong, allAmong, found, allAmong_of_areRelisted us h]
termination_by structural us

private theorem entriesAmong_of_haveRelisted (us : List (Value × Value))
    {es fs : List (Value × Value)} (h : HaveRelisted es fs) :
    entriesAmong (anonymousEntries us) fs = entriesAmong (anonymousEntries us) es := by
  cases us with
  | nil => simp only [anonymousEntries, entriesAmong]
  | cons u us =>
    obtain ⟨k, u⟩ := u
    have found : fs.any (fun f ↦ k.anonymous.same f.1 && u.anonymous.same f.2) =
        es.any fun e ↦ k.anonymous.same e.1 && u.anonymous.same e.2 := by
      refine any_eq_of_forall₂ ((haveRelisted_iff es fs).mp h) fun e f ⟨key, value⟩ ↦ ?_
      rw [← same_anonymous k f.1, key, same_anonymous, same_of_isRelisted u value]
    rw [anonymousEntries, entriesAmong, entriesAmong, found, entriesAmong_of_haveRelisted us h]
termination_by structural us

end

mutual

/-- Comparing an anonymous value with a relisted one ends exactly if comparing it with the value
does. -/
theorem endless_of_isRelisted (u : Value) {v w : Value} (h : v.IsRelisted w) :
    u.anonymous.endless w = u.anonymous.endless v := by
  cases v with
  | atom id a =>
    obtain ⟨j, rfl⟩ := h
    cases u <;> simp only [anonymous, endless]
  | seq id kind vs =>
    obtain ⟨j, xs, ws, rfl, members, order⟩ := h
    cases u with
    | seq jd other us =>
      cases kind with
      | list | tuple =>
        obtain rfl := order
        simp only [anonymous, endless, fresh_same, length_eq_of_areRelisted members,
          endlessItems_of_areRelisted us members]
      -- sets are compared by looking for their members, which ends
      | set | frozenset => cases other <;> simp [anonymous, endless, SeqKind.comparison?]
    | _ => simp only [anonymous, endless]
  | dict id es =>
    obtain ⟨j, fs, rfl, values⟩ := h
    cases u with
    | dict jd others =>
      simp only [anonymous, endless, fresh_same, length_eq_of_haveRelisted values,
        endlessEntries_of_haveRelisted others values]
    | _ => simp only [anonymous, endless]
  | loop id kind =>
    obtain ⟨j, rfl⟩ := h
    cases u <;> simp only [anonymous, endless, fresh_same]
termination_by structural u

private theorem endlessItems_of_areRelisted (us : List Value) {vs ws : List Value}
    (h : AreRelisted vs ws) :
    endlessItems (anonymousItems us) ws = endlessItems (anonymousItems us) vs := by
  cases us with
  | nil => simp only [anonymousItems, endlessItems]
  | cons u us =>
    cases vs with
    | nil =>
      obtain rfl := h
      rfl
    | cons v vs =>
      obtain ⟨w, rest, rfl, hw, hrest⟩ := h
      rw [anonymousItems, endlessItems, endlessItems, endless_of_isRelisted u hw,
        same_of_isRelisted u hw, endlessItems_of_areRelisted us hrest]
termination_by structural us

private theorem endlessEntries_of_haveRelisted (us : List (Value × Value))
    {es fs : List (Value × Value)} (h : HaveRelisted es fs) :
    endlessEntries (anonymousEntries us) fs = endlessEntries (anonymousEntries us) es := by
  cases us with
  | nil => simp only [anonymousEntries, endlessEntries]
  | cons u us =>
    obtain ⟨k, u⟩ := u
    have found : Option.Rel (fun e f ↦ f.1.anonymous = e.1.anonymous ∧ e.2.IsRelisted f.2)
        (es.find? fun e ↦ k.anonymous.same e.1) (fs.find? fun f ↦ k.anonymous.same f.1) :=
      Success.rel_find? ((haveRelisted_iff es fs).mp h) fun e f hef ↦ by
        rw [← same_anonymous k f.1, hef.1, same_anonymous]
    rw [anonymousEntries, endlessEntries, endlessEntries, endlessEntries_of_haveRelisted us h]
    revert found
    generalize (es.find? fun e ↦ k.anonymous.same e.1) = before
    generalize (fs.find? fun f ↦ k.anonymous.same f.1) = after
    rintro (⟨-, value⟩ | -)
    · dsimp only
      rw [endless_of_isRelisted u value, same_of_isRelisted u value]
    · rfl
termination_by structural us

end

end Value

end EntityGraph
