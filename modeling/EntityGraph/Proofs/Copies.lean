import EntityGraph.Proofs.Parts
import EntityGraph.Proofs.Success
import EntityGraph.Schema.Compile

/-!
# Copied defaults

Whether a value can be copied depends on the foreign objects in it and on no host, and two hosts
that copy these to like objects make one copy of it. What all parts of a value have, all parts of
its copy have, if foreign objects and collections have it in any case.
-/

namespace EntityGraph

namespace Value

/-! ### Parts of copies -/

private theorem copyItems_eq_mapM (copier : Copier) (vs : List Value) :
    copyItems copier vs = vs.mapM (deepCopy copier) := by
  induction vs with
  | nil => rfl
  | cons v vs ih => rw [copyItems, List.mapM_cons, ih]

/-- The copies of members are those of each of them. -/
theorem copyItems_eq_ok (copier : Copier) (vs ws : List Value) :
    copyItems copier vs = .ok ws ↔ List.Forall₂ (fun v w ↦ v.deepCopy copier = .ok w) vs ws := by
  rw [copyItems_eq_mapM, Success.mapM_eq_ok]

/-- The copies of entries are those of their keys and of their values. -/
theorem copyEntries_eq_ok (copier : Copier) (es fs : List (Value × Value)) :
    copyEntries copier es = .ok fs ↔ List.Forall₂
      (fun e f ↦ e.1.deepCopy copier = .ok f.1 ∧ e.2.deepCopy copier = .ok f.2) es fs := by
  induction es generalizing fs with
  | nil => simp [copyEntries, eq_comm]
  | cons e es ih =>
    obtain ⟨k, v⟩ := e
    rw [copyEntries, List.forall₂_cons_left_iff]
    simp only [Success.bind_eq_ok, pure, Except.pure, Except.ok.injEq]
    constructor
    · rintro ⟨w, hw, l, hl, rest, hrest, rfl⟩
      exact ⟨(l, w), rest, ⟨hl, hw⟩, (ih rest).mp hrest, rfl⟩
    · rintro ⟨⟨l, w⟩, rest, ⟨hl, hw⟩, hrest, rfl⟩
      exact ⟨w, hw, l, hl, rest, (ih rest).mpr hrest, rfl⟩

/-- The members of a sequence in the order in which its copy lists them. -/
def arranged (kind : SeqKind) (vs : List Value) : List Value :=
  match kind with
  | .list | .tuple => vs
  | .set | .frozenset => setOrder 0 vs

/-- The copy of a sequence lists the copies of all members. -/
theorem arranged_perm (kind : SeqKind) (vs : List Value) : (arranged kind vs).Perm vs := by
  cases kind with
  | list | tuple => exact .refl vs
  | set | frozenset => exact setOrder_perm 0 vs

/-- The copy of a sequence has the copies of its members. -/
theorem deepCopy_seq_eq_ok (copier : Copier) (id : Identity) (kind : SeqKind) (vs : List Value)
    (w : Value) : (Value.seq id kind vs).deepCopy copier = .ok w ↔
      ∃ us, copyItems copier vs = .ok us ∧ .seq id.copied kind (arranged kind us) = w := by
  rw [deepCopy, Success.bind_eq_ok]
  cases kind <;> simp [arranged, pure, Except.pure]

section Parts

variable {P : Value → Prop} {copier : Copier}

mutual

/-- What every part of a value has, and every foreign object and every collection, every part of a
copy has. -/
theorem every_of_deepCopy (foreign : ∀ id f, P (.atom id (.foreign f)))
    (collections : ∀ v : Value, v.isAtom = false → P v) {v w : Value} (h : v.Every P)
    (hw : v.deepCopy copier = .ok w) : w.Every P := by
  cases v with
  | atom id a =>
    cases a with
    | foreign f =>
      simp only [deepCopy, Foreign.copy] at hw
      split at hw <;> cases hw <;> exact foreign _ _
    | _ =>
      obtain rfl := Except.ok.inj hw
      exact h
  | seq id kind items =>
    obtain ⟨us, hus, rfl⟩ := (deepCopy_seq_eq_ok ..).mp hw
    have members := everyMember_of_copyItems foreign collections h.2 hus
    exact ⟨collections _ rfl, (everyMember_iff _).mpr fun w hw ↦
      members w ((arranged_perm kind us).mem_iff.mp hw)⟩
  | dict id entries =>
    obtain ⟨fs, hfs, hw⟩ := (Success.bind_eq_ok _ _ _).mp hw
    obtain rfl := Except.ok.inj hw
    exact ⟨collections _ rfl, everyEntry_of_copyEntries foreign collections h.2 hfs⟩
  | loop id kind =>
    obtain rfl := Except.ok.inj hw
    exact collections _ rfl
termination_by structural v

private theorem everyMember_of_copyItems (foreign : ∀ id f, P (.atom id (.foreign f)))
    (collections : ∀ v : Value, v.isAtom = false → P v) {vs ws : List Value}
    (h : EveryMember P vs) (hws : copyItems copier vs = .ok ws) : ∀ w ∈ ws, w.Every P := by
  cases vs with
  | nil =>
    obtain rfl := Except.ok.inj hws
    exact List.forall_mem_nil _
  | cons v vs =>
    obtain ⟨w, hw, hws⟩ := (Success.bind_eq_ok _ _ _).mp hws
    obtain ⟨ws, hws', hws⟩ := (Success.bind_eq_ok _ _ _).mp hws
    obtain rfl := Except.ok.inj hws
    exact List.forall_mem_cons.mpr ⟨every_of_deepCopy foreign collections h.1 hw,
      everyMember_of_copyItems foreign collections h.2 hws'⟩
termination_by structural vs

private theorem everyEntry_of_copyEntries (foreign : ∀ id f, P (.atom id (.foreign f)))
    (collections : ∀ v : Value, v.isAtom = false → P v) {es fs : List (Value × Value)}
    (h : EveryEntry P es) (hfs : copyEntries copier es = .ok fs) : EveryEntry P fs := by
  cases es with
  | nil =>
    obtain rfl := Except.ok.inj hfs
    trivial
  | cons e es =>
    obtain ⟨w, hw, hfs⟩ := (Success.bind_eq_ok _ _ _).mp hfs
    obtain ⟨l, hl, hfs⟩ := (Success.bind_eq_ok _ _ _).mp hfs
    obtain ⟨fs, hfs', hfs⟩ := (Success.bind_eq_ok _ _ _).mp hfs
    obtain rfl := Except.ok.inj hfs
    exact ⟨⟨every_of_deepCopy foreign collections h.1.1 hl,
      every_of_deepCopy foreign collections h.1.2 hw⟩,
      everyEntry_of_copyEntries foreign collections h.2 hfs'⟩
termination_by structural es

end

end Parts

/-! ### Values that can be copied -/

/-- A part of a value does not refuse to be copied. -/
def AllowsCopy : Value → Prop
  | .atom _ (.foreign f) => ∀ m, f.copying ≠ .refused m
  | _ => True

/-- Collections do not refuse. -/
theorem allowsCopy_of_isAtom_eq_false (v : Value) (h : v.isAtom = false) : AllowsCopy v := by
  cases v with
  | atom => cases h
  | _ => trivial

/-- A value that can be copied: no object in it refuses. -/
def IsCopyable (v : Value) : Prop := v.Every AllowsCopy

mutual

private theorem exists_deepCopy {v : Value} (h : v.IsCopyable) (copier : Copier) :
    ∃ w, v.deepCopy copier = .ok w := by
  cases v with
  | atom id a =>
    cases a with
    | foreign f =>
      have allowed : ∀ m, f.copying ≠ .refused m := h
      simp only [deepCopy, Foreign.copy]
      cases hf : f.copying with
      | refused m => exact absurd hf (allowed m)
      | _ => exact ⟨_, rfl⟩
    | _ => exact ⟨_, rfl⟩
  | seq id kind items =>
    obtain ⟨ws, hws⟩ := exists_copyItems h.2 copier
    rw [deepCopy, hws]
    cases kind <;> exact ⟨_, rfl⟩
  | dict id entries =>
    obtain ⟨fs, hfs⟩ := exists_copyEntries h.2 copier
    exact ⟨_, by rw [deepCopy, hfs]; rfl⟩
  | loop id kind => exact ⟨_, rfl⟩

private theorem exists_copyItems {vs : List Value} (h : EveryMember AllowsCopy vs)
    (copier : Copier) : ∃ ws, copyItems copier vs = .ok ws := by
  cases vs with
  | nil => exact ⟨[], rfl⟩
  | cons v vs =>
    obtain ⟨w, hw⟩ := exists_deepCopy h.1 copier
    obtain ⟨ws, hws⟩ := exists_copyItems h.2 copier
    exact ⟨w :: ws, by rw [copyItems, hw, hws]; rfl⟩

private theorem exists_copyEntries {es : List (Value × Value)} (h : EveryEntry AllowsCopy es)
    (copier : Copier) : ∃ fs, copyEntries copier es = .ok fs := by
  cases es with
  | nil => exact ⟨[], rfl⟩
  | cons e es =>
    obtain ⟨k, v⟩ := e
    obtain ⟨l, hl⟩ := exists_deepCopy h.1.1 copier
    obtain ⟨w, hw⟩ := exists_deepCopy h.1.2 copier
    obtain ⟨fs, hfs⟩ := exists_copyEntries h.2 copier
    exact ⟨(l, w) :: fs, by rw [copyEntries, hw, hl, hfs]; rfl⟩

end

mutual

private theorem isCopyable_of_deepCopy {copier : Copier} {v w : Value}
    (h : v.deepCopy copier = .ok w) : v.IsCopyable := by
  cases v with
  | atom id a =>
    cases a with
    | foreign f =>
      intro m hm
      simp only [deepCopy, Foreign.copy, hm] at h
      cases h
    | _ => trivial
  | seq id kind items =>
    obtain ⟨ws, hws, -⟩ := (Success.bind_eq_ok _ _ _).mp h
    exact ⟨trivial, isCopyable_of_copyItems hws⟩
  | dict id entries =>
    obtain ⟨fs, hfs, -⟩ := (Success.bind_eq_ok _ _ _).mp h
    exact ⟨trivial, isCopyable_of_copyEntries hfs⟩
  | loop id kind => trivial
termination_by structural v

private theorem isCopyable_of_copyItems {copier : Copier} {vs ws : List Value}
    (h : copyItems copier vs = .ok ws) : EveryMember AllowsCopy vs := by
  cases vs with
  | nil => trivial
  | cons v vs =>
    obtain ⟨w, hw, h⟩ := (Success.bind_eq_ok _ _ _).mp h
    obtain ⟨ws, hws, -⟩ := (Success.bind_eq_ok _ _ _).mp h
    exact ⟨isCopyable_of_deepCopy hw, isCopyable_of_copyItems hws⟩
termination_by structural vs

private theorem isCopyable_of_copyEntries {copier : Copier} {es fs : List (Value × Value)}
    (h : copyEntries copier es = .ok fs) : EveryEntry AllowsCopy es := by
  cases es with
  | nil => trivial
  | cons e es =>
    obtain ⟨w, hw, h⟩ := (Success.bind_eq_ok _ _ _).mp h
    obtain ⟨l, hl, h⟩ := (Success.bind_eq_ok _ _ _).mp h
    obtain ⟨fs, hfs, -⟩ := (Success.bind_eq_ok _ _ _).mp h
    exact ⟨⟨isCopyable_of_deepCopy hl, isCopyable_of_deepCopy hw⟩, isCopyable_of_copyEntries hfs⟩
termination_by structural es

end

/-- A value has a copy exactly if it can be copied, whatever foreign objects are copied to. -/
theorem exists_deepCopy_iff (copier : Copier) (v : Value) :
    (∃ w, v.deepCopy copier = .ok w) ↔ v.IsCopyable :=
  ⟨fun ⟨_, hw⟩ ↦ isCopyable_of_deepCopy hw, fun h ↦ exists_deepCopy h copier⟩

/-! ### Copiers -/

/-- A part of a value is copied to like objects by two copiers. -/
def CopiesAlike (copier copier' : Copier) : Value → Prop
  | .atom id (.foreign f) => f.copying = .anew → copier id f = copier' id f
  | _ => True

/-- Collections are copied alike. -/
theorem copiesAlike_of_isAtom_eq_false (copier copier' : Copier) (v : Value)
    (h : v.isAtom = false) : CopiesAlike copier copier' v := by
  cases v with
  | atom => cases h
  | _ => trivial

private theorem copiesAlike_self (copier : Copier) (v : Value) : CopiesAlike copier copier v := by
  cases v with
  | atom id a => cases a <;> simp [CopiesAlike]
  | _ => trivial

private theorem CopiesAlike.symm {copier copier' : Copier} {v : Value}
    (h : CopiesAlike copier copier' v) :
    CopiesAlike copier' copier v := by
  cases v with
  | atom id a =>
    cases a with
    | foreign f => exact fun hf ↦ (h hf).symm
    | _ => trivial
  | _ => trivial

section Copiers

variable {copier copier' : Copier}

mutual

/-- Copiers that agree on the objects in a value make one copy of it. -/
theorem deepCopy_congr {v : Value} (h : v.Every (CopiesAlike copier copier')) :
    v.deepCopy copier = v.deepCopy copier' := by
  cases v with
  | atom id a =>
    cases a with
    | foreign f =>
      have alike : f.copying = .anew → copier id f = copier' id f := h
      simp only [deepCopy, Foreign.copy]
      cases hf : f.copying with
      | anew => rw [alike hf]
      | _ => rfl
    | _ => rfl
  | seq id kind items => rw [deepCopy, deepCopy, copyItems_congr h.2]
  | dict id entries => rw [deepCopy, deepCopy, copyEntries_congr h.2]
  | loop id kind => rfl

private theorem copyItems_congr {vs : List Value}
    (h : EveryMember (CopiesAlike copier copier') vs) :
    copyItems copier vs = copyItems copier' vs := by
  cases vs with
  | nil => rfl
  | cons v vs => rw [copyItems, copyItems, deepCopy_congr h.1, copyItems_congr h.2]

private theorem copyEntries_congr {es : List (Value × Value)}
    (h : EveryEntry (CopiesAlike copier copier') es) :
    copyEntries copier es = copyEntries copier' es := by
  cases es with
  | nil => rfl
  | cons e es =>
    rw [copyEntries, copyEntries, deepCopy_congr h.1.1, deepCopy_congr h.1.2,
      copyEntries_congr h.2]

end

end Copiers

end Value

/-! ### Defaults -/

namespace AttributeDecl

/-- The default of an attribute is copied, if its type is opaque. -/
def IsCopied (a : AttributeDecl) : Prop := a.type.isOpaque = true → a.default.IsCopyable

/-- The default that an attribute of an entity has on a host; the declared one where that cannot be
copied. -/
def copied (host : Host) (entity : Value) (a : AttributeDecl) : Value :=
  (a.copyDefault host entity).toOption.getD a.default

variable {host host' : Host} {entity : Value} {a : AttributeDecl}

/-- A default of a type that is not opaque stays as it is. -/
theorem copied_of_typed (typed : a.type.isOpaque = false) : a.copied host entity = a.default := by
  rw [copied, copyDefault, if_neg (by simp [typed])]
  rfl

/-- A default is copied if it can be. -/
theorem copyDefault_eq_ok (d : Value) :
    a.copyDefault host entity = .ok d ↔ a.IsCopied ∧ a.copied host entity = d := by
  have copies : (∃ d, a.copyDefault host entity = .ok d) ↔ a.IsCopied := by
    rw [copyDefault, IsCopied]
    split
    · next isOpaque => rw [Value.exists_deepCopy_iff, imp_iff_right isOpaque]
    · next typed => simp [typed]
  rw [← copies, copied]
  cases a.copyDefault host entity with
  | ok c => simp [Except.toOption]
  | error f => simp

/-- Hosts that agree on the objects in a default make one copy of it. -/
theorem copyDefault_congr
    (h : a.default.Every
      (Value.CopiesAlike (host.copier entity a.name) (host'.copier entity a.name))) :
    a.copyDefault host entity = a.copyDefault host' entity := by
  rw [copyDefault, copyDefault, Value.deepCopy_congr h]

end AttributeDecl

/-- Two hosts copy the foreign objects in the defaults of some entities to like objects. -/
def Host.CopiesAlike (host host' : Host) (entities : List EntityDecl) : Prop :=
  ∀ e ∈ entities, ∀ a ∈ e.attributes, a.default.Every
    (Value.CopiesAlike (host.copier e.name a.name) (host'.copier e.name a.name))

namespace Host.CopiesAlike

/-- A host copies objects like itself. -/
theorem refl (host : Host) (entities : List EntityDecl) : host.CopiesAlike host entities :=
  fun _ _ a _ ↦ Value.every_of_forall (Value.copiesAlike_self _) a.default

variable {host host' : Host} {entities : List EntityDecl} (h : host.CopiesAlike host' entities)

include h

/-- Copying objects alike has no direction. -/
theorem symm : host'.CopiesAlike host entities :=
  fun e he a ha ↦ (h e he a ha).mono fun _ ↦ Value.CopiesAlike.symm

/-- Hosts that copy objects alike give attributes the same defaults. -/
theorem copied {e : EntityDecl} (he : e ∈ entities) {a : AttributeDecl} (ha : a ∈ e.attributes) :
    a.copied host e.name = a.copied host' e.name := by
  rw [AttributeDecl.copied, AttributeDecl.copied, AttributeDecl.copyDefault_congr (h e he a ha)]

end Host.CopiesAlike

end EntityGraph
