import EntityGraph.Proofs.Coherence
import EntityGraph.Proofs.Reordering
import EntityGraph.Proofs.Substitution

/-!
# Mappings built in other orders

A mapping that is a default may be built in any order: as long as no two of its keys become one
text, its canonical form keeps every entry, the forms are equal, and the schema has one fingerprint.
-/

namespace EntityGraph

open Json

/-! ### Copies of reordered values -/

namespace Value

mutual

/-- What all collections are, and all parts of a value, all parts of what it is reordered to are. -/
theorem IsReordered.every {P : Value → Prop} (collections : ∀ v : Value, v.isAtom = false → P v)
    {v w : Value} (h : v.IsReordered w) (hv : v.Every P) : w.Every P := by
  cases v with
  | atom id a =>
    rw [IsReordered] at h
    exact h ▸ hv
  | seq id kind vs =>
    cases kind with
    | list | tuple =>
      obtain ⟨j, ws, rfl, members⟩ := h
      exact ⟨collections _ rfl, AreReordered.every collections members hv.2⟩
    | set | frozenset =>
      obtain rfl := h
      exact hv
  | dict id es =>
    obtain ⟨j, fs, gs, rfl, values, order⟩ := h
    have entries := (everyEntry_iff fs).mp (HaveReordered.every collections values hv.2)
    refine ⟨collections _ rfl, (everyEntry_iff gs).mpr fun e he ↦ entries e ?_⟩
    rcases order with rfl | ⟨-, perm⟩
    · exact he
    · exact perm.mem_iff.mp he
  | loop id kind =>
    rw [IsReordered] at h
    exact h ▸ hv
termination_by structural v

private theorem AreReordered.every {P : Value → Prop}
    (collections : ∀ v : Value, v.isAtom = false → P v) {vs ws : List Value}
    (h : AreReordered vs ws) (hvs : EveryMember P vs) : EveryMember P ws := by
  cases vs with
  | nil =>
    obtain rfl := h
    trivial
  | cons v vs =>
    obtain ⟨w, rest, rfl, hw, hrest⟩ := h
    exact ⟨hw.every collections hvs.1, AreReordered.every collections hrest hvs.2⟩
termination_by structural vs

private theorem HaveReordered.every {P : Value → Prop}
    (collections : ∀ v : Value, v.isAtom = false → P v) {es fs : List (Value × Value)}
    (h : HaveReordered es fs) (hes : EveryEntry P es) : EveryEntry P fs := by
  cases es with
  | nil =>
    obtain rfl := h
    trivial
  | cons e es =>
    obtain ⟨k, v⟩ := e
    obtain ⟨w, rest, rfl, hw, hrest⟩ := h
    exact ⟨⟨hes.1.1, hw.every collections hes.1.2⟩, HaveReordered.every collections hrest hes.2⟩
termination_by structural es

end

/-- The keys of a mapping that become distinct texts still do when they are copied. -/
def StaysApart (copier : Copier) : Value → Prop
  | .dict _ es => KeysApart es → ∀ fs, copyEntries copier es = .ok fs → KeysApart fs
  | _ => True

section Copies

variable {copier copier' : Copier}

mutual

/-- The copy of a value is reordered as the value is. -/
theorem IsReordered.exists_deepCopy {v w c : Value} (h : v.IsReordered w)
    (alike : v.Every (CopiesAlike copier copier')) (apart : v.Every (StaysApart copier))
    (hc : v.deepCopy copier = .ok c) : ∃ d, w.deepCopy copier' = .ok d ∧ c.IsReordered d := by
  cases v with
  | atom id a =>
    rw [IsReordered] at h
    exact ⟨c, by rw [h, ← deepCopy_congr alike, hc], .refl c⟩
  | seq id kind vs =>
    cases kind with
    | list | tuple =>
      obtain ⟨j, ws, rfl, members⟩ := h
      obtain ⟨cs, hcs, rfl⟩ := (deepCopy_seq_eq_ok ..).mp hc
      obtain ⟨ds, hds, hcds⟩ := members.exists_copyItems alike.2 apart.2 hcs
      exact ⟨_, (deepCopy_seq_eq_ok ..).mpr ⟨ds, hds, rfl⟩, _, ds, rfl, hcds⟩
    | set | frozenset =>
      obtain rfl := h
      exact ⟨c, by rw [← deepCopy_congr alike, hc], .refl c⟩
  | dict id es =>
    obtain ⟨j, fs, gs, rfl, values, order⟩ := h
    obtain ⟨cs, hcs, hc⟩ := (Success.bind_eq_ok _ _ _).mp hc
    obtain rfl := Except.ok.inj hc
    obtain ⟨ds, hds, hcds⟩ := values.exists_copyEntries alike.2 apart.2 hcs
    rcases order with rfl | ⟨distinct, perm⟩
    · exact ⟨.dict j.copied ds, by rw [deepCopy, hds]; rfl, _, ds, ds, rfl, hcds, .inl rfl⟩
    · obtain ⟨ls, hls, perm⟩ := List.perm_comp_forall₂ perm ((copyEntries_eq_ok _ _ _).mp hds)
      have copied := (copyEntries_eq_ok _ _ _).mpr hls
      exact ⟨.dict j.copied ls, by rw [deepCopy, copied]; rfl, _, ds, ls, rfl, hcds,
        .inr ⟨apart.1 distinct cs hcs, perm⟩⟩
  | loop id kind =>
    rw [IsReordered] at h
    exact ⟨c, by rw [h, ← deepCopy_congr alike, hc], .refl c⟩
termination_by structural v

private theorem AreReordered.exists_copyItems {vs ws cs : List Value} (h : AreReordered vs ws)
    (alike : EveryMember (CopiesAlike copier copier') vs)
    (apart : EveryMember (StaysApart copier) vs) (hcs : copyItems copier vs = .ok cs) :
    ∃ ds, copyItems copier' ws = .ok ds ∧ AreReordered cs ds := by
  cases vs with
  | nil =>
    obtain rfl := h
    obtain rfl := Except.ok.inj hcs
    exact ⟨[], rfl, rfl⟩
  | cons v vs =>
    obtain ⟨w, rest, rfl, hw, hrest⟩ := h
    obtain ⟨c, hc, hcs⟩ := (Success.bind_eq_ok _ _ _).mp hcs
    obtain ⟨cs, hcs', hcs⟩ := (Success.bind_eq_ok _ _ _).mp hcs
    obtain rfl := Except.ok.inj hcs
    obtain ⟨d, hd, hcd⟩ := hw.exists_deepCopy alike.1 apart.1 hc
    obtain ⟨ds, hds, hcds⟩ := hrest.exists_copyItems alike.2 apart.2 hcs'
    exact ⟨d :: ds, by rw [copyItems, hd, hds]; rfl, d, ds, rfl, hcd, hcds⟩
termination_by structural vs

private theorem HaveReordered.exists_copyEntries {es fs cs : List (Value × Value)}
    (h : HaveReordered es fs) (alike : EveryEntry (CopiesAlike copier copier') es)
    (apart : EveryEntry (StaysApart copier) es) (hcs : copyEntries copier es = .ok cs) :
    ∃ ds, copyEntries copier' fs = .ok ds ∧ HaveReordered cs ds := by
  cases es with
  | nil =>
    obtain rfl := h
    obtain rfl := Except.ok.inj hcs
    exact ⟨[], rfl, rfl⟩
  | cons e es =>
    obtain ⟨k, v⟩ := e
    obtain ⟨w, rest, rfl, hw, hrest⟩ := h
    obtain ⟨c, hc, hcs⟩ := (Success.bind_eq_ok _ _ _).mp hcs
    obtain ⟨key, hkey, hcs⟩ := (Success.bind_eq_ok _ _ _).mp hcs
    obtain ⟨cs, hcs', hcs⟩ := (Success.bind_eq_ok _ _ _).mp hcs
    obtain rfl := Except.ok.inj hcs
    obtain ⟨d, hd, hcd⟩ := hw.exists_deepCopy alike.1.2 apart.1.2 hc
    obtain ⟨ds, hds, hcds⟩ := hrest.exists_copyEntries alike.2 apart.2 hcs'
    rw [deepCopy_congr alike.1.1] at hkey
    exact ⟨(key, d) :: ds, by rw [copyEntries, hd, hkey, hds]; rfl, d, ds, rfl, hcd, hcds⟩
termination_by structural es

end

private theorem IsReordered.exists_deepCopy_left {v w d : Value} (h : v.IsReordered w)
    (alike : v.Every (CopiesAlike copier copier')) (apart : v.Every (StaysApart copier))
    (hd : w.deepCopy copier' = .ok d) : ∃ c, v.deepCopy copier = .ok c ∧ c.IsReordered d := by
  have copyable : w.IsCopyable := (exists_deepCopy_iff copier' w).mp ⟨d, hd⟩
  obtain ⟨c, hc⟩ := (exists_deepCopy_iff copier v).mpr
    (h.symm.every allowsCopy_of_isAtom_eq_false copyable)
  obtain ⟨d', hd', hcd⟩ := h.exists_deepCopy alike apart hc
  obtain rfl := Except.ok.inj (hd.symm.trans hd')
  exact ⟨c, hc, hcd⟩

end Copies

private theorem IsReordered.followedBy {v w : Value} (h : v.IsReordered w) :
    FollowedBy v.canonical w.canonical := by
  cases hf : v.canonical with
  | error f => exact .apart trivial _
  | ok f =>
    obtain ⟨g, hg, reordered⟩ := h.exists_canonical hf
    rw [hg]
    exact .ok fun level t ht ↦
      (reordered.write_eq (every_isShaped_of_canonical hf) rfl level).trans ht

end Value

/-! ### Schemas -/

/-- An attribute is another one, or it has an opaque default in the place of another default. -/
inductive AttributeDecl.IsRebuilt (v w : Value) (a b : AttributeDecl) : Prop
  | kept (h : b = a)
  | rebuilt (hidden : a.type.isOpaque = true) (before : a.default = v) (after : b.default = w)
    (name : b.name = a.name) (type : b.type = a.type) (isOptional : b.isOptional = a.isOptional)
    (externalStorage : b.externalStorage = a.externalStorage)
    (preservedOnDelete : b.preservedOnDelete = a.preservedOnDelete)

/-- An entity is declared as another one is, but for a default in the place of another default. -/
structure EntityDecl.IsRebuilt (v w : Value) (e f : EntityDecl) : Prop where
  name : f.name = e.name
  isAbstract : f.isAbstract = e.isAbstract
  boundType : f.boundType = e.boundType
  relationships : f.relationships = e.relationships
  unique : f.unique = e.unique
  attributes : List.Forall₂ (AttributeDecl.IsRebuilt v w) e.attributes f.attributes

section Rebuilding

variable {v w : Value}

private theorem AttributeDecl.IsRebuilt.symm {a b : AttributeDecl} (h : a.IsRebuilt v w b) :
    b.IsRebuilt w v a := by
  cases h with
  | kept h => exact .kept h.symm
  | rebuilt hidden before after name type isOptional externalStorage preservedOnDelete =>
    exact .rebuilt (type ▸ hidden) after before name.symm type.symm isOptional.symm
      externalStorage.symm preservedOnDelete.symm

private theorem EntityDecl.IsRebuilt.symm {e f : EntityDecl} (h : e.IsRebuilt v w f) :
    f.IsRebuilt w v e :=
  ⟨h.name.symm, h.isAbstract.symm, h.boundType.symm, h.relationships.symm, h.unique.symm,
    h.attributes.flip.imp fun _ _ hab ↦ hab.symm⟩

/-- A host keeps the keys in a value apart wherever it copies the value as a default. -/
def Host.KeepsApart (host : Host) (v : Value) : Prop :=
  ∀ entity attr, v.Every (Value.StaysApart (host.copier entity attr))

variable {host host' : Host} {entity : Value}

private theorem AttributeDecl.resembles_self {a : AttributeDecl} (alike : a.default.Every
      (Value.CopiesAlike (host.copier entity a.name) (host'.copier entity a.name))) :
    Resembles host host' entity a a :=
  ⟨rfl, rfl, rfl, rfl, rfl, fun c hc ↦ ⟨c, by rw [← copyDefault_congr alike, hc], .refl _⟩⟩

/-- Where the copy of a default is followed by that of another, entities with the other in its place
compile to a schema of the same fingerprint. -/
private theorem Schema.exists_compile_of_isRebuilt {config : CompilerConfig}
    {es fs : List EntityDecl} (alike : host.CopiesAlike host' es)
    (follows : ∀ e ∈ es, ∀ a ∈ e.attributes, a.default = v → ∀ c,
      v.deepCopy (host.copier e.name a.name) = .ok c →
        ∃ d, w.deepCopy (host'.copier e.name a.name) = .ok d ∧ FollowedBy c.canonical d.canonical)
    (h : List.Forall₂ (EntityDecl.IsRebuilt v w) es fs) {name version : Value} {s : Schema}
    (hs : (compile host config es name version).result = .ok s) :
    ∃ t, (compile host' config fs name version).result = .ok t ∧
      t.fingerprint = s.fingerprint := by
  have attributes : ∀ e ∈ es, ∀ a ∈ e.attributes, ∀ b, a.IsRebuilt v w b →
      AttributeDecl.Resembles host host' e.name a b := by
    intro e he a ha b hab
    cases hab with
    | kept h =>
      rw [h]
      exact AttributeDecl.resembles_self (alike e he a ha)
    | rebuilt hidden before after name type isOptional externalStorage preservedOnDelete =>
      refine ⟨name, type, isOptional, externalStorage, preservedOnDelete, fun c hc ↦ ?_⟩
      rw [AttributeDecl.copyDefault, if_pos hidden, before] at hc
      have view : a.type.viewOf = Value.canonical := funext fun _ ↦ if_pos hidden
      rw [AttributeDecl.copyDefault, type, if_pos hidden, name, after, view]
      exact follows e he a ha before c hc
  refine exists_compile_of_resembles (((List.forall₂_and_left _ _).mpr ⟨fun _ he ↦ he, h⟩).imp
    fun e f hef ↦ ?_) hs
  obtain ⟨he, hef⟩ := hef
  exact ⟨hef.name, hef.isAbstract, hef.boundType, hef.relationships, hef.unique,
    ((List.forall₂_and_left _ _).mpr ⟨fun _ ha ↦ ha, hef.attributes⟩).imp
      fun a b hab ↦ attributes e he a hab.1 b hab.2⟩

private theorem Host.CopiesAlike.isRebuilt {es fs : List EntityDecl}
    (alike : host.CopiesAlike host' es)
    (reordered : v.IsReordered w) (h : List.Forall₂ (EntityDecl.IsRebuilt v w) es fs) :
    host.CopiesAlike host' fs := by
  intro f hf b hb
  obtain ⟨e, he, hef⟩ := Success.exists_of_forall₂ h.flip hf
  obtain ⟨a, ha, hab⟩ := Success.exists_of_forall₂ hef.attributes.flip hb
  rw [hef.name]
  cases hab with
  | kept h => exact h ▸ alike e he a ha
  | rebuilt hidden before after name =>
    rw [name, after]
    exact reordered.every (Value.copiesAlike_of_isAtom_eq_false _ _) (before ▸ alike e he a ha)

end Rebuilding

namespace Value

/-- The canonical form of a mapping has as many entries as the mapping exactly if no two keys become
one text. Where that is so, the canonical form of the mapping with its entries in another order, and
with those of mappings in it in other orders, is equal. As defaults the two are copied, and as long
as the copies of their keys stay apart and objects are copied alike, each of the two gives a schema
the same fingerprint. -/
theorem exists_canonical_dict_of_isReordered {id : Identity} {es : List (Value × Value)}
    (told : (Value.dict id es).Every IsTellable) (known : (Value.dict id es).Every IsTraceable) :
    ∃ fs, (Value.dict id es).canonical = .ok (.dict .fresh fs) ∧
      (fs.length = es.length ↔ KeysApart es) ∧
      ∀ w, (Value.dict id es).IsReordered w →
        (∃ g, w.canonical = .ok g ∧ (Value.dict .fresh fs).endless g = false ∧
          (Value.dict .fresh fs).equals g = true) ∧
        ∀ (host host' : Host) (config : CompilerConfig) entities entities' name version t,
          List.Forall₂ (EntityDecl.IsRebuilt (.dict id es) w) entities entities' →
          host.KeepsApart (.dict id es) → host.CopiesAlike host' entities →
            ((∃ s, (Schema.compile host config entities name version).result = .ok s ∧
                s.fingerprint = t) ↔
              ∃ s, (Schema.compile host' config entities' name version).result = .ok s ∧
                s.fingerprint = t) := by
  obtain ⟨fs, hfs, size⟩ := exists_canonical_dict told
  obtain ⟨f, hf, form⟩ := exists_canonical told
  obtain rfl : f = .dict .fresh fs := Except.ok.inj (hf.symm.trans hfs)
  have knownForm := every_of_canonical (P := IsTraceable) (fun _ ↦ trivial) (fun _ ↦ trivial)
    (fun _ ↦ trivial) known hfs
  refine ⟨fs, hfs, size, fun w hw ↦ ?_⟩
  obtain ⟨g, hg, reordered⟩ := hw.exists_canonical hfs
  refine ⟨⟨g, hg, form.endless_eq_false g, reordered.same form knownForm⟩, ?_⟩
  intro host host' config entities entities' name version t h apart alike
  have copiesAlike : ∀ e ∈ entities, ∀ a ∈ e.attributes, a.default = .dict id es →
      (Value.dict id es).Every
        (CopiesAlike (host.copier e.name a.name) (host'.copier e.name a.name)) :=
    fun e he a ha same ↦ same ▸ alike e he a ha
  constructor
  · rintro ⟨s, hs, rfl⟩
    refine Schema.exists_compile_of_isRebuilt alike (fun e he a ha same c hc ↦ ?_) h hs
    obtain ⟨d, hd, hcd⟩ := hw.exists_deepCopy (copiesAlike e he a ha same) (apart _ _) hc
    exact ⟨d, hd, hcd.followedBy⟩
  · rintro ⟨s, hs, rfl⟩
    have h' := h.flip.imp fun _ _ hef ↦ hef.symm
    have alike' := alike.isRebuilt hw h
    refine Schema.exists_compile_of_isRebuilt alike'.symm (fun f hf b hb same d hd ↦ ?_) h' hs
    have parts : w.Every (CopiesAlike (host.copier f.name b.name) (host'.copier f.name b.name)) :=
      same ▸ alike' f hf b hb
    obtain ⟨c, hc, hcd⟩ := hw.exists_deepCopy_left
      (hw.symm.every (copiesAlike_of_isAtom_eq_false _ _) parts) (apart _ _) hd
    exact ⟨c, hc, hcd.symm.followedBy⟩

end Value

/-! ### An example -/

namespace Blobs

/-- What a blob holds by default: a text under a number and a text under a text. -/
def entries (key : String) : List (Value × Value) := [(.int 1, .text "a"), (.text key, .text "b")]

/-- The data of a blob, by default a value of any kind. -/
def data (default : Value) : AttributeDecl :=
  { name := .text "data"
    type := .transformable
    isOptional := true
    default
    externalStorage := false
    preservedOnDelete := false
    named := by decide
    typed := ScalarType.checkDefault_transformable _ _ }

/-- Blobs, which hold a value of any kind by default. -/
def blob (default : Value) : EntityDecl :=
  { name := .text "Blob"
    attributes := [data default]
    relationships := []
    isAbstract := false
    boundType := .null
    unique := []
    named := by decide
    distinct := by refine ⟨?_, ?_⟩ <;> simp [propertyNames, data] }

/-- The number one can be told. -/
theorem inspect_one : (Value.int 1).inspect = .ok "1" := by
  have short : Number.Integer.isTooLong 1 = false := Number.Integer.isTooLong_of_le_one le_rfl
  have shown : (Value.int 1).inspect = intText 1 := rfl
  rw [shown, intText, short]
  decide

/-- As a key, the number one becomes a text that names its type. -/
theorem canonicalKey_one : (Value.int 1).canonicalKey = .ok "int:1" := by
  have key : (Value.int 1).canonicalKey =
      (Value.int 1).inspect.map fun shown ↦ (Value.int 1).typeName ++ ":" ++ shown := rfl
  rw [key, inspect_one]
  decide

/-- All that a blob holds by default can be told. -/
theorem every_isTellable (key : String) :
    (Value.dict .fresh (entries key)).Every Value.IsTellable :=
  ⟨trivial, ⟨⟨_, inspect_one⟩, ⟨_, rfl⟩⟩, ⟨⟨_, rfl⟩, ⟨_, rfl⟩⟩, trivial⟩

/-- No number that is none is in what a blob holds by default. -/
theorem every_isTraceable (key : String) :
    (Value.dict .fresh (entries key)).Every Value.IsTraceable :=
  ⟨trivial, ⟨trivial, trivial⟩, ⟨trivial, trivial⟩, trivial⟩

private theorem keysApart_iff (key : String) : Value.KeysApart (entries key) ↔ key ≠ "int:1" := by
  have second : (Value.text key).canonicalKey = .ok key := rfl
  simp [Value.KeysApart, entries, canonicalKey_one, second, eq_comm]

/-- Blobs are textual. -/
theorem isTextual (v : Value) : ∀ e ∈ [blob v], e.IsTextual :=
  List.forall_mem_singleton.mpr ⟨⟨⟨_, rfl⟩, by simp [blob, data, Value.IsText], by simp [blob],
    by simp [blob]⟩, .inl rfl⟩

/-- What blobs hold by default can be copied and written, if a copy of it can be told. -/
theorem isPortable {host : Host} {v c : Value}
    (copied : v.deepCopy (host.copier (.text "Blob") (.text "data")) = .ok c)
    (told : c.Every Value.IsTellable) : (data v).IsPortable host (.text "Blob") := by
  obtain ⟨isCopied, same⟩ := (AttributeDecl.copyDefault_eq_ok (a := data v) c).mp copied
  obtain ⟨f, hf, form⟩ := Value.exists_canonical told
  exact ⟨isCopied, f, same ▸ hf, form.exists_write .compact 0⟩

/-- Blobs have a schema, whatever they hold by default, if a copy of it can be told. -/
theorem exists_compile_of_isTellable (host : Host) {v c : Value}
    (copied : v.deepCopy (host.copier (.text "Blob") (.text "data")) = .ok c)
    (told : c.Every Value.IsTellable) :
    ∃ s, (Schema.compile host default [blob v] (.text "Blobs") (.int 1)).result = .ok s := by
  have coherent : Coherent [blob v] := by
    refine ⟨?_, ?_, ?_, ?_, ?_⟩
    · simp
    · simp [blob, EntityDecl.NamesUnique]
    · simp [blob]
    · simp [blob]
    · simp [Links.OneToOne, Links.Joined, Links.Declares, Links.declared, blob]
  refine (Schema.exists_compile_eq_ok (isTextual v) rfl).mpr ⟨coherent, ?_, ?_, ?_⟩
  · simpa [blob] using isPortable copied told
  · exact Value.isShowable_text "Blobs"
  · exact (Value.isShowable_int_iff 1).mpr (Number.Integer.isTooLong_of_le_one le_rfl)

private theorem exists_compile_eq_ok (host : Host) (key : String) : ∃ s,
    (Schema.compile host default
    [blob (.dict .fresh (entries key))] (.text "Blobs") (.int 1)).result = .ok s :=
  exists_compile_of_isTellable host rfl (every_isTellable key)

private theorem keepsApart (host : Host) (key : String) :
    host.KeepsApart (.dict .fresh (entries key)) := by
  refine fun entity attr ↦ ⟨fun apart fs hfs ↦ ?_, ⟨trivial, trivial⟩, ⟨trivial, trivial⟩, trivial⟩
  obtain rfl := Except.ok.inj hfs
  exact apart

private theorem forall₂_isRebuilt (v w : Value) :
    List.Forall₂ (EntityDecl.IsRebuilt v w) [blob v] [blob w] :=
  .cons ⟨rfl, rfl, rfl, rfl, rfl, .cons (.rebuilt rfl rfl rfl rfl rfl rfl rfl rfl) .nil⟩ .nil

end Blobs

namespace Value

/-- The form of the example has two entries, and the schema of blobs has the same fingerprint in
either order. -/
theorem exists_canonical_dict_of_isReordered_blobs :
    (Value.dict .fresh (Blobs.entries "b")).Every IsTellable ∧
      (Value.dict .fresh (Blobs.entries "b")).Every IsTraceable ∧
      (Value.dict .fresh (Blobs.entries "b")).IsReordered
        (.dict .fresh (Blobs.entries "b").reverse) ∧
      ∃ fs g s t, (Value.dict .fresh (Blobs.entries "b")).canonical = .ok (.dict .fresh fs) ∧
        fs.length = 2 ∧ (Value.dict .fresh (Blobs.entries "b").reverse).canonical = .ok g ∧
        (Value.dict .fresh fs).equals g = true ∧
        (Schema.compile default default [Blobs.blob (.dict .fresh (Blobs.entries "b"))]
          (.text "Blobs") (.int 1)).result = .ok s ∧
        (Schema.compile default default [Blobs.blob (.dict .fresh (Blobs.entries "b").reverse)]
          (.text "Blobs") (.int 1)).result = .ok t ∧
        t.fingerprint = s.fingerprint := by
  have told := Blobs.every_isTellable "b"
  have traceable := Blobs.every_isTraceable "b"
  have apart : KeysApart (Blobs.entries "b") := (Blobs.keysApart_iff "b").mpr (by decide)
  have reordered : (Value.dict .fresh (Blobs.entries "b")).IsReordered
      (.dict .fresh (Blobs.entries "b").reverse) :=
    isReordered_of_perm apart (List.reverse_perm _)
  obtain ⟨fs, hfs, size, same⟩ := exists_canonical_dict_of_isReordered told traceable
  obtain ⟨⟨g, hg, -, equal⟩, schemas⟩ := same _ reordered
  obtain ⟨s, hs⟩ := Blobs.exists_compile_eq_ok default "b"
  obtain ⟨t, ht, fingerprint⟩ := (schemas default default default _ _ (.text "Blobs") (.int 1)
    s.fingerprint (Blobs.forall₂_isRebuilt _ _) (Blobs.keepsApart default "b")
    (.refl default _)).mp ⟨s, hs, rfl⟩
  exact ⟨told, traceable, reordered, fs, g, s, t, hfs, size.mpr apart, hg, equal, hs, ht,
    fingerprint⟩

/-- A number and a text that are told apart as keys become one text: an entry is lost, and which one
depends on the order. -/
theorem exists_canonical_dict_ne : ∃ es : List (Value × Value),
    (Value.dict .fresh es).Every IsTellable ∧ (Value.dict .fresh es).Every IsTraceable ∧
      (es.Pairwise fun e f ↦ f.1.same e.1 = false) ∧
      ∃ fs gs, (Value.dict .fresh es).canonical = .ok (.dict .fresh fs) ∧
        (Value.dict .fresh es.reverse).canonical = .ok (.dict .fresh gs) ∧
        fs.length < es.length ∧ (Value.dict .fresh fs).equals (.dict .fresh gs) = false := by
  have key : (text "int:1").canonicalKey = .ok "int:1" := rfl
  have first : (Value.dict .fresh (Blobs.entries "int:1")).canonical =
      .ok (.dict .fresh [(text "int:1", text "b")]) := by
    simp [Blobs.entries, canonical, canonicalEntries, Blobs.canonicalKey_one, key, bind,
      Except.bind, pure, Except.pure, ofEntries, insert]
  have second : (Value.dict .fresh (Blobs.entries "int:1").reverse).canonical =
      .ok (.dict .fresh [(text "int:1", text "a")]) := by
    simp [Blobs.entries, canonical, canonicalEntries, Blobs.canonicalKey_one, key, bind,
      Except.bind, pure, Except.pure, ofEntries, insert]
  refine ⟨Blobs.entries "int:1", Blobs.every_isTellable _, Blobs.every_isTraceable _, ?_, _, _,
    first, second, by decide, ?_⟩
  · have apart : (text "int:1").same (int 1) = false :=
      Bool.eq_false_iff.mpr fun h ↦ by cases (text_same_iff _ _).mp h
    simp [Blobs.entries, apart]
  · simp [equals, same, Identity.same, entriesAmong]

end Value

end EntityGraph
