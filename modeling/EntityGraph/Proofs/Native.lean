import EntityGraph.Document.Load
import EntityGraph.Proofs.Copies
import EntityGraph.Proofs.Reading

/-!
# Documents without foreign objects

No JSON text spells an object of a foreign class, and no YAML text does to a safe reader. So the
defaults of a model that is read from a text hold none, and every host copies them alike.
-/

namespace EntityGraph

open Value (Survives)

/-- A value is no object of a foreign class. -/
def Value.IsNative : Value → Prop
  | .atom _ (.foreign _) => False
  | _ => True

/-- Collections are no foreign objects. -/
theorem Value.survives_isNative : Survives IsNative := by
  refine survives_of_collections fun v h ↦ ?_
  cases v with
  | atom => cases h
  | _ => trivial

/-- A library that reads no objects of foreign classes. -/
def Yaml.Library.IsSafe (yaml : Yaml.Library) : Prop :=
  ∀ text v, yaml.read text = .ok v → v.Every Value.IsNative

/-! ### JSON -/

namespace Json

private theorem every_insert {k v : Value} (hk : k.Every Value.IsNative)
    (hv : v.Every Value.IsNative) {es : List (Value × Value)}
    (h : Value.EveryEntry Value.IsNative es) :
    Value.EveryEntry Value.IsNative (Value.insert k v es) := by
  induction es with
  | nil => exact ⟨⟨hk, hv⟩, trivial⟩
  | cons e es ih =>
    obtain ⟨he, hes⟩ := h
    rw [Value.insert]
    split
    · exact ⟨⟨he.1, hv⟩, hes⟩
    · exact ⟨he, ih hes⟩

private theorem every_ofEntries {id : Identity} {es : List (Value × Value)}
    (h : Value.EveryEntry Value.IsNative es) :
    (Value.ofEntries id es).Every Value.IsNative := by
  refine ⟨trivial, ?_⟩
  have folded : ∀ fs, Value.EveryEntry Value.IsNative fs → Value.EveryEntry Value.IsNative
      (es.foldl (fun es e ↦ Value.insert e.1 e.2 es) fs) := by
    induction es with
    | nil => exact fun fs hfs ↦ hfs
    | cons e es ih => exact fun fs hfs ↦ ih h.2 _ (every_insert h.1.1 h.1.2 hfs)
  exact folded [] trivial

private theorem isNative_of_scalar {a : Ahead} {v : Value} {rest : Ahead}
    (h : scalar a = .ok (v, rest)) : v.Every Value.IsNative := by
  unfold scalar at h
  split at h
  · next word w found =>
    obtain ⟨rfl, -⟩ := Prod.mk.inj (Except.ok.inj h)
    have known := List.mem_of_find?_eq_some found
    simp only [words, List.mem_cons, Prod.mk.injEq, List.not_mem_nil, or_false] at known
    rcases known with ⟨-, rfl⟩ | ⟨-, rfl⟩ | ⟨-, rfl⟩ | ⟨-, rfl⟩ | ⟨-, rfl⟩ | ⟨-, rfl⟩ <;> trivial
  · split at h
    · cases h
    · next p hp =>
      obtain ⟨w, hw, h⟩ := (Success.map_eq_ok _ _ _).mp h
      obtain ⟨rfl, -⟩ := Prod.mk.inj h
      unfold numberValue at hw
      split at hw
      · split at hw
        · cases hw
        · obtain rfl := Except.ok.inj hw
          trivial
      · obtain rfl := Except.ok.inj hw
        trivial

private theorem isNative_of_value {fuel : Nat}
    (lists : ∀ a vs rest, members fuel a = .ok (vs, rest) → Value.EveryMember Value.IsNative vs)
    (objects : ∀ a es rest, entries fuel a = .ok (es, rest) → Value.EveryEntry Value.IsNative es)
    {a rest : Ahead} {v : Value} (h : value (fuel + 1) a = .ok (v, rest)) :
    v.Every Value.IsNative := by
  rw [value] at h
  split at h
  · cases h
  · split at h
    · obtain ⟨s, -, h⟩ := (Success.map_eq_ok _ _ _).mp h
      obtain ⟨rfl, -⟩ := Prod.mk.inj h
      trivial
    · split at h
      · dsimp only at h
        split at h
        · obtain ⟨rfl, -⟩ := Prod.mk.inj (Except.ok.inj h)
          exact ⟨trivial, trivial⟩
        · obtain ⟨⟨es, r⟩, hes, h⟩ := (Success.bind_eq_ok _ _ _).mp h
          obtain ⟨rfl, -⟩ := Prod.mk.inj (Except.ok.inj h)
          exact every_ofEntries (objects _ es r hes)
      · split at h
        · dsimp only at h
          split at h
          · obtain ⟨rfl, -⟩ := Prod.mk.inj (Except.ok.inj h)
            exact ⟨trivial, trivial⟩
          · obtain ⟨⟨vs, r⟩, hvs, h⟩ := (Success.bind_eq_ok _ _ _).mp h
            obtain ⟨rfl, -⟩ := Prod.mk.inj (Except.ok.inj h)
            exact ⟨trivial, lists _ vs r hvs⟩
        · exact isNative_of_scalar h

private theorem isNative_of_members {fuel : Nat}
    (values : ∀ a v rest, value fuel a = .ok (v, rest) → v.Every Value.IsNative)
    (lists : ∀ a vs rest, members fuel a = .ok (vs, rest) → Value.EveryMember Value.IsNative vs)
    {a rest : Ahead} {vs : List Value} (h : members (fuel + 1) a = .ok (vs, rest)) :
    Value.EveryMember Value.IsNative vs := by
  rw [members] at h
  obtain ⟨⟨v, r⟩, hv, h⟩ := (Success.bind_eq_ok _ _ _).mp h
  have head := values a v r hv
  dsimp only at h
  split at h
  · obtain ⟨rfl, -⟩ := Prod.mk.inj (Except.ok.inj h)
    exact ⟨head, trivial⟩
  · obtain ⟨next, -, h⟩ := (Success.bind_eq_ok _ _ _).mp h
    obtain ⟨⟨ws, r'⟩, hws, h⟩ := (Success.bind_eq_ok _ _ _).mp h
    obtain ⟨rfl, -⟩ := Prod.mk.inj (Except.ok.inj h)
    exact ⟨head, lists _ ws r' hws⟩

private theorem isNative_of_entries {fuel : Nat}
    (values : ∀ a v rest, value fuel a = .ok (v, rest) → v.Every Value.IsNative)
    (objects : ∀ a es rest, entries fuel a = .ok (es, rest) → Value.EveryEntry Value.IsNative es)
    {a rest : Ahead} {es : List (Value × Value)} (h : entries (fuel + 1) a = .ok (es, rest)) :
    Value.EveryEntry Value.IsNative es := by
  rw [entries] at h
  obtain ⟨inside, -, h⟩ := (Success.bind_eq_ok _ _ _).mp h
  obtain ⟨⟨key, r⟩, -, h⟩ := (Success.bind_eq_ok _ _ _).mp h
  obtain ⟨behind, -, h⟩ := (Success.bind_eq_ok _ _ _).mp h
  obtain ⟨⟨v, r'⟩, hv, h⟩ := (Success.bind_eq_ok _ _ _).mp h
  have head := values _ v r' hv
  dsimp only at h
  split at h
  · obtain ⟨rfl, -⟩ := Prod.mk.inj (Except.ok.inj h)
    exact ⟨⟨trivial, head⟩, trivial⟩
  · obtain ⟨next, -, h⟩ := (Success.bind_eq_ok _ _ _).mp h
    obtain ⟨⟨fs, r''⟩, hfs, h⟩ := (Success.bind_eq_ok _ _ _).mp h
    obtain ⟨rfl, -⟩ := Prod.mk.inj (Except.ok.inj h)
    exact ⟨⟨trivial, head⟩, objects _ fs r'' hfs⟩

/-- What is read in place of a value, of members and of entries holds no foreign objects, by
induction on the fuel that the three readers share. -/
private theorem isNative_of_readers (fuel : Nat) :
    (∀ a v rest, value fuel a = .ok (v, rest) → v.Every Value.IsNative) ∧
    (∀ a vs rest, members fuel a = .ok (vs, rest) → Value.EveryMember Value.IsNative vs) ∧
    (∀ a es rest, entries fuel a = .ok (es, rest) → Value.EveryEntry Value.IsNative es) := by
  induction fuel with
  | zero =>
    refine ⟨fun a v rest h ↦ ?_, fun a vs rest h ↦ ?_, fun a es rest h ↦ ?_⟩
    · rw [value] at h
      cases h
    · rw [members] at h
      cases h
    · rw [entries] at h
      cases h
  | succ fuel ih =>
    obtain ⟨values, lists, objects⟩ := ih
    exact ⟨fun _ _ _ ↦ isNative_of_value lists objects,
      fun _ _ _ ↦ isNative_of_members values lists,
      fun _ _ _ ↦ isNative_of_entries values objects⟩

private theorem every_isNative_of_read {cs : List Char} {v : Value} (h : read cs = .ok v) :
    v.Every Value.IsNative := by
  unfold read at h
  split at h
  · cases h
  · obtain ⟨⟨w, rest⟩, hw, h⟩ := (Success.bind_eq_ok _ _ _).mp h
    dsimp only at h
    split at h
    · obtain rfl := Except.ok.inj h
      exact (isNative_of_readers _).1 _ w rest hw
    · cases h

end Json

/-! ### Models -/

private theorem ScalarType.every_isNative_of_decodeText {type : ScalarType} {v w : Value}
    {s : String} (h : v.Every Value.IsNative) (hw : type.decodeText v s = .ok w) :
    w.Every Value.IsNative := by
  unfold decodeText at hw
  dsimp only at hw
  cases type with
  | date =>
    dsimp only at hw
    split at hw
    all_goals
      split at hw
      all_goals cases hw
      trivial
  | binary | uuid | decimal =>
    dsimp only at hw
    split at hw
    all_goals cases hw
    trivial
  | _ => exact Except.ok.inj hw ▸ h

/-- What a default is decoded from holds no foreign objects, and the default then holds none. -/
private theorem ScalarType.every_isNative_of_decode {type : ScalarType} {v w : Value}
    (h : v.Every Value.IsNative) (hw : type.decode v = .ok w) : w.Every Value.IsNative := by
  unfold decode at hw
  split at hw
  · split at hw
    · obtain rfl := Except.ok.inj hw
      trivial
    · obtain rfl := Except.ok.inj hw
      exact h
  · next id s =>
    split at hw
    · next u hu =>
      obtain rfl := Except.ok.inj hw
      exact every_isNative_of_decodeText h hu
    · cases hw
  · obtain rfl := Except.ok.inj hw
    exact h

/-- All defaults of an entity hold no foreign objects. -/
def EntityDecl.IsNative (e : EntityDecl) : Prop :=
  ∀ a ∈ e.attributes, a.default.Every Value.IsNative

/-- Defaults without foreign objects are copied alike by all hosts. -/
theorem Host.copiesAlike_of_isNative (host host' : Host) {entities : List EntityDecl}
    (native : ∀ e ∈ entities, e.IsNative) : host.CopiesAlike host' entities := by
  refine fun e he a ha ↦ (native e he a ha).mono fun v hv ↦ ?_
  cases v with
  | atom id b =>
    cases b with
    | foreign f => cases hv
    | _ => trivial
  | _ => trivial

namespace Document

variable {v : Value}

private theorem carries_isNative :
    Carries Value.IsNative (Value.Every Value.IsNative) where
  survives := Value.survives_isNative
  null := trivial
  text _ := trivial
  byte _ := trivial
  decode := ScalarType.every_isNative_of_decode

/-- A document without foreign objects is read as a model without them, also where it is empty. -/
theorem isNative_of_orEmpty (h : v.Every Value.IsNative) {m : Model}
    (hm : read (orEmpty v) = .ok m) : ∀ e ∈ m.entities, e.IsNative := by
  refine carries_isNative.default_of_read ?_ hm
  unfold orEmpty Value.orElse
  split
  · exact h
  · exact ⟨trivial, trivial⟩

private theorem isNative_of_readJson {text : String} {m : Model} (hm : readJson text = .ok m) :
    ∀ e ∈ m.entities, e.IsNative := by
  unfold readJson at hm
  dsimp only at hm
  split at hm
  · next v hv => exact isNative_of_orEmpty (Json.every_isNative_of_read hv) hm
  · cases hm
  · cases hm

private theorem isNative_of_readYaml {yaml : Yaml.Library} (safe : yaml.IsSafe) {text : String}
    {m : Model} (hm : readYaml yaml text = .ok m) : ∀ e ∈ m.entities, e.IsNative := by
  unfold readYaml at hm
  split at hm
  · next v hv => exact isNative_of_orEmpty (safe text v hv) hm
  · cases hm

/-- The model of a file has defaults without foreign objects, if the library for YAML is safe. -/
theorem isNative_of_load {yaml : Yaml.Library} (safe : yaml.IsSafe) {path : Path}
    {found : Except FileFault (List UInt8)} {m : Model} (hm : load yaml path found = .ok m) :
    ∀ e ∈ m.entities, e.IsNative := by
  unfold load at hm
  split at hm
  · cases hm
  · obtain ⟨bytes, -, hm⟩ := (Success.bind_eq_ok _ _ _).mp hm
    obtain ⟨cs, -, hm⟩ := (Success.bind_eq_ok _ _ _).mp hm
    dsimp only at hm
    split at hm
    · exact isNative_of_readYaml safe hm
    · split at hm
      · exact isNative_of_readJson hm
      · cases hm

end Document

end EntityGraph
