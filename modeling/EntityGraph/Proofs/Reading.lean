import EntityGraph.Proofs.Grammar
import EntityGraph.Proofs.Parts

/-!
# Defaults that are read

The defaults of a model are decoded from parts of the document that the model is read from. So what
holds of all parts of a document says what holds of all defaults.
-/

namespace EntityGraph.Document

/-- A property of the parts of documents gives a property of defaults: what is taken out of a
document keeps the one, and what is decoded from it has the other. -/
structure Carries (P Q : Value → Prop) : Prop where
  survives : Value.Survives P
  null : P .null
  text : ∀ s, P (.text s)
  byte : ∀ b : UInt8, P (.int b.toNat)
  decode : ∀ {type : ScalarType} {v w : Value}, v.Every P → type.decode v = .ok w → Q w

namespace Carries

variable {P Q : Value → Prop} (carries : Carries P Q) {path : String} {v : Value}

include carries

private theorem every_of_members (h : v.Every P) {key : String} {vs : List Value}
    (hvs : members key v = .ok vs) : ∀ w ∈ vs, w.Every P := by
  rw [members] at hvs
  split at hvs
  · exact (h.get carries.survives carries.null key).items carries.survives carries.text
      carries.byte hvs
  · obtain rfl := Except.ok.inj hvs
    exact List.forall_mem_nil _

private theorem default_of_readAttribute (h : v.Every P) {a : AttributeDecl}
    (ha : readAttribute path v = .ok a) : Q a.default := by
  simp only [readAttribute, Success.bind_eq_ok, located_eq_ok] at ha
  obtain ⟨_, -, name, -, tag, -, type, -, default, decoded, _, -, _, -, _, -, made⟩ := ha
  rw [AttributeDecl.default_of_make made]
  exact carries.decode (h.get carries.survives carries.null "default") decoded

/-- Of the properties that are read, each attribute has its default from one member of the list. -/
private theorem default_of_readProperties {i : Nat} {vs : List Value}
    (h : ∀ v ∈ vs, v.Every P) {p : Properties} (hp : readProperties path i vs = .ok p) :
    ∀ a ∈ p.attributes, Q a.default := by
  induction vs generalizing i p with
  | nil =>
    obtain rfl := Except.ok.inj hp
    exact List.forall_mem_nil _
  | cons v vs ih =>
    obtain ⟨hv, hvs⟩ := List.forall_mem_cons.mp h
    simp only [readProperties, Success.bind_eq_ok] at hp
    obtain ⟨c, hc, rest, hrest, hp⟩ := hp
    have others := ih hvs hrest
    obtain ⟨id, key, inner, rfl, ⟨-, a, ha, rfl⟩ | ⟨-, r, -, rfl⟩⟩ :=
      (readProperty_eq_ok _ v c).mp hc
    · obtain rfl := Except.ok.inj hp
      -- the attribute is the one entry of the member, and is taken out of it
      have taken := carries.survives hv hv.2.1.2
      exact List.forall_mem_cons.mpr ⟨carries.default_of_readAttribute taken ha, others⟩
    · obtain rfl := Except.ok.inj hp
      exact others

private theorem default_of_readEntity (h : v.Every P) {e : EntityDecl}
    (he : readEntity path v = .ok e) : ∀ a ∈ e.attributes, Q a.default := by
  simp only [readEntity, Success.bind_eq_ok, Success.liftM_eq_ok] at he
  obtain ⟨_, -, name, -, ms, hms, p, hp, _, -, _, -, made⟩ := he
  rw [EntityDecl.attributes_of_make made]
  exact carries.default_of_readProperties (carries.every_of_members h hms) hp

private theorem default_of_readEntities {i : Nat} {vs : List Value} (h : ∀ v ∈ vs, v.Every P)
    {es : List EntityDecl} (hes : readEntities i vs = .ok es) :
    ∀ e ∈ es, ∀ a ∈ e.attributes, Q a.default := by
  induction vs generalizing i es with
  | nil =>
    obtain rfl := Except.ok.inj hes
    exact List.forall_mem_nil _
  | cons v vs ih =>
    obtain ⟨hv, hvs⟩ := List.forall_mem_cons.mp h
    simp only [readEntities, Success.bind_eq_ok] at hes
    obtain ⟨e, he, rest, hrest, hes⟩ := hes
    obtain rfl := Except.ok.inj hes
    exact List.forall_mem_cons.mpr ⟨carries.default_of_readEntity hv he, ih hvs hrest⟩

/-- The defaults of a model have the property, if the parts of its document have the other. -/
theorem default_of_read (h : v.Every P) {m : Model} (hm : read v = .ok m) :
    ∀ e ∈ m.entities, ∀ a ∈ e.attributes, Q a.default := by
  simp only [read, Success.bind_eq_ok, Success.liftM_eq_ok] at hm
  obtain ⟨_, -, ms, hms, es, hes, version, -, made⟩ := hm
  rw [entities_of_make made]
  exact carries.default_of_readEntities (carries.every_of_members h hms) hes

end Carries

end EntityGraph.Document
