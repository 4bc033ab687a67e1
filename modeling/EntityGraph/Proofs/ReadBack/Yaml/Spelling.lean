import EntityGraph.Proofs.Anonymity
import EntityGraph.Proofs.Parts
import EntityGraph.Proofs.ReadBack.Yaml.Nodes
import EntityGraph.Proofs.Success
import EntityGraph.Yaml.Reader

/-!
# Values spelled by nodes

A value that is built from atoms with scalars of their own, lists, and mappings with such atoms as
keys is written as a tree whose nodes spell the value. A part of a kind that the reader does not
know is spelled by any node of an unknown kind. Where an object occurs again, the number of its node
is that of its first occurrence, and this spells the value too: an object that is not complete yet
is a larger one.
-/

namespace EntityGraph

open Yaml (Nodes)

/-! ### Depths -/

/-- Whether an atom is written as a node of a kind that is not known. -/
def Atom.isUnknown : Atom → Bool
  | .bytes true _ | .decimal _ | .uuid _ => true
  | _ => false

/-- Whether sequences are written as nodes of a kind that is not known. -/
def SeqKind.isUnknown : SeqKind → Bool
  | .tuple | .frozenset => true
  | _ => false

/-- The number of collections that an atom is written with. -/
def Atom.depth (a : Atom) : Nat := if a.isUnknown then 1 else 0

/-- The number of collections that are written around the members of a sequence. -/
def SeqKind.depth : SeqKind → Nat
  | .frozenset => 2
  | _ => 1

namespace Value

mutual

/-- The number of collections around each other in what is written for a value, keys apart. -/
def depth : Value → Nat
  | .atom _ a => a.depth
  | .loop .. => 0
  | .seq _ kind items => depthItems items + kind.depth
  | .dict _ entries => depthEntries entries + 1

/-- The greatest depth of some values. -/
def depthItems : List Value → Nat
  | [] => 0
  | v :: vs => max v.depth (depthItems vs)

/-- The greatest depth of the values of some entries. -/
def depthEntries : List (Value × Value) → Nat
  | [] => 0
  | (_, v) :: es => max v.depth (depthEntries es)

end

/-- Values are not deeper than a limit if none of them is. -/
theorem depthItems_le {limit : Nat} {vs : List Value} (h : ∀ v ∈ vs, v.depth ≤ limit) :
    depthItems vs ≤ limit := by
  induction vs with
  | nil => exact Nat.zero_le limit
  | cons v vs ih =>
    rw [List.forall_mem_cons] at h
    exact Nat.max_le.mpr ⟨h.1, ih h.2⟩

/-- Entries are not deeper than a limit if none of their values is. -/
theorem depthEntries_le {limit : Nat} {es : List (Value × Value)}
    (h : ∀ e ∈ es, e.2.depth ≤ limit) :
    depthEntries es ≤ limit := by
  induction es with
  | nil => exact Nat.zero_le limit
  | cons e es ih =>
    rw [List.forall_mem_cons] at h
    exact Nat.max_le.mpr ⟨h.1, ih h.2⟩

mutual

/-- The depth of a value is that of its content. -/
@[simp] theorem depth_anonymous (v : Value) : v.anonymous.depth = v.depth := by
  cases v with
  | atom id a => simp only [anonymous, depth]
  | seq id kind items => simp only [anonymous, depth, depthItems_anonymous items]
  | dict id entries => simp only [anonymous, depth, depthEntries_anonymous entries]
  | loop id kind => simp only [anonymous, depth]

/-- The greatest depth of some values is that of their contents. -/
theorem depthItems_anonymous (vs : List Value) :
    depthItems (anonymousItems vs) = depthItems vs := by
  cases vs with
  | nil => simp only [anonymousItems]
  | cons v vs => simp only [anonymousItems, depthItems, depth_anonymous v, depthItems_anonymous vs]

/-- The greatest depth of the values of some entries is that of their contents. -/
theorem depthEntries_anonymous (es : List (Value × Value)) :
    depthEntries (anonymousEntries es) = depthEntries es := by
  cases es with
  | nil => simp only [anonymousEntries]
  | cons e es =>
    simp only [anonymousEntries, depthEntries, depth_anonymous e.2, depthEntries_anonymous es]

end

end Value

/-! ### Atoms -/

/-- Whether the occurrences of an atom that are read are objects of their own. -/
def Atom.isObject : Atom → Bool
  | .float _ | .date _ | .moment _ | .bytes .. => true
  | _ => false

namespace Yaml

open Form Build

/-- The scalar of a tag and a text has an atom as its value. -/
def Reads (tag text : String) (a : Atom) : Prop :=
  ∀ id, Scalar.value id (kindOf tag) text = .ok (.atom (if a.isObject then id else .fresh) a)

/-- An atom that equals itself is written as a scalar that is read as the atom. -/
structure IsScalar (a : Atom) (tag text : String) : Prop where
  form : ∀ key, ofAtom key a = .ok (.scalar key tag false text)
  kind : tag ∈ kindNames
  nonempty : text = "" → tag ≠ "null"
  reads : Reads tag text a
  known : a.isElusive = false
  /-- Only texts hold characters whose escapes are long. -/
  latin : tag = "str" ∨ ∀ c ∈ text.toList, c.toNat ≤ 0xFF

namespace Nodes

mutual

/-- A node spells a value, of whatever identity. One of an unknown kind spells each value of such a
kind. -/
def Spells (ns : Nodes) : Value → Nat → Prop
  | .atom _ a, n =>
    (a.isUnknown = false ∧ ∃ tag text, ns.node n = ⟨kindOf tag, .scalar text⟩ ∧ Reads tag text a) ∨
      a.isUnknown = true ∧ ns.tag n = .other
  | .seq _ kind items, n =>
    (kind = .list ∧ ∃ ms, ns.node n = ⟨.seq, .seq ms⟩ ∧ SpellsItems ns items ms) ∨
      kind.isUnknown = true ∧ ns.tag n = .other
  | .dict _ entries, n => ∃ ms, ns.node n = ⟨.map, .map ms⟩ ∧ SpellsEntries ns entries ms
  | .loop .., _ => False

/-- Nodes spell values, place by place. -/
def SpellsItems (ns : Nodes) : List Value → List Nat → Prop
  | [], [] => True
  | v :: vs, m :: ms => ns.Spells v m ∧ SpellsItems ns vs ms
  | _, _ => False

/-- Nodes spell the keys and the values of entries, place by place. -/
def SpellsEntries (ns : Nodes) : List (Value × Value) → List (Nat × Nat) → Prop
  | [], [] => True
  | (k, v) :: es, (m, n) :: ms => (ns.Spells k m ∧ ns.Spells v n) ∧ SpellsEntries ns es ms
  | _, _ => False

end

variable {ns : Nodes}

mutual

/-- What a node spells depends on the content of the value. -/
theorem spells_anonymous (v : Value) (n : Nat) : ns.Spells v.anonymous n ↔ ns.Spells v n := by
  cases v with
  | atom id a => simp only [Value.anonymous, Spells]
  | seq id kind items => simp only [Value.anonymous, Spells, spellsItems_anonymous items]
  | dict id entries => simp only [Value.anonymous, Spells, spellsEntries_anonymous entries]
  | loop id kind => simp only [Value.anonymous, Spells]

/-- What nodes spell depends on the contents of the values. -/
theorem spellsItems_anonymous (vs : List Value) (ms : List Nat) :
    ns.SpellsItems (Value.anonymousItems vs) ms ↔ ns.SpellsItems vs ms := by
  cases vs with
  | nil => simp only [Value.anonymousItems]
  | cons v vs =>
    cases ms with
    | nil => simp only [Value.anonymousItems, SpellsItems]
    | cons m ms =>
      simp only [Value.anonymousItems, SpellsItems, spells_anonymous v m,
        spellsItems_anonymous vs ms]

/-- What nodes spell depends on the contents of the entries. -/
theorem spellsEntries_anonymous (es : List (Value × Value)) (ms : List (Nat × Nat)) :
    ns.SpellsEntries (Value.anonymousEntries es) ms ↔ ns.SpellsEntries es ms := by
  cases es with
  | nil => simp only [Value.anonymousEntries]
  | cons e es =>
    cases ms with
    | nil => simp only [Value.anonymousEntries, SpellsEntries]
    | cons m ms =>
      simp only [Value.anonymousEntries, SpellsEntries, spells_anonymous e.1 m.1,
        spells_anonymous e.2 m.2, spellsEntries_anonymous es ms]

end

/-- What a node spells is known from the content. -/
theorem Spells.of_anonymous {v w : Value} {n : Nat} (h : ns.Spells v n)
    (same : v.anonymous = w.anonymous) : ns.Spells w n := by
  rw [← spells_anonymous, ← same, spells_anonymous]
  exact h

/-- Nodes stand behind a number of others. -/
def HasAt (ns : Nodes) (start : Nat) (new : List Node) : Prop :=
  ∀ i n, new[i]? = some n → ns.node (start + i) = n

/-- Nodes stand behind others in two parts. -/
theorem HasAt.append {start : Nat} {new more : List Node} (h : ns.HasAt start (new ++ more)) :
    ns.HasAt start new ∧ ns.HasAt (start + new.length) more := by
  constructor
  · intro i n hn
    exact h i n (by rw [List.getElem?_append_left (List.getElem?_eq_some_iff.mp hn).1, hn])
  · intro i n hn
    rw [Nat.add_assoc]
    exact h (new.length + i) n (by rw [List.getElem?_append_right (Nat.le_add_right _ _),
      Nat.add_sub_cancel_left, hn])

/-- The first node and those behind it. -/
theorem HasAt.cons {start : Nat} {node : Node} {new : List Node}
    (h : ns.HasAt start (node :: new)) :
    ns.node start = node ∧ ns.HasAt (start + 1) new := by
  have parts : ns.HasAt start ([node] ++ new) := h
  exact ⟨h 0 node rfl, parts.append.2⟩

end Nodes

/-! ### Parts that can be written -/

/-- A key that can be read back is an atom of a known kind. -/
def IsKeyAtom (k : Value) : Prop := ∃ id a, k = .atom id a ∧ a.isUnknown = false

/-- A part of a value that can be read back from what is written for it. -/
def IsPart : Value → Prop
  | .atom _ a => ∃ tag text, IsScalar a tag text
  | .seq _ kind _ => kind = .list
  | .dict _ entries => (∀ e ∈ entries, IsKeyAtom e.1) ∧
      (entries.map (·.1.anonymous)).Pairwise fun k l ↦ l.same k = false
  | .loop .. => False

/-- Whether a part of a value is written as a node of a kind that is not known. -/
def isUnknown : Value → Bool
  | .atom _ a => a.isUnknown
  | .seq _ kind _ => kind.isUnknown
  | .dict .. | .loop .. => false

/-- A part of a value that can be written: it can be read back, or its kind is not known. -/
def IsWritten (v : Value) : Prop := IsPart v ∨ isUnknown v = true

/-- An atom that can be read back is of a known kind. -/
theorem IsScalar.isUnknown_eq {a : Atom} {tag text : String} (h : IsScalar a tag text) :
    a.isUnknown = false := by
  have form := h.form none
  cases a with
  | bytes growable content =>
    cases growable with
    | true => cases form
    | false => rfl
  | decimal d => cases form
  | uuid u => cases form
  | _ => rfl

/-- A part that can be read back is of a known kind. -/
theorem IsPart.isUnknown_eq {v : Value} (h : IsPart v) : isUnknown v = false := by
  cases v with
  | atom id a =>
    obtain ⟨tag, text, scalar⟩ := h
    exact scalar.isUnknown_eq
  | seq id kind items =>
    obtain rfl : kind = .list := h
    rfl
  | _ => rfl

/-- A part that can be written and is of a known kind can be read back. -/
theorem IsWritten.isPart {v : Value} (h : IsWritten v) (known : isUnknown v = false) : IsPart v :=
  h.resolve_right (Bool.eq_false_iff.mp known)

/-- The parts of a value that are one object have one content. -/
def HasContents (content : ObjectKey → Value) (v : Value) : Prop :=
  v.Every fun u ↦ ∀ k, keyOf u = some k → u.anonymous = content k

/-! ### Names -/

section Names

variable {anchors : List ObjectKey} {seen : List ObjectKey} {names : Names}
  {key : Option ObjectKey} {start : Nat}

private theorem getElem?_of_idxOf? {k : ObjectKey} {i : Nat} (h : anchors.idxOf? k = some i) :
    anchors[i]? = some k := by
  rw [List.idxOf?, List.findIdx?_eq_some_iff_getElem] at h
  obtain ⟨inside, same, -⟩ := h
  rw [List.getElem?_eq_getElem inside, eq_of_beq same]

private theorem title_inj {k l : ObjectKey} {a : String} (hk : title anchors (some k) = some a)
    (hl : title anchors (some l) = some a) : k = l := by
  simp only [title, nameOf?, Option.bind_some, Option.map_map, Option.map_eq_some_iff,
    Function.comp_apply] at hk hl
  obtain ⟨i, hi, rfl⟩ := hk
  obtain ⟨j, hj, same⟩ := hl
  have digits := List.append_cancel_left (String.ofList_injective same)
  have number := congrArg Text.nat? digits
  rw [Text.nat?_padded, Text.nat?_padded] at number
  obtain rfl : j = i := by simpa using number
  exact Option.some.inj ((getElem?_of_idxOf? hi).symm.trans (getElem?_of_idxOf? hj))

/-- The objects that were written are those whose names are known. -/
def AreKnown (anchors : List ObjectKey) (seen : List ObjectKey) (names : Names) : Prop :=
  ∀ k a, title anchors (some k) = some a → ((names.lookup a).isSome = true ↔ k ∈ seen)

/-- An object that was not written before gets its name. -/
theorem AreKnown.entitle?_eq (h : AreKnown anchors seen names)
    (new : ∀ k, key = some k → k ∉ seen) (start : Nat) :
    entitle? anchors key start names = some (entitle (title anchors key) start names) := by
  rw [entitle?, if_pos]
  rw [Option.all_eq_true]
  intro a ha
  cases key with
  | none => cases ha
  | some k =>
    rw [Option.isNone_iff_eq_none, ← Option.not_isSome_iff_eq_none, h k a ha]
    exact new k rfl

/-- Then it is one of those that were written. -/
theorem AreKnown.entitle (h : AreKnown anchors seen names) (start : Nat) :
    AreKnown anchors (key.toList ++ seen) (entitle (title anchors key) start names) := by
  intro l b hl
  cases key with
  | none => exact h l b hl
  | some k =>
    rw [Option.toList_some, List.singleton_append, List.mem_cons]
    cases ha : title anchors (some k) with
    | none =>
      have other : l ≠ k := by
        rintro rfl
        rw [ha] at hl
        cases hl
      simpa [Build.entitle, other] using h l b hl
    | some a =>
      by_cases same : l = k
      · subst same
        obtain rfl : a = b := Option.some.inj (ha.symm.trans hl)
        simp [Build.entitle]
      · have other : b ≠ a := by
          rintro rfl
          exact same (title_inj hl ha)
        have missed : (b == a) = false := beq_false_of_ne other
        simpa [Build.entitle, List.lookup_cons, missed, same] using h l b hl

private theorem lookup_entitle (h : AreKnown anchors seen names)
    (new : ∀ k, key = some k → k ∉ seen)
    (start : Nat) {a : String} {n : Nat} (ha : names.lookup a = some n) :
    (entitle (title anchors key) start names).lookup a = some n := by
  cases key with
  | none => exact ha
  | some k =>
    cases hk : title anchors (some k) with
    | none => exact ha
    | some b =>
      have other : a ≠ b := by
        rintro rfl
        exact new k rfl ((h k a hk).mp (by rw [ha]; rfl))
      have missed : (a == b) = false := beq_false_of_ne other
      simpa [Build.entitle, List.lookup_cons, missed] using ha

/-- An object that is referred to has a name. -/
theorem exists_title {k : ObjectKey} (h : k ∈ anchors) : ∃ a, title anchors (some k) = some a := by
  have found : (anchors.idxOf? k).isSome = true := by
    rw [List.idxOf?, List.findIdx?_isSome, List.any_eq_true]
    exact ⟨k, h, beq_self_eq_true k⟩
  obtain ⟨i, hi⟩ := Option.isSome_iff_exists.mp found
  exact ⟨_, by rw [title, nameOf?, Option.bind_some, hi]; rfl⟩

end Names

/-! ### Trees laid out -/

/-- The name of an object, if it has one, is that of a node which spells it. -/
def IsClosed (anchors : List ObjectKey) (content : ObjectKey → Value) (ns : Nodes) (names : Names)
    (k : ObjectKey) : Prop :=
  ∀ a, title anchors (some k) = some a → ∃ n, names.lookup a = some n ∧ ns.Spells (content k) n

/-- New nodes behind a number of others spell something, if the objects that were written before
and are less deep than a bound are spelled; then all objects that are written with the nodes are
spelled too. -/
structure Lays (anchors : List ObjectKey) (content : ObjectKey → Value)
    (seen seen' : List ObjectKey)
    (names names' : Names) (start : Nat) (new : List Node) (bound : Nat)
    (spells : Nodes → Prop) : Prop where
  known : AreKnown anchors seen' names'
  grown : ∀ a n, names.lookup a = some n → names'.lookup a = some n
  spells : ∀ ns : Nodes, ns.HasAt start new →
    (∀ k ∈ seen, (content k).depth < bound → IsClosed anchors content ns names k) →
      spells ns ∧ ∀ k ∈ seen', k ∈ seen ∨ IsClosed anchors content ns names' k

section Layouts

variable {anchors : List ObjectKey} {content : ObjectKey → Value}
  {seen seen₁ seen₂ seen' : List ObjectKey} {names names₁ names₂ names' : Names} {start : Nat}
  {new more : List Node} {bound : Nat} {spells spells' : Nodes → Prop} {v : Value}

/-- An object stays closed. -/
theorem IsClosed.grow {ns : Nodes} {k : ObjectKey} (h : IsClosed anchors content ns names k)
    (grown : ∀ a n, names.lookup a = some n → names'.lookup a = some n) :
    IsClosed anchors content ns names' k := by
  intro a ha
  obtain ⟨n, hn, spelled⟩ := h a ha
  exact ⟨n, grown a n hn, spelled⟩

namespace Lays

/-- No objects are laid out. -/
theorem nil (known : AreKnown anchors seen names) (start : Nat) (new : List Node) (bound : Nat)
    (h : ∀ ns, spells ns) : Lays anchors content seen seen names names start new bound spells :=
  ⟨known, fun _ _ ↦ id, fun ns _ _ ↦ ⟨h ns, fun _ ↦ .inl⟩⟩

private theorem cons {start : Nat} (node : Node)
    (h : Lays anchors content seen seen' names names' (start + 1) new bound spells) :
    Lays anchors content seen seen' names names' start (node :: new) bound spells :=
  ⟨h.known, h.grown, fun ns hns ↦ h.spells ns hns.cons.2⟩

/-- The bound may be greater. -/
theorem mono (h : Lays anchors content seen seen' names names' start new bound spells)
    {bound' : Nat}
    (le : bound ≤ bound') : Lays anchors content seen seen' names names' start new bound' spells :=
  ⟨h.known, h.grown, fun ns hns closed ↦
    h.spells ns hns fun k hk less ↦ closed k hk (Nat.lt_of_lt_of_le less le)⟩

/-- One after the other is laid out. -/
theorem append (h : Lays anchors content seen seen₁ names names₁ start new bound spells)
    (h' : Lays anchors content seen₁ seen₂ names₁ names₂ (start + new.length) more bound spells') :
    Lays anchors content seen seen₂ names names₂ start (new ++ more) bound
      fun ns ↦ spells ns ∧ spells' ns where
  known := h'.known
  grown a n hn := h'.grown a n (h.grown a n hn)
  spells ns hns closed := by
    obtain ⟨first, second⟩ := hns.append
    obtain ⟨spelled, closed₁⟩ := h.spells ns first closed
    obtain ⟨spelled', closed₂⟩ := h'.spells ns second fun k hk less ↦
      (closed₁ k hk).elim (fun before ↦ (closed k before less).grow h.grown) id
    refine ⟨⟨spelled, spelled'⟩, fun k hk ↦ ?_⟩
    rcases closed₂ k hk with before | after
    · exact (closed₁ k before).imp id (IsClosed.grow · h'.grown)
    · exact .inr after

/-- A node is laid out before its parts. It is not complete while they are laid out, but then it is
deeper than they are. -/
theorem node {node : Node} (known : AreKnown anchors seen names)
    (fresh : ∀ k, keyOf v = some k → k ∉ seen)
    (contents : ∀ k, keyOf v = some k → v.anonymous = content k)
    (parts : Lays anchors content ((keyOf v).toList ++ seen) seen'
      (entitle (title anchors (keyOf v)) start names) names' (start + 1) new v.depth spells)
    (complete : ∀ ns : Nodes, ns.node start = node → spells ns → ns.Spells v start) :
    Lays anchors content seen seen' names names' start (node :: new) (v.depth + 1)
      (·.Spells v start) where
  known := parts.known
  grown a n hn := parts.grown a n (lookup_entitle known fresh start hn)
  spells ns hns closed := by
    obtain ⟨here, rest⟩ := hns.cons
    obtain ⟨spelled, closed'⟩ := parts.spells ns rest fun k hk less ↦ by
      rw [List.mem_append, Option.mem_toList] at hk
      rcases hk with self | before
      · have same := contents k self
        rw [← same, Value.depth_anonymous] at less
        exact absurd less (Nat.lt_irrefl _)
      · exact (closed k before (Nat.lt_succ_of_lt less)).grow fun a n ↦
          lookup_entitle known fresh start
    have whole := complete ns here spelled
    refine ⟨whole, fun k hk ↦ ?_⟩
    rcases closed' k hk with before | after
    · rw [List.mem_append, Option.mem_toList] at before
      rcases before with self | before
      · refine .inr fun a ha ↦ ⟨start, parts.grown a start ?_, whole.of_anonymous ?_⟩
        · rw [self, ha]
          simp [entitle]
        · have same := contents k self
          rw [← same, Value.anonymous_anonymous]
      · exact .inl before
    · exact .inr after

end Lays

/-- The names of unknown kinds are those of nodes that are not known. -/
theorem kindOf_of_mem : ∀ tag ∈ unknownNames, kindOf tag = .other := by
  decide +kernel

/-- What is written for an atom of an unknown kind is laid out behind a node of such a kind. -/
private theorem exists_lay_ofAtom {a : Atom} {key : Option ObjectKey} {f : Form}
    (unknown : a.isUnknown = true) (written : ofAtom key a = .ok f)
    (titled : entitle? anchors key start names = some names') :
    ∃ parts new, f.lay anchors names start = some (start, ⟨.other, parts⟩ :: new, names') := by
  cases a with
  | bytes growable content =>
    cases growable with
    | false => cases unknown
    | true =>
      obtain rfl := Except.ok.inj written
      rw [lay, titled, kindOf_of_mem (callTag "builtins.bytearray") (by decide)]
      split <;> exact ⟨_, _, rfl⟩
  | decimal d =>
    obtain rfl := Except.ok.inj written
    rw [lay, titled, kindOf_of_mem (callTag "decimal.Decimal") (by decide)]
    exact ⟨_, _, rfl⟩
  | uuid u =>
    obtain rfl := Except.ok.inj written
    rw [lay, titled, kindOf_of_mem "python/object:uuid.UUID" (by decide)]
    exact ⟨_, _, rfl⟩
  | _ => cases unknown

private theorem lay_seq_eq {key : Option ObjectKey} {fs : List Form} {ms : List Nat} (tag : String)
    (titled : entitle? anchors key start names = some names₁)
    (laid : layItems anchors names₁ (start + 1) fs = some (ms, new, names')) :
    (Form.seq key tag fs).lay anchors names start =
      some (start, ⟨kindOf tag, .seq ms⟩ :: new, names') := by
  rw [lay, titled]
  simp only [Option.bind_eq_bind, Option.bind_some, laid]
  rfl

private theorem lay_map_eq {key : Option ObjectKey} {fs : List (Form × Form)}
    {ms : List (Nat × Nat)} (tag : String) (titled : entitle? anchors key start names = some names₁)
    (laid : layEntries anchors names₁ (start + 1) fs = some (ms, new, names')) :
    (Form.map key tag fs).lay anchors names start =
      some (start, ⟨kindOf tag, .map ms⟩ :: new, names') := by
  rw [lay, titled]
  simp only [Option.bind_eq_bind, Option.bind_some, laid]
  rfl

private theorem mem_references_ofSeq {key : Option ObjectKey} {kind : SeqKind} {fs : List Form}
    {k : ObjectKey} (h : k ∈ itemReferences fs) : k ∈ (ofSeq key kind fs).references := by
  cases kind with
  | list => exact h
  | tuple => exact h
  | frozenset => exact List.mem_append_left _ h
  | set =>
    show k ∈ entryReferences (fs.map fun f ↦ (f, plain "null" "null"))
    induction fs with
    | nil => exact h
    | cons f fs ih =>
      rw [List.map_cons, entryReferences, List.mem_append, List.mem_append]
      rw [itemReferences, List.mem_append] at h
      exact h.imp .inl ih

/-- What is written for a value is laid out, and spells the value. -/
def IsLaid (anchors : List ObjectKey) (content : ObjectKey → Value) (seen seen' : List ObjectKey)
    (names : Names) (start : Nat) (v : Value) (f : Form) : Prop :=
  ∃ n new names', f.lay anchors names start = some (n, new, names') ∧
    Lays anchors content seen seen' names names' start new (v.depth + 1) (·.Spells v n)

/-- A reference to an object that was written before is laid out as the node of the object. -/
private theorem isLaid_again {k : ObjectKey} (own : ∀ k, keyOf v = some k → v.anonymous = content k)
    (known : AreKnown anchors seen names) (hk : keyOf v = some k) (mem : k ∈ seen)
    (refers : k ∈ anchors) (start : Nat) :
    IsLaid anchors content seen seen names start v (.again k) := by
  have same := own k hk
  obtain ⟨a, ha⟩ := exists_title refers
  obtain ⟨n, hn⟩ := Option.isSome_iff_exists.mp ((known k a ha).mpr mem)
  refine ⟨n, [], names, ?_, known, fun _ _ ↦ id, fun ns _ closed ↦ ⟨?_, fun _ ↦ .inl⟩⟩
  · show (names.lookup ((title anchors (some k)).getD "")).bind _ = _
    rw [ha, Option.getD_some, hn]
    rfl
  · obtain ⟨m, hm, spelled⟩ := closed k mem (by
      rw [← same, Value.depth_anonymous]
      exact Nat.lt_succ_self _) a ha
    obtain rfl : n = m := Option.some.inj (hn.symm.trans hm)
    exact spelled.of_anonymous (by rw [← same, Value.anonymous_anonymous])

section First

variable (known : AreKnown anchors seen names) (fresh : ∀ k, keyOf v = some k → k ∉ seen)
  (own : ∀ k, keyOf v = some k → v.anonymous = content k)

include known fresh own

/-- An atom that was not written before is laid out. -/
private theorem isLaid_atom {id : Identity} {a : Atom} {f : Form} (hv : v = .atom id a)
    (part : IsWritten v) (written : ofAtom (keyOf v) a = .ok f) (start : Nat) :
    IsLaid anchors content seen ((keyOf v).toList ++ seen) names start v f := by
  have titled := known.entitle?_eq fresh start
  have known' : AreKnown anchors ((keyOf v).toList ++ seen)
      (entitle (title anchors (keyOf v)) start names) := known.entitle start
  have none (ns : Nodes) : ns.SpellsItems [] [] := trivial
  subst hv
  rcases part with ⟨tag, text, scalar⟩ | unknown
  · rw [scalar.form] at written
    obtain rfl := Except.ok.inj written
    refine ⟨start, [⟨kindOf tag, .scalar text⟩], _, ?_,
      Lays.node known fresh own (.nil known' (start + 1) [] _ none) fun ns here _ ↦
        .inl ⟨scalar.isUnknown_eq, tag, text, here, scalar.reads⟩⟩
    rw [lay, titled]
    rfl
  · obtain ⟨ps, new, laid⟩ := exists_lay_ofAtom unknown written titled
    refine ⟨start, _, _, laid, Lays.node known fresh own (.nil known' (start + 1) new _ none)
      fun ns here _ ↦ .inr ⟨unknown, ?_⟩⟩
    rw [Nodes.tag, here]

/-- A sequence that was not written before is laid out if its members are, wherever these start. -/
private theorem isLaid_seq {id : Identity} {kind : SeqKind} {items : List Value} {fs : List Form}
    (hv : v = .seq id kind items) (part : IsWritten v) (laid : ∀ start', ∃ ms new names',
      layItems anchors (entitle (title anchors (keyOf v)) start names) start' fs =
        some (ms, new, names') ∧
      Lays anchors content ((keyOf v).toList ++ seen) seen'
        (entitle (title anchors (keyOf v)) start names) names' start' new
        (Value.depthItems items + 1) (·.SpellsItems items ms)) :
    IsLaid anchors content seen seen' names start v (ofSeq (keyOf v) kind fs) := by
  have titled := known.entitle?_eq fresh start
  subst hv
  cases kind with
  | list =>
    obtain ⟨ms, new, names', laid, lays⟩ := laid (start + 1)
    exact ⟨start, _, names', lay_seq_eq "seq" titled laid,
      Lays.node known fresh own lays fun ns here spelled ↦ .inl ⟨rfl, ms, here, spelled⟩⟩
  | tuple =>
    obtain ⟨ms, new, names', laid, lays⟩ := laid (start + 1)
    refine ⟨start, _, names', lay_seq_eq "python/tuple" titled laid,
      Lays.node known fresh own lays fun ns here _ ↦ .inr ⟨rfl, ?_⟩⟩
    rw [Nodes.tag, here]
    exact kindOf_of_mem "python/tuple" (by decide)
  | frozenset =>
    -- The members stand in a list of their own within the node of the set.
    obtain ⟨ms, new, names', laid, lays⟩ := laid (start + 2)
    have unnamed (n : Nat) (names : Names) : entitle? anchors none n names = some names := rfl
    have inner : layItems anchors (entitle (title anchors (keyOf (.seq id .frozenset items))) start
        names) (start + 1) [.seq none "seq" fs] =
        some ([start + 1], ⟨kindOf "seq", .seq ms⟩ :: new, names') := by
      simp only [layItems, lay_seq_eq "seq" (unnamed _ _) laid, Option.bind_eq_bind,
        Option.bind_some, List.append_nil]
      rfl
    have wider := lays.mono (Nat.le_succ (Value.depthItems items + 1))
    refine ⟨start, _, names', lay_seq_eq (callTag "builtins.frozenset") titled inner,
      Lays.node known fresh own (wider.cons _) fun ns here _ ↦ .inr ⟨rfl, ?_⟩⟩
    rw [Nodes.tag, here]
    exact kindOf_of_mem (callTag "builtins.frozenset") (by decide)
  | set =>
    rcases part with part | unknown
    · cases part
    · cases unknown

end First

mutual

/-- What is written for a value is laid out, and spells the value. -/
theorem exists_lay (v : Value) {f : Form} {seen seen' : List ObjectKey} {names : Names}
    (parts : v.Every IsWritten) (contents : HasContents content v)
    (written : ofValue seen v = .ok (f, seen')) (refers : ∀ k ∈ f.references, k ∈ anchors)
    (known : AreKnown anchors seen names) (start : Nat) :
    IsLaid anchors content seen seen' names start v f := by
  have own := contents.self
  rw [ofValue] at written
  split at written
  · next again =>
    rw [Option.any_eq_true] at again
    obtain ⟨k, hk, mem⟩ := again
    rw [hk] at written
    obtain ⟨rfl, rfl⟩ := Prod.mk.inj (Except.ok.inj written)
    exact isLaid_again own known hk (by simpa using mem) (refers k List.mem_cons_self) start
  · next first =>
    have fresh : ∀ k, keyOf v = some k → k ∉ seen := fun k hk mem ↦ first (by
      rw [hk]
      simpa using mem)
    have known' : AreKnown anchors ((keyOf v).toList ++ seen)
        (entitle (title anchors (keyOf v)) start names) := known.entitle start
    cases v with
    | atom id a =>
      obtain ⟨g, hg, written⟩ := (Success.map_eq_ok _ _ _).mp written
      obtain ⟨rfl, rfl⟩ := Prod.mk.inj written
      exact isLaid_atom known fresh own rfl parts hg start
    | seq id kind items =>
      obtain ⟨⟨fs, last⟩, hfs, written⟩ := (Success.map_eq_ok _ _ _).mp written
      obtain ⟨rfl, rfl⟩ := Prod.mk.inj written
      exact isLaid_seq known fresh own rfl parts.1 fun start' ↦
        exists_layItems items parts.2 contents.2 hfs
          (fun k hk ↦ refers k (mem_references_ofSeq hk)) known' start'
    | dict id entries =>
      obtain ⟨part, parts⟩ := parts
      have atoms := (part.resolve_right Bool.false_ne_true).1
      obtain ⟨⟨fs, last⟩, hfs, written⟩ := (Success.map_eq_ok _ _ _).mp written
      obtain ⟨rfl, rfl⟩ := Prod.mk.inj written
      obtain ⟨ms, new, names', laid, lays⟩ :=
        exists_layEntries entries atoms parts contents.2 hfs refers known' (start + 1)
      exact ⟨start, _, names', lay_map_eq "map" (known.entitle?_eq fresh start) laid,
        Lays.node known fresh own lays fun ns here spelled ↦ ⟨ms, here, spelled⟩⟩
    | loop id kind =>
      rcases parts with part | unknown
      · exact part.elim
      · cases unknown
termination_by structural v

/-- What is written for values is laid out, and spells the values. -/
theorem exists_layItems (vs : List Value) {fs : List Form} {seen seen' : List ObjectKey}
    {names : Names} (parts : Value.EveryMember IsWritten vs)
    (contents : Value.EveryMember (fun u ↦ ∀ k, keyOf u = some k → u.anonymous = content k) vs)
    (written : ofItems seen vs = .ok (fs, seen')) (refers : ∀ k ∈ itemReferences fs, k ∈ anchors)
    (known : AreKnown anchors seen names) (start : Nat) :
    ∃ ms new names', layItems anchors names start fs = some (ms, new, names') ∧
      Lays anchors content seen seen' names names' start new (Value.depthItems vs + 1)
        (·.SpellsItems vs ms) := by
  cases vs with
  | nil =>
    obtain ⟨rfl, rfl⟩ := Prod.mk.inj (Except.ok.inj written)
    exact ⟨[], [], names, rfl, .nil known start [] _ fun _ ↦ trivial⟩
  | cons v vs =>
    obtain ⟨⟨f, seen₁⟩, hf, written⟩ := (Success.bind_eq_ok _ _ _).mp written
    obtain ⟨⟨fs, seen₂⟩, hfs, written⟩ := (Success.bind_eq_ok _ _ _).mp written
    obtain ⟨rfl, rfl⟩ := Prod.mk.inj (Except.ok.inj written)
    rw [itemReferences, List.forall_mem_append] at refers
    obtain ⟨n, new, names₁, laid, lays⟩ := exists_lay v parts.1 contents.1 hf refers.1 known start
    obtain ⟨ms, more, names₂, laid', lays'⟩ := exists_layItems vs parts.2 contents.2 hfs refers.2
      lays.known (start + new.length)
    refine ⟨n :: ms, new ++ more, names₂, ?_, (lays.mono ?_).append (lays'.mono ?_)⟩
    · rw [layItems]
      simp only [Option.bind_eq_bind, laid, Option.bind_some, laid']
      rfl
    · exact Nat.succ_le_succ (Nat.le_max_left _ _)
    · exact Nat.succ_le_succ (Nat.le_max_right _ _)
termination_by structural vs

/-- What is written for entries is laid out, and spells the entries. -/
theorem exists_layEntries (es : List (Value × Value)) {fs : List (Form × Form)}
    {seen seen' : List ObjectKey} {names : Names}
    (atoms : ∀ e ∈ es, IsKeyAtom e.1) (parts : Value.EveryEntry IsWritten es)
    (contents : Value.EveryEntry (fun u ↦ ∀ k, keyOf u = some k → u.anonymous = content k) es)
    (written : ofEntries seen es = .ok (fs, seen'))
    (refers : ∀ k ∈ entryReferences fs, k ∈ anchors) (known : AreKnown anchors seen names)
    (start : Nat) : ∃ ms new names', layEntries anchors names start fs = some (ms, new, names') ∧
      Lays anchors content seen seen' names names' start new (Value.depthEntries es + 1)
        (·.SpellsEntries es ms) := by
  cases es with
  | nil =>
    obtain ⟨rfl, rfl⟩ := Prod.mk.inj (Except.ok.inj written)
    exact ⟨[], [], names, rfl, .nil known start [] _ fun _ ↦ trivial⟩
  | cons e es =>
    obtain ⟨k, v⟩ := e
    rw [List.forall_mem_cons] at atoms
    obtain ⟨⟨f, seen₁⟩, hf, written⟩ := (Success.bind_eq_ok _ _ _).mp written
    obtain ⟨⟨g, seen₂⟩, hg, written⟩ := (Success.bind_eq_ok _ _ _).mp written
    obtain ⟨⟨fs, seen₃⟩, hfs, written⟩ := (Success.bind_eq_ok _ _ _).mp written
    obtain ⟨rfl, rfl⟩ := Prod.mk.inj (Except.ok.inj written)
    rw [entryReferences, List.forall_mem_append, List.forall_mem_append] at refers
    obtain ⟨m, newk, names₁, laidk, laysk⟩ :=
      exists_lay k parts.1.1 contents.1.1 hf refers.1.1 known start
    obtain ⟨n, newv, names₂, laidv, laysv⟩ := exists_lay v parts.1.2 contents.1.2 hg refers.1.2
      laysk.known (start + newk.length)
    obtain ⟨ms, more, names₃, laid, lays⟩ := exists_layEntries es atoms.2 parts.2 contents.2 hfs
      refers.2 laysv.known (start + newk.length + newv.length)
    have flat : k.depth = 0 := by
      obtain ⟨⟨id, a, rfl, known⟩, -⟩ := atoms
      rw [Value.depth, Atom.depth, known]
      rfl
    have key := laysk.mono (show k.depth + 1 ≤ Value.depthEntries ((k, v) :: es) + 1 by omega)
    have value := laysv.mono (Nat.succ_le_succ (Nat.le_max_left v.depth (Value.depthEntries es)))
    have rest := lays.mono (Nat.succ_le_succ (Nat.le_max_right v.depth (Value.depthEntries es)))
    rw [Nat.add_assoc, ← List.length_append] at rest
    refine ⟨(m, n) :: ms, newk ++ (newv ++ more), names₃, ?_, ?_⟩
    · rw [layEntries]
      simp only [Option.bind_eq_bind, laidk, Option.bind_some, laidv, laid]
      rfl
    · rw [← List.append_assoc]
      exact (key.append value).append rest
termination_by structural es

end

end Layouts

end Yaml

end EntityGraph
