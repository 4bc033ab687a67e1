import EntityGraph.Proofs.ReadBack.Objects
import EntityGraph.Proofs.ReadBack.Yaml.Making

/-!
# Values put together

What is found for a node that spells a value has the content of that value. A node is never inside
of itself, as the values that the nodes around it spell are deeper. Every collection that is found
is an object of the document. A node that spells a value with a part of an unknown kind has none.
-/

namespace EntityGraph.Yaml

open Form

namespace Nodes

variable {ns : Nodes}

/-- An atom that can be read back is written without collections. -/
theorem depth_of_isPart {id : Identity} {a : Atom} (h : IsPart (.atom id a)) :
    (Value.atom id a).depth = 0 := by
  have known : a.isUnknown = false := h.isUnknown_eq
  rw [Value.depth, Atom.depth, known]
  rfl

mutual

/-- The values that a node spells have one depth, if they can be read back. -/
theorem Spells.depth_eq {v w : Value} {n : Nat} (h : ns.Spells v n) (h' : ns.Spells w n)
    (parts : v.Every IsPart) (parts' : w.Every IsPart) : v.depth = w.depth := by
  cases v with
  | atom id a =>
    obtain ⟨tag, text, c, node, -⟩ := h.isKey parts.self.isUnknown_eq
    cases w with
    | atom jd b => rw [depth_of_isPart parts, depth_of_isPart parts']
    | seq jd kind others =>
      obtain ⟨ms, node', -⟩ := h'.isList parts'.self.isUnknown_eq
      cases congrArg Node.parts (node.symm.trans node')
    | dict jd others =>
      obtain ⟨ms, node', -⟩ := h'
      cases congrArg Node.parts (node.symm.trans node')
    | loop jd kind => exact h'.elim
  | seq id kind items =>
    obtain rfl : kind = .list := parts.1
    obtain ⟨ms, node, spelled⟩ := h.isList rfl
    cases w with
    | atom jd b =>
      obtain ⟨tag, text, c, node', -⟩ := h'.isKey parts'.self.isUnknown_eq
      cases congrArg Node.parts (node.symm.trans node')
    | seq jd kind others =>
      obtain rfl : kind = .list := parts'.1
      obtain ⟨ms', node', spelled'⟩ := h'.isList rfl
      cases congrArg Node.parts (node.symm.trans node')
      rw [Value.depth, Value.depth, SpellsItems.depth_eq spelled spelled' parts.2 parts'.2]
    | dict jd others =>
      obtain ⟨ms, node', -⟩ := h'
      cases congrArg Node.parts (node.symm.trans node')
    | loop jd kind => exact h'.elim
  | dict id entries =>
    obtain ⟨ms, node, spelled⟩ := h
    cases w with
    | atom jd b =>
      obtain ⟨tag, text, c, node', -⟩ := h'.isKey parts'.self.isUnknown_eq
      cases congrArg Node.parts (node.symm.trans node')
    | seq jd kind others =>
      obtain ⟨ms, node', -⟩ := h'.isList parts'.self.isUnknown_eq
      cases congrArg Node.parts (node.symm.trans node')
    | dict jd others =>
      obtain ⟨ms', node', spelled'⟩ := h'
      cases congrArg Node.parts (node.symm.trans node')
      rw [Value.depth, Value.depth, SpellsEntries.depth_eq spelled spelled' parts.2 parts'.2]
    | loop jd kind => exact h'.elim
  | loop id kind => exact h.elim
termination_by structural v

/-- The values that nodes spell have one depth, place by place. -/
theorem SpellsItems.depth_eq {vs ws : List Value} {ms : List Nat} (h : ns.SpellsItems vs ms)
    (h' : ns.SpellsItems ws ms) (parts : Value.EveryMember IsPart vs)
    (parts' : Value.EveryMember IsPart ws) : Value.depthItems vs = Value.depthItems ws := by
  cases vs with
  | nil =>
    cases ms with
    | nil =>
      cases ws with
      | nil => rfl
      | cons w ws => exact h'.elim
    | cons m ms => exact h.elim
  | cons v vs =>
    cases ms with
    | nil => exact h.elim
    | cons m ms =>
      cases ws with
      | nil => exact h'.elim
      | cons w ws =>
        rw [Value.depthItems, Value.depthItems, Spells.depth_eq h.1 h'.1 parts.1 parts'.1,
          SpellsItems.depth_eq h.2 h'.2 parts.2 parts'.2]
termination_by structural vs

/-- The values of the entries that nodes spell have one depth, place by place. -/
theorem SpellsEntries.depth_eq {es fs : List (Value × Value)} {ms : List (Nat × Nat)}
    (h : ns.SpellsEntries es ms) (h' : ns.SpellsEntries fs ms) (parts : Value.EveryEntry IsPart es)
    (parts' : Value.EveryEntry IsPart fs) : Value.depthEntries es = Value.depthEntries fs := by
  cases es with
  | nil =>
    cases ms with
    | nil =>
      cases fs with
      | nil => rfl
      | cons f fs => exact h'.elim
    | cons m ms => exact h.elim
  | cons e es =>
    cases ms with
    | nil => exact h.elim
    | cons m ms =>
      cases fs with
      | nil => exact h'.elim
      | cons f fs =>
        rw [Value.depthEntries, Value.depthEntries,
          Spells.depth_eq h.1.2 h'.1.2 parts.1.2 parts'.1.2,
          SpellsEntries.depth_eq h.2 h'.2 parts.2 parts'.2]
termination_by structural es

end

/-- A node is not among the members of a list that it spells. -/
theorem SpellsItems.not_mem {v : Value} {n : Nat} (spelled : ns.Spells v n)
    (parts : v.Every IsPart) {vs : List Value} {ms : List Nat} (h : ns.SpellsItems vs ms)
    (members : Value.EveryMember IsPart vs) (less : Value.depthItems vs < v.depth) : n ∉ ms := by
  induction vs generalizing ms with
  | nil =>
    cases ms with
    | nil => exact List.not_mem_nil
    | cons m ms => exact h.elim
  | cons u vs ih =>
    cases ms with
    | nil => exact h.elim
    | cons m ms =>
      rw [Value.depthItems] at less
      rw [List.mem_cons, not_or]
      refine ⟨?_, ih h.2 members.2 (by omega)⟩
      rintro rfl
      have deep := h.1.depth_eq spelled members.1 parts
      omega

/-- A node is not among the values of a mapping that it spells. -/
theorem SpellsEntries.not_mem {v : Value} {n : Nat} (spelled : ns.Spells v n)
    (parts : v.Every IsPart) {es : List (Value × Value)} {ms : List (Nat × Nat)}
    (h : ns.SpellsEntries es ms) (members : Value.EveryEntry IsPart es)
    (less : Value.depthEntries es < v.depth) : n ∉ ms.map (·.2) := by
  induction es generalizing ms with
  | nil =>
    cases ms with
    | nil => exact List.not_mem_nil
    | cons m ms => exact h.elim
  | cons e es ih =>
    cases ms with
    | nil => exact h.elim
    | cons m ms =>
      rw [Value.depthEntries] at less
      rw [List.map_cons, List.mem_cons, not_or]
      refine ⟨?_, ih h.2 members.2 (by omega)⟩
      rintro rfl
      have deep := h.1.2.depth_eq spelled members.1.2 parts
      omega

/-- A node that spells a collection is one of those of the document. -/
private theorem Spells.lt_size {v : Value} {n : Nat} (h : ns.Spells v n) (parts : v.Every IsPart)
    (deep : 0 < v.depth) : n < ns.size := by
  by_contra outside
  have empty : ns.node n = .empty := by
    rw [Nodes.node, Array.getElem?_eq_none (Nat.le_of_not_lt outside)]
    rfl
  cases v with
  | atom id a =>
    rw [depth_of_isPart parts] at deep
    exact absurd deep (Nat.lt_irrefl 0)
  | seq id kind items =>
    obtain ⟨ms, node, -⟩ := h.isList parts.self.isUnknown_eq
    cases empty.symm.trans node
  | dict id entries =>
    obtain ⟨ms, node, -⟩ := h
    cases empty.symm.trans node
  | loop id kind => exact h.elim

/-- The nodes around a value of some depth are different ones, which spell deeper values. -/
structure Surround (ns : Nodes) (around : List Nat) (depth : Nat) : Prop where
  deeper : ∀ k ∈ around, ∃ u : Value, u.Every IsPart ∧ ns.Spells u k ∧ depth < u.depth
  nodup : around.Nodup

namespace Surround

variable {around : List Nat} {depth : Nat}

private theorem length_le (h : ns.Surround around depth) : around.length ≤ ns.size := by
  refine length_le_of_nodup h.nodup fun k hk ↦ ?_
  obtain ⟨u, parts, spelled, deep⟩ := h.deeper k hk
  exact spelled.lt_size parts (Nat.zero_lt_of_lt deep)

/-- A node is not among those around it. -/
theorem not_mem {v : Value} {n : Nat} (h : ns.Surround around v.depth) (spelled : ns.Spells v n)
    (parts : v.Every IsPart) : n ∉ around := by
  intro mem
  obtain ⟨u, parts', spelled', deep⟩ := h.deeper n mem
  rw [spelled.depth_eq spelled' parts parts'] at deep
  exact Nat.lt_irrefl _ deep

private theorem cons {v : Value} {n : Nat} (h : ns.Surround around v.depth)
    (spelled : ns.Spells v n)
    (parts : v.Every IsPart) (less : depth < v.depth) : ns.Surround (n :: around) depth where
  deeper := List.forall_mem_cons.mpr ⟨⟨v, parts, spelled, less⟩, fun k hk ↦ by
    obtain ⟨u, parts, spelled, deep⟩ := h.deeper k hk
    exact ⟨u, parts, spelled, Nat.lt_trans less deep⟩⟩
  nodup := List.nodup_cons.mpr ⟨h.not_mem spelled parts, h.nodup⟩

/-- The nodes are around a value that is less deep. -/
theorem mono (h : ns.Surround around depth) {less : Nat} (le : less ≤ depth) :
    ns.Surround around less where
  deeper k hk := by
    obtain ⟨u, parts, spelled, deep⟩ := h.deeper k hk
    exact ⟨u, parts, spelled, Nat.lt_of_le_of_lt le deep⟩
  nodup := h.nodup

end Surround

end Nodes

/-! ### Values of nodes -/

/-- A value has the content of another, and is made of objects of a document. -/
structure IsCopy (number : Nat) (x v : Value) : Prop where
  content : x.anonymous = v.anonymous
  made : x.Every (Value.IsOfDocument number)

variable {ns : Nodes} {number : Nat} {w : Work}

/-- The value of a node that spells an atom is a copy of the atom. -/
theorem isCopy_of_scalar {id : Identity} {a : Atom} {n : Nat} {x : Value}
    (known : a.isUnknown = false) (spelled : ns.Spells (.atom id a) n)
    (made : Making.scalar number ns n = .ok x) :
    IsCopy number x (.atom id a) := by
  obtain ⟨tag, text, node, reads⟩ := spelled.scalar known
  rw [Making.scalar_eq node reads] at made
  obtain rfl := Except.ok.inj made
  refine ⟨rfl, ?_, fun bare ↦ ?_, rfl⟩
  · show (if a.isObject then _ else _) = _ ∨ ∃ m, (if a.isObject then _ else _) = _
    split
    · exact .inr ⟨n, rfl⟩
    · exact .inl rfl
  · cases a with
    | null => rfl
    | text s => rfl
    | _ => simp [Value.isNull, Value.text?] at bare

/-- The values of two nodes that spell atoms are told apart if the atoms are. -/
private theorem same_eq_false_of_scalar {k l : Value} {m n : Nat} {x y : Value}
    (atoms : ∃ id a, k = .atom id a ∧ a.isUnknown = false ∧ a.isElusive = false)
    (atoms' : IsKeyAtom l) (spelled : ns.Spells k m) (spelled' : ns.Spells l n)
    (made : Making.scalar number ns m = .ok x) (made' : Making.scalar number ns n = .ok y)
    (h : l.anonymous.same k.anonymous = false) : y.same x = false := by
  obtain ⟨id, a, rfl, told, known⟩ := atoms
  obtain ⟨jd, b, rfl, told'⟩ := atoms'
  obtain ⟨tag, text, node, reads⟩ := spelled.scalar told
  obtain ⟨tag', text', node', reads'⟩ := spelled'.scalar told'
  rw [Making.scalar_eq node reads] at made
  rw [Making.scalar_eq node' reads'] at made'
  obtain rfl := Except.ok.inj made
  obtain rfl := Except.ok.inj made'
  have differ : b.equals a = false := by simpa [Value.anonymous, Value.same, Identity.same] using h
  rw [Value.same, differ, Bool.or_false, ← Bool.not_eq_true]
  intro same
  simp only [Identity.same, Bool.and_eq_true, decide_eq_true_eq] at same
  obtain ⟨same, object⟩ := same
  -- one node spells one atom, and an atom that is not elusive equals itself
  have one : n = m := by
    split at same
    · split at same
      · exact (Identity.node.inj same).2
      · cases same
    · next plain => exact absurd (if_neg plain) object
  subst one
  obtain ⟨kind, text⟩ := Node.mk.inj (node.symm.trans node')
  obtain rfl := Parts.scalar.inj text
  have atom := (reads .fresh).symm.trans (kind ▸ reads' .fresh)
  obtain rfl : a = b := (Value.atom.inj (Except.ok.inj atom)).2
  rw [Atom.equals_self known] at differ
  cases differ

namespace Fits

variable {made : List (Nat × Made)} {n : Nat} {m : Made} (h : Fits ns number made n m)

include h

private theorem exists_whole (key : ns.IsKey n) :
    ∃ x, m = .whole x ∧ Making.scalar number ns n = .ok x := by
  obtain ⟨tag, text, a, node, -⟩ := key
  cases m with
  | whole x => exact ⟨x, rfl, h.2⟩
  | list items => cases congrArg Node.parts (node.symm.trans h.1)
  | dict es =>
    obtain ⟨ms, node', -⟩ := h
    cases congrArg Node.parts (node.symm.trans node')
  | _ => exact h.elim

private theorem tag_ne : ns.tag n ≠ .other := by
  cases m with
  | whole x =>
    intro other
    cases (Making.scalar_eq_error other).symm.trans h.2
  | list items =>
    intro other
    rw [Nodes.tag, h.1] at other
    cases other
  | dict es =>
    obtain ⟨ms, node, -⟩ := h
    intro other
    rw [Nodes.tag, node] at other
    cases other
  | _ => exact h.elim

/-- What fits a list has the members of the list. -/
theorem list {ms : List Nat} (node : ns.node n = ⟨.seq, .seq ms⟩) :
    m = .list ms ∧ ∀ i ∈ ms, IsFound made i := by
  cases m with
  | whole x =>
    have scalar := h.1
    rw [Nodes.tag, node] at scalar
    cases scalar
  | list items =>
    cases node.symm.trans h.1
    exact ⟨rfl, h.2⟩
  | dict es =>
    obtain ⟨ms', node', -⟩ := h
    cases node.symm.trans node'
  | _ => exact h.elim

/-- What fits a mapping has the entries of the mapping. -/
theorem exists_dict {ms : List (Nat × Nat)} (node : ns.node n = ⟨.map, .map ms⟩) :
    ∃ es, m = .dict es ∧ List.Forall₂ (fun e m ↦
      Making.scalar number ns m.1 = .ok e.1 ∧ e.2 = m.2 ∧ IsFound made m.2) es ms := by
  cases m with
  | whole x =>
    have scalar := h.1
    rw [Nodes.tag, node] at scalar
    cases scalar
  | list items => cases node.symm.trans h.1
  | dict es =>
    obtain ⟨ms', node', entries⟩ := h
    cases node.symm.trans node'
    exact ⟨es, rfl, entries⟩
  | _ => exact h.elim

end Fits

/-! ### Unknown kinds -/

variable {made : List (Nat × Made)}

mutual

/-- If something is found for a node that spells a value, the value is of known kinds. -/
theorem every_isPart_of_isFound
    (fits : ∀ n m, made.lookup n = some m → Fits ns number made n m) (v : Value)
    (parts : v.Every IsWritten) {n : Nat} (spelled : ns.Spells v n) (found : IsFound made n) :
    v.Every IsPart := by
  obtain ⟨m, hm⟩ := Option.isSome_iff_exists.mp found
  have fit := fits n m hm
  cases v with
  | atom id a =>
    rcases spelled with ⟨known, -⟩ | ⟨-, other⟩
    · exact parts.self.isPart known
    · exact absurd other fit.tag_ne
  | seq id kind items =>
    rcases spelled with ⟨known, ms, node, members⟩ | ⟨-, other⟩
    · exact ⟨known, everyMember_isPart_of_isFound fits items parts.2 members (fit.list node).2⟩
    · exact absurd other fit.tag_ne
  | dict id entries =>
    obtain ⟨ms, node, members⟩ := spelled
    obtain ⟨es, -, founds⟩ := fit.exists_dict node
    have part := parts.1.isPart rfl
    exact ⟨part, everyEntry_isPart_of_isFound fits entries part.1 parts.2 members founds⟩
  | loop id kind => exact spelled.elim
termination_by structural v

/-- If something is found for nodes that spell values, the values are of known kinds. -/
theorem everyMember_isPart_of_isFound
    (fits : ∀ n m, made.lookup n = some m → Fits ns number made n m) (vs : List Value)
    (parts : Value.EveryMember IsWritten vs) {ms : List Nat} (spelled : ns.SpellsItems vs ms)
    (found : ∀ m ∈ ms, IsFound made m) : Value.EveryMember IsPart vs := by
  cases vs with
  | nil => trivial
  | cons v vs =>
    cases ms with
    | nil => exact spelled.elim
    | cons m ms =>
      rw [List.forall_mem_cons] at found
      exact ⟨every_isPart_of_isFound fits v parts.1 spelled.1 found.1,
        everyMember_isPart_of_isFound fits vs parts.2 spelled.2 found.2⟩
termination_by structural vs

/-- If something is found for nodes that spell entries, the entries are of known kinds. -/
theorem everyEntry_isPart_of_isFound
    (fits : ∀ n m, made.lookup n = some m → Fits ns number made n m) (es : List (Value × Value))
    (atoms : ∀ e ∈ es, IsKeyAtom e.1) (parts : Value.EveryEntry IsWritten es)
    {ms : List (Nat × Nat)} (spelled : ns.SpellsEntries es ms) {ks : List (Value × Nat)}
    (found : List.Forall₂ (fun k m ↦ Making.scalar number ns m.1 = .ok k.1 ∧ k.2 = m.2 ∧
      IsFound made m.2) ks ms) : Value.EveryEntry IsPart es := by
  cases es with
  | nil => trivial
  | cons e es =>
    cases found with
    | nil => exact spelled.elim
    | cons first rest =>
      rw [List.forall_mem_cons] at atoms
      have key : e.1.Every IsPart := by
        obtain ⟨⟨id, a, heq, known⟩, -⟩ := atoms
        have part := parts.1.1
        rw [heq] at part ⊢
        exact part.isPart known
      exact ⟨⟨key, every_isPart_of_isFound fits e.2 parts.1.2 spelled.1.2 first.2.2⟩,
        everyEntry_isPart_of_isFound fits es atoms.2 parts.2 spelled.2 rest⟩
termination_by structural es

end

/-! ### Copies -/

private theorem IsCopy.seq {xs vs : List Value} (h : List.Forall₂ (IsCopy number) xs vs) (n : Nat)
    (jd : Identity) (kind : SeqKind) :
    IsCopy number (.seq (.node number n) kind xs) (.seq jd kind vs) := by
  have content : Value.anonymousItems xs = Value.anonymousItems vs := by
    rw [Value.anonymousItems_eq_map, Value.anonymousItems_eq_map]
    exact (Success.map_eq_of_forall₂ h fun _ _ copy ↦ copy.content.symm).symm
  refine ⟨by rw [Value.anonymous, Value.anonymous, content], Value.isOfDocument_seq .., ?_⟩
  rw [Value.everyMember_iff]
  intro x hx
  obtain ⟨v, -, copy⟩ := Success.exists_of_forall₂ h hx
  exact copy.made

private theorem IsCopy.dict {es fs : List (Value × Value)}
    (h : List.Forall₂ (fun e f ↦ IsCopy number e.1 f.1 ∧ IsCopy number e.2 f.2) es fs) (n : Nat)
    (jd : Identity) : IsCopy number (.dict (.node number n) es) (.dict jd fs) := by
  have content : Value.anonymousEntries es = Value.anonymousEntries fs := by
    rw [Value.anonymousEntries_eq_map, Value.anonymousEntries_eq_map]
    exact (Success.map_eq_of_forall₂ h fun _ _ copy ↦ by
      rw [copy.1.content, copy.2.content]).symm
  refine ⟨by rw [Value.anonymous, Value.anonymous, content], Value.isOfDocument_dict .., ?_⟩
  rw [Value.everyEntry_iff]
  intro e he
  obtain ⟨f, -, copy⟩ := Success.exists_of_forall₂ h he
  exact ⟨copy.1.made, copy.2.made⟩

/-! ### Values of nodes -/

section Work

/-- Every key of a mapping that can be read back is an atom, which its node spells. -/
private theorem forall₂_keys {es : List (Value × Value)} (parts : Value.EveryEntry IsPart es)
    (atoms : ∀ e ∈ es, IsKeyAtom e.1) {ms : List (Nat × Nat)}
    (spelled : ns.SpellsEntries es ms) {ks : List (Value × Nat)}
    (found : List.Forall₂ (fun k m ↦ Making.scalar number ns m.1 = .ok k.1 ∧ k.2 = m.2 ∧
      IsFound w.made m.2) ks ms) :
    List.Forall₂ (fun k e ↦ ∃ m, Making.scalar number ns m = .ok k.1 ∧ ns.Spells e.1 m ∧
      ∃ id a, e.1 = .atom id a ∧ a.isUnknown = false ∧ a.isElusive = false) ks es := by
  induction es generalizing ms ks with
  | nil =>
    cases found with
    | nil => exact .nil
    | cons first rest => exact spelled.elim
  | cons e es ih =>
    cases found with
    | nil => exact spelled.elim
    | cons first rest =>
      rw [List.forall_mem_cons] at atoms
      obtain ⟨id, a, key, known⟩ := atoms.1
      have part := parts.1.1
      rw [key] at part
      obtain ⟨tag, text, scalar⟩ := part
      exact .cons ⟨_, first.1, spelled.1.1, id, a, key, known, scalar.known⟩
        (ih parts.2 atoms.2 spelled.2 rest)

private theorem pairwise_keys {es : List (Value × Value)} (parts : Value.EveryEntry IsPart es)
    (atoms : ∀ e ∈ es, IsKeyAtom e.1)
    (apart : (es.map (·.1.anonymous)).Pairwise fun k l ↦ l.same k = false) {ms : List (Nat × Nat)}
    (spelled : ns.SpellsEntries es ms) {ks : List (Value × Nat)}
    (found : List.Forall₂ (fun k m ↦ Making.scalar number ns m.1 = .ok k.1 ∧ k.2 = m.2 ∧
      IsFound w.made m.2) ks ms) :
    ks.Pairwise fun k l ↦ l.1.same k.1 = false := by
  refine Success.pairwise_of_forall₂ (forall₂_keys parts atoms spelled found)
    (List.pairwise_map.mp apart) ?_
  rintro k l e f ⟨m, made, spelled, atom⟩ ⟨n, made', spelled', jd, b, atom', known, -⟩ differ
  exact same_eq_false_of_scalar atom ⟨jd, b, atom', known⟩ spelled spelled' made made' differ

mutual

/-- The value of a node that spells a value is a copy of the value. -/
theorem isCopy_value (fits : ∀ n m, w.made.lookup n = some m → Fits ns w.document w.made n m)
    (v : Value) (parts : v.Every IsPart) {n fuel : Nat} {around : List Nat}
    (enough : ns.size < fuel + around.length) (spelled : ns.Spells v n)
    (found : IsFound w.made n) (surround : ns.Surround around v.depth) :
    IsCopy w.document (w.value fuel around n) v := by
  obtain ⟨m, hm⟩ := Option.isSome_iff_exists.mp found
  have fit := fits n m hm
  cases fuel with
  | zero =>
    have few := surround.length_le
    omega
  | succ fuel =>
    have isAround : around.contains n = false := by simpa using surround.not_mem spelled parts
    have more : ns.size < fuel + (n :: around).length := by rw [List.length_cons]; omega
    cases v with
    | atom id a =>
      have known : a.isUnknown = false := parts.self.isUnknown_eq
      obtain ⟨x, rfl, made⟩ := fit.exists_whole (spelled.isKey known)
      rw [Work.value, hm]
      exact isCopy_of_scalar known spelled made
    | seq id kind items =>
      obtain rfl : kind = .list := parts.1
      have less : Value.depthItems items < (Value.seq id .list items).depth := by
        rw [Value.depth]
        exact Nat.lt_succ_self _
      obtain ⟨ms, node, members⟩ := spelled.isList rfl
      obtain ⟨rfl, founds⟩ := fit.list node
      rw [Work.value, hm]
      simp only [isAround]
      exact .seq (areCopies_value fits items parts.2 more members founds
        (surround.cons spelled parts less)) _ _ _
    | dict id entries =>
      have less : Value.depthEntries entries < (Value.dict id entries).depth := by
        rw [Value.depth]
        exact Nat.lt_succ_self _
      obtain ⟨ms, node, members⟩ := spelled
      obtain ⟨es, rfl, founds⟩ := fit.exists_dict node
      have whole : ns.Spells (.dict id entries) n := ⟨ms, node, members⟩
      have copies := areCopies_entries fits entries parts.2 parts.1.1 more members founds
        (surround.cons whole parts less)
      rw [Work.value, hm]
      simp only [isAround, Bool.false_eq_true, if_false]
      rw [Value.ofEntries, Value.foldl_insert_of_pairwise]
      · exact .dict copies _ _
      · exact List.pairwise_map.mpr (pairwise_keys parts.2 parts.1.1 parts.1.2 members founds)
    | loop id kind => exact spelled.elim
termination_by structural v

/-- The values of nodes that spell values are copies of the values. -/
theorem areCopies_value (fits : ∀ n m, w.made.lookup n = some m → Fits ns w.document w.made n m)
    (vs : List Value) (parts : Value.EveryMember IsPart vs) {ms : List Nat}
    {fuel : Nat} {around : List Nat} (enough : ns.size < fuel + around.length)
    (spelled : ns.SpellsItems vs ms) (found : ∀ m ∈ ms, IsFound w.made m)
    (surround : ns.Surround around (Value.depthItems vs)) :
    List.Forall₂ (IsCopy w.document) (ms.map (w.value fuel around)) vs := by
  cases vs with
  | nil =>
    cases ms with
    | nil => exact .nil
    | cons m ms => exact spelled.elim
  | cons v vs =>
    cases ms with
    | nil => exact spelled.elim
    | cons m ms =>
      rw [List.forall_mem_cons] at found
      exact .cons (isCopy_value fits v parts.1 enough spelled.1 found.1
          (surround.mono (Nat.le_max_left _ _)))
        (areCopies_value fits vs parts.2 enough spelled.2 found.2
          (surround.mono (Nat.le_max_right _ _)))
termination_by structural vs

/-- The values under keys are copies. -/
theorem areCopies_entries (fits : ∀ n m, w.made.lookup n = some m → Fits ns w.document w.made n m)
    (es : List (Value × Value)) (parts : Value.EveryEntry IsPart es)
    (atoms : ∀ e ∈ es, IsKeyAtom e.1) {ms : List (Nat × Nat)} {fuel : Nat}
    {around : List Nat} (enough : ns.size < fuel + around.length)
    (spelled : ns.SpellsEntries es ms) {ks : List (Value × Nat)}
    (found : List.Forall₂ (fun k m ↦ Making.scalar w.document ns m.1 = .ok k.1 ∧ k.2 = m.2 ∧
      IsFound w.made m.2) ks ms)
    (surround : ns.Surround around (Value.depthEntries es)) :
    List.Forall₂ (fun x e ↦ IsCopy w.document x.1 e.1 ∧ IsCopy w.document x.2 e.2)
      (ks.map fun k ↦ (k.1, w.value fuel around k.2)) es := by
  cases es with
  | nil =>
    cases found with
    | nil => exact .nil
    | cons first rest => exact spelled.elim
  | cons e es =>
    cases found with
    | nil => exact spelled.elim
    | @cons k m ks ms first rest =>
      obtain ⟨x, n⟩ := k
      obtain ⟨made, rfl, found⟩ := first
      rw [List.forall_mem_cons] at atoms
      obtain ⟨id, a, key, known⟩ := atoms.1
      have spelledKey := spelled.1.1
      rw [key] at spelledKey
      refine .cons ⟨?_, isCopy_value fits e.2 parts.1.2 enough spelled.1.2 found
          (surround.mono (Nat.le_max_left _ _))⟩
        (areCopies_entries fits es parts.2 atoms.2 enough spelled.2 rest
          (surround.mono (Nat.le_max_right _ _)))
      rw [key]
      exact isCopy_of_scalar known spelledKey made
termination_by structural es

end

end Work

end EntityGraph.Yaml
