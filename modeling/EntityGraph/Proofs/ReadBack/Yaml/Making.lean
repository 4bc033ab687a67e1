import EntityGraph.Proofs.ReadBack.Yaml.Spelling
import Mathlib.Data.List.Perm.Subperm

/-!
# Values found for nodes

The values of the nodes of a document are found in the order of their nesting. What is found for a
node stays, a collection waits until its parts are found, and every collection waits once. So in the
end nothing waits, and what is found for each node fits it, unless one of the nodes is of a kind
that is not known.
-/

namespace EntityGraph.Yaml

open Form

/-- There are no more different numbers below a bound than the bound says. -/
theorem length_le_of_nodup {ks : List Nat} {bound : Nat} (nodup : ks.Nodup)
    (below : ∀ k ∈ ks, k < bound) : ks.length ≤ bound := by
  have fewer := (List.Nodup.subperm nodup fun k hk ↦ List.mem_range.mpr (below k hk)).length_le
  rwa [List.length_range] at fewer

namespace Nodes

variable {ns : Nodes} {n : Nat}

/-- A node spells a value whose parts have a property. -/
def IsSpelled (ns : Nodes) (P : Value → Prop) (n : Nat) : Prop := ∃ v, v.Every P ∧ ns.Spells v n

/-- A node is a scalar with a value. -/
def IsKey (ns : Nodes) (n : Nat) : Prop :=
  ∃ tag text a, ns.node n = ⟨kindOf tag, .scalar text⟩ ∧ Reads tag text a

variable {P : Value → Prop}

/-- A node that spells an atom of a known kind is a scalar that is read as the atom. -/
theorem Spells.scalar {id : Identity} {a : Atom} (h : ns.Spells (.atom id a) n)
    (known : a.isUnknown = false) :
    ∃ tag text, ns.node n = ⟨kindOf tag, .scalar text⟩ ∧ Reads tag text a := by
  rcases h with ⟨-, spelled⟩ | ⟨unknown, -⟩
  · exact spelled
  · rw [known] at unknown
    cases unknown

/-- Such a node is a scalar with a value. -/
theorem Spells.isKey {id : Identity} {a : Atom} (h : ns.Spells (.atom id a) n)
    (known : a.isUnknown = false) : ns.IsKey n := by
  obtain ⟨tag, text, spelled⟩ := h.scalar known
  exact ⟨tag, text, a, spelled⟩

/-- A node that spells a list is a list of nodes which spell the members. -/
theorem Spells.isList {id : Identity} {kind : SeqKind} {items : List Value}
    (h : ns.Spells (.seq id kind items) n) (known : kind.isUnknown = false) :
    ∃ ms, ns.node n = ⟨.seq, .seq ms⟩ ∧ ns.SpellsItems items ms := by
  rcases h with ⟨-, spelled⟩ | ⟨unknown, -⟩
  · exact spelled
  · rw [known] at unknown
    cases unknown

private theorem SpellsItems.isSpelled {vs : List Value} {ms : List Nat} (h : ns.SpellsItems vs ms)
    (parts : Value.EveryMember P vs) : ∀ m ∈ ms, ns.IsSpelled P m := by
  induction vs generalizing ms with
  | nil =>
    cases ms with
    | nil => exact List.forall_mem_nil _
    | cons m ms => exact h.elim
  | cons v vs ih =>
    cases ms with
    | nil => exact h.elim
    | cons m ms => exact List.forall_mem_cons.mpr ⟨⟨v, parts.1, h.1⟩, ih h.2 parts.2⟩

/-- The parts of the keys and the values that nodes spell have the property. -/
private theorem SpellsEntries.isSpelled {es : List (Value × Value)} {ms : List (Nat × Nat)}
    (h : ns.SpellsEntries es ms) (parts : Value.EveryEntry P es) (atoms : ∀ e ∈ es, IsKeyAtom e.1) :
    ∀ m ∈ ms, (ns.IsKey m.1 ∧ ns.IsSpelled P m.1) ∧ ns.IsSpelled P m.2 := by
  induction es generalizing ms with
  | nil =>
    cases ms with
    | nil => exact List.forall_mem_nil _
    | cons m ms => exact h.elim
  | cons e es ih =>
    cases ms with
    | nil => exact h.elim
    | cons m ms =>
      rw [List.forall_mem_cons] at atoms ⊢
      refine ⟨⟨⟨?_, ⟨e.1, parts.1.1, h.1.1⟩⟩, ⟨e.2, parts.1.2, h.1.2⟩⟩, ih h.2 parts.2 atoms.2⟩
      obtain ⟨id, a, heq, known⟩ := atoms.1
      have key := h.1.1
      rw [heq] at key
      exact key.isKey known

/-- Each of some nodes is a scalar with a value, a list or a mapping of such nodes, or of a kind
that is not known. -/
def AreClosed (ns : Nodes) (among : Nat → Prop) : Prop :=
  ∀ n, among n → ns.IsKey n ∨ (∃ ms, ns.node n = ⟨.seq, .seq ms⟩ ∧ ∀ m ∈ ms, among m) ∨
    (∃ ms, ns.node n = ⟨.map, .map ms⟩ ∧ ∀ m ∈ ms, (ns.IsKey m.1 ∧ among m.1) ∧ among m.2) ∨
    ns.tag n = .other

/-- The nodes that spell values which can be written are closed. -/
theorem areClosed_isSpelled (written : ∀ v, P v → IsWritten v) : ns.AreClosed (ns.IsSpelled P) := by
  rintro n ⟨v, parts, spelled⟩
  cases v with
  | atom id a =>
    rcases spelled with ⟨-, tag, text, spelled⟩ | ⟨-, other⟩
    · exact .inl ⟨tag, text, a, spelled⟩
    · exact .inr (.inr (.inr other))
  | seq id kind items =>
    rcases spelled with ⟨-, ms, node, spelled⟩ | ⟨-, other⟩
    · exact .inr (.inl ⟨ms, node, spelled.isSpelled parts.2⟩)
    · exact .inr (.inr (.inr other))
  | dict id entries =>
    obtain ⟨ms, node, spelled⟩ := spelled
    have part := (written _ parts.1).isPart rfl
    exact .inr (.inr (.inl ⟨ms, node, spelled.isSpelled parts.2 part.1⟩))
  | loop id kind => exact spelled.elim

end Nodes

/-! ### Scalars -/

/-- A tag with which a scalar has a value is one of a scalar. -/
theorem Reads.tag {tag text : String} {a : Atom} (h : Reads tag text a) :
    (kindOf tag).hasValues = true ∧ (kindOf tag).isCollection = false ∧ kindOf tag ≠ .merge ∧
      kindOf tag ≠ .value := by
  have read := h .fresh
  cases hkind : kindOf tag <;> rw [hkind] at read <;> first
    | exact ⟨rfl, rfl, nofun, nofun⟩
    | cases read

/-- The value of a node that spells an atom is the atom. -/
theorem Making.scalar_eq {ns : Nodes} {n : Nat} {tag text : String} {a : Atom}
    (node : ns.node n = ⟨kindOf tag, .scalar text⟩) (reads : Reads tag text a) (number : Nat) :
    Making.scalar number ns n =
      .ok (.atom (if a.isObject then .node number n else .fresh) a) := by
  have read := reads (.node number n)
  have values := reads.tag.1
  rw [Making.scalar, node]
  simp only [values, Bool.not_true, Bool.false_eq_true, if_false, Making.text, node]
  cases hkind : kindOf tag <;> simp_all [bind, Except.bind]

/-- A node of an unknown kind has no value. -/
theorem Making.scalar_eq_error {ns : Nodes} {n number : Nat} (h : ns.tag n = .other) :
    Making.scalar number ns n = .error .malformed := by
  rw [Nodes.tag] at h
  rw [Making.scalar]
  simp only [h]
  rfl

/-- A scalar with a value is none of the other nodes. -/
theorem Nodes.IsKey.scalar {ns : Nodes} {n : Nat} (h : ns.IsKey n) (number : Nat) :
    (∃ v, Making.scalar number ns n = .ok v) ∧ (ns.tag n).isCollection = false ∧
      ns.tag n ≠ .merge ∧ ns.tag n ≠ .value := by
  obtain ⟨tag, text, a, node, reads⟩ := h
  refine ⟨⟨_, Making.scalar_eq node reads number⟩, ?_⟩
  rw [Nodes.tag, node]
  exact reads.tag.2

/-- A node that spells a value which can be read back is of a known kind. -/
private theorem Nodes.IsSpelled.tag_ne {ns : Nodes} {n : Nat} (h : ns.IsSpelled IsPart n) :
    ns.tag n ≠ .other := by
  obtain ⟨v, parts, spelled⟩ := h
  have known := parts.self.isUnknown_eq
  cases v with
  | atom id a =>
    obtain ⟨tag, text, b, node, reads⟩ := spelled.isKey known
    intro other
    rw [Nodes.tag, node] at other
    have values := reads.tag.1
    rw [show kindOf tag = .other from other] at values
    cases values
  | seq id kind items =>
    obtain ⟨ms, node, -⟩ := spelled.isList known
    intro other
    rw [Nodes.tag, node] at other
    cases other
  | dict id entries =>
    obtain ⟨ms, node, -⟩ := spelled
    intro other
    rw [Nodes.tag, node] at other
    cases other
  | loop id kind => exact spelled.elim

/-! ### Merging -/

namespace Nodes

variable {ns : Nodes} {n : Nat} {ms : List (Nat × Nat)}

private theorem setEntries_self {tag : Tag} (h : ns.node n = ⟨tag, .map ms⟩) :
    ns.setEntries n ms = ns := by
  rw [setEntries, h]
  apply Array.ext
  · rw [Array.size_setIfInBounds]
  · intro i _ inside
    by_cases same : n = i
    · subst same
      have here : ns.node n = ns[n] := by simp [node, inside]
      rw [Array.getElem_setIfInBounds_self, ← here, h]
    · rw [Array.getElem_setIfInBounds_ne _ same]

/-- A mapping without merging keys takes nothing over. -/
private theorem merge_eq {tag : Tag} (h : ns.node n = ⟨tag, .map ms⟩)
    (plain : ∀ m ∈ ms, ns.tag m.1 ≠ .merge ∧ ns.tag m.1 ≠ .value) : ns.merge n = .ok ns := by
  have entries : ns.entries n = ms := by rw [Nodes.entries, h]
  have none : ns.merging? n = none := by
    rw [merging?, entries, Option.map_eq_none_iff, List.find?_eq_none]
    rintro ⟨m, i⟩ hm
    simpa using (plain m (List.fst_mem_of_mem_zipIdx hm)).1
  have settled : ns.settleKeys n = ns := by
    rw [settleKeys, entries]
    clear h entries none
    induction ms with
    | nil => rfl
    | cons m ms ih =>
      rw [List.forall_mem_cons] at plain
      rw [List.foldl_cons, if_neg plain.1.2, ih plain.2]
  rw [merge, takeOver, none, entries, List.nil_append, setEntries_self h]
  simp only [settled]

end Nodes

/-! ### What is found -/

/-- Something is found for a node. -/
def IsFound (made : List (Nat × Made)) (n : Nat) : Prop := (made.lookup n).isSome = true

/-- What the value of a node is made from fits the node, and something is found for its parts. -/
def Fits (ns : Nodes) (number : Nat) (made : List (Nat × Made)) (n : Nat) : Made → Prop
  | .whole v => (ns.tag n).isCollection = false ∧ Making.scalar number ns n = .ok v
  | .list items => ns.node n = ⟨.seq, .seq items⟩ ∧ ∀ i ∈ items, IsFound made i
  | .dict es => ∃ ms, ns.node n = ⟨.map, .map ms⟩ ∧ List.Forall₂ (fun e m ↦
      Making.scalar number ns m.1 = .ok e.1 ∧ e.2 = m.2 ∧ IsFound made m.2) es ms
  | _ => False

/-- What fits goes on fitting. -/
theorem Fits.grow {ns : Nodes} {number : Nat} {made made' : List (Nat × Made)} {n : Nat} {m : Made}
    (h : Fits ns number made n m) (grown : ∀ k, IsFound made k → IsFound made' k) :
    Fits ns number made' n m := by
  cases m with
  | whole v => exact h
  | list items => exact ⟨h.1, fun i hi ↦ grown i (h.2 i hi)⟩
  | dict es =>
    obtain ⟨ms, node, found⟩ := h
    exact ⟨ms, node, found.imp fun _ _ ⟨key, same, found⟩ ↦ ⟨key, same, grown _ found⟩⟩
  | waiting => exact h
  | pairs items => exact h
  | set members => exact h

/-- One of some nodes is of a kind that is not known. -/
def Nodes.HasUnknown (ns : Nodes) (among : Nat → Prop) : Prop := ∃ n, among n ∧ ns.tag n = .other

namespace Making

section Steps

variable {n : Nat} {w : Work}

private theorem make_of_found {m : Made} (found : w.made.lookup n = some m) : make n w = .ok
    (m, w) := by
  have got : (get : Making Work) w = .ok (w, w) := rfl
  rw [make, bind_eq got, found]
  rfl

private theorem make_of_isCollection (new : w.made.lookup n = none)
    (collection : (w.nodes.tag n).isCollection = true) : make n w =
      .ok (.waiting, { w with made := (n, .waiting) :: w.made, waiting := w.waiting ++ [n] }) := by
  have got : (get : Making Work) w = .ok (w, w) := rfl
  rw [make, bind_eq got, new]
  simp only [collection, if_true]
  rfl

private theorem make_of_scalar (new : w.made.lookup n = none)
    (single : (w.nodes.tag n).isCollection = false) :
    make n w = (do
      let m := Made.whole (← scalar w.document w.nodes n)
      keep n m
      return m : Making Made) w := by
  have got : (get : Making Work) w = .ok (w, w) := rfl
  rw [make, bind_eq got, new]
  simp only [single, Bool.false_eq_true, if_false]

end Steps

/-- A step has an end of some sort, or it fails, which has a reason. -/
def Ends {α : Type} (reason : Prop) (x : Making α) (w : Work) (sort : α → Work → Prop) : Prop :=
  (∃ a w', x w = .ok (a, w') ∧ sort a w') ∨ (reason ∧ x w = .error .malformed)

variable {α β : Type} {reason : Prop} {x : Making α} {w : Work} {sort : α → Work → Prop}

/-- A step and one after it. -/
theorem Ends.bind (h : Ends reason x w sort) {f : α → Making β} {sort' : β → Work → Prop}
    (h' : ∀ a w', sort a w' → Ends reason (f a) w' sort') : Ends reason (x >>= f) w sort' := by
  rcases h with ⟨a, w', first, end₁⟩ | ⟨why, first⟩
  · rw [Ends, bind_eq first]
    exact h' a w' end₁
  · refine .inr ⟨why, ?_⟩
    show (x w >>= _) = _
    rw [first]
    rfl

/-- An end of one sort may be one of another. -/
theorem Ends.mono (h : Ends reason x w sort) {sort' : α → Work → Prop}
    (h' : ∀ a w', sort a w' → sort' a w') : Ends reason x w sort' := by
  rcases h with ⟨a, w', first, end₁⟩ | failed
  · exact .inl ⟨a, w', first, h' a w' end₁⟩
  · exact .inr failed

end Making

/-- The collections that are complete, those whose parts are looked for just now, and those that
wait are different ones; what is found for all other nodes fits them. -/
structure IsSound (ns : Nodes) (number : Nat) (among : Nat → Prop) (done busy : List Nat)
    (w : Work) : Prop where
  document : w.document = number
  nodes : w.nodes = ns
  waits : ∀ n ∈ busy ++ w.waiting, w.made.lookup n = some .waiting ∧ among n ∧
    (ns.tag n).isCollection = true
  fits : ∀ n m, w.made.lookup n = some m → n ∈ busy ++ w.waiting ∨ Fits ns number w.made n m
  found : ∀ n ∈ done, IsFound w.made n ∧ n < ns.size
  nodup : (done ++ (busy ++ w.waiting)).Nodup

variable {ns : Nodes} {number : Nat} {among : Nat → Prop} {done busy : List Nat}
    {w : Work} {n : Nat}

/-- Something is found for one more node, and for all as before. -/
theorem lookup_cons_of_ne {made : List (Nat × Made)} {m : Made} {k : Nat} (h : k ≠ n) :
    List.lookup k ((n, m) :: made) = made.lookup k := by
  rw [List.lookup_cons, beq_false_of_ne h]

/-- What is found for a node is looked up. -/
theorem lookup_cons_self {made : List (Nat × Made)} {m : Made} :
    List.lookup n ((n, m) :: made) = some m := by
  rw [List.lookup_cons, beq_self_eq_true]

/-- Nothing gets lost. -/
theorem IsFound.cons {made : List (Nat × Made)} {k : Nat} (h : IsFound made k) (m : Made) :
    IsFound ((n, m) :: made) k := by
  by_cases same : k = n
  · subst same
    rw [IsFound, lookup_cons_self]
    rfl
  · rwa [IsFound, lookup_cons_of_ne same]

namespace IsSound

/-- A node for which nothing was found is not among the collections. -/
theorem not_mem (h : IsSound ns number among done busy w) (new : w.made.lookup n = none) :
    n ∉ done ∧ n ∉ busy ++ w.waiting := by
  constructor
  · intro mem
    have found := (h.found n mem).1
    rw [IsFound, new] at found
    cases found
  · intro mem
    have waits := (h.waits n mem).1
    rw [new] at waits
    cases waits

/-- A scalar has its value at once. -/
private theorem whole (h : IsSound ns number among done busy w) (new : w.made.lookup n = none)
    {v : Value} (fits : Fits ns number w.made n (.whole v)) :
    IsSound ns number among done busy { w with made := (n, .whole v) :: w.made } where
  document := h.document
  nodes := h.nodes
  waits k hk := by
    have other : k ≠ n := fun same ↦ (h.not_mem new).2 (same ▸ hk)
    have waits := h.waits k hk
    exact ⟨by rw [lookup_cons_of_ne other, waits.1], waits.2⟩
  fits k m hk := by
    by_cases same : k = n
    · subst same
      rw [lookup_cons_self] at hk
      obtain rfl := Option.some.inj hk
      exact .inr fits
    · rw [lookup_cons_of_ne same] at hk
      exact (h.fits k m hk).imp id (·.grow fun _ found ↦ found.cons _)
  found k hk := ⟨(h.found k hk).1.cons _, (h.found k hk).2⟩
  nodup := h.nodup

/-- A collection waits. -/
private theorem wait (h : IsSound ns number among done busy w) (new : w.made.lookup n = none)
    (mem : among n) (collection : (ns.tag n).isCollection = true) :
    IsSound ns number among done busy
      { w with made := (n, .waiting) :: w.made, waiting := w.waiting ++ [n] } where
  document := h.document
  nodes := h.nodes
  waits k hk := by
    rw [← List.append_assoc, List.mem_append, List.mem_singleton] at hk
    rcases hk with hk | rfl
    · have other : k ≠ n := fun same ↦ (h.not_mem new).2 (same ▸ hk)
      have waits := h.waits k hk
      exact ⟨by rw [lookup_cons_of_ne other, waits.1], waits.2⟩
    · exact ⟨lookup_cons_self, mem, collection⟩
  fits k m hk := by
    rw [← List.append_assoc, List.mem_append, List.mem_singleton]
    by_cases same : k = n
    · exact .inl (.inr same)
    · rw [lookup_cons_of_ne same] at hk
      exact (h.fits k m hk).imp .inl (·.grow fun _ found ↦ found.cons _)
  found k hk := ⟨(h.found k hk).1.cons _, (h.found k hk).2⟩
  nodup := by
    obtain ⟨notDone, notWaiting⟩ := h.not_mem new
    rw [← List.append_assoc, ← List.append_assoc, List.append_assoc done]
    refine h.nodup.append (List.nodup_singleton n) ?_
    rw [List.disjoint_singleton, List.mem_append, not_or]
    exact ⟨notDone, notWaiting⟩

section Steps

variable (h : IsSound ns number among done busy w) (closed : ns.AreClosed among)

include h closed

/-- What a node is made from is found; a scalar has its value at once. -/
theorem ends_make (mem : among n) : Making.Ends (ns.HasUnknown among) (Making.make n) w fun m w' ↦
    IsSound ns number among done busy w' ∧ (∀ k, IsFound w.made k → IsFound w'.made k) ∧
      IsFound w'.made n ∧ (ns.IsKey n → ∃ v, m = .whole v ∧ Making.scalar number ns n = .ok v) := by
  obtain rfl := h.nodes
  obtain rfl := h.document
  cases found : w.made.lookup n with
  | some m =>
    refine .inl ⟨m, w, Making.make_of_found found, h, fun _ ↦ id, by rw [IsFound, found]; rfl,
      fun key ↦ ?_⟩
    obtain ⟨-, scalar, -⟩ := key.scalar w.document
    rcases h.fits n m found with mem | fits
    · have collection := (h.waits n mem).2.2
      rw [scalar] at collection
      cases collection
    · cases m with
      | whole v => exact ⟨v, rfl, fits.2⟩
      | list items => rw [Nodes.tag, fits.1] at scalar; cases scalar
      | dict es =>
        obtain ⟨ms, node, -⟩ := fits
        rw [Nodes.tag, node] at scalar
        cases scalar
      | _ => exact fits.elim
  | none =>
    cases collection : (w.nodes.tag n).isCollection with
    | true =>
      refine .inl ⟨.waiting, _, Making.make_of_isCollection found collection,
        h.wait found mem collection, fun _ found ↦ found.cons _,
        by rw [IsFound, lookup_cons_self]; rfl, fun key ↦ ?_⟩
      obtain ⟨-, scalar, -⟩ := key.scalar w.document
      rw [scalar] at collection
      cases collection
    | false =>
      have made := Making.make_of_scalar found collection
      rcases closed n mem with key | ⟨ms, node, -⟩ | ⟨ms, node, -⟩ | other
      · obtain ⟨⟨v, hv⟩, -⟩ := key.scalar w.document
        refine .inl ⟨.whole v, _, ?_, h.whole found ⟨collection, hv⟩, fun _ found ↦ found.cons _,
          by rw [IsFound, lookup_cons_self]; rfl, fun _ ↦ ⟨v, rfl, hv⟩⟩
        rw [made, hv]
        rfl
      · rw [Nodes.tag, node] at collection
        cases collection
      · rw [Nodes.tag, node] at collection
        cases collection
      · refine .inr ⟨⟨n, mem, other⟩, ?_⟩
        rw [made, Making.scalar_eq_error other]
        rfl

/-- Something is found for all of some nodes. -/
private theorem ends_forM {items : List Nat} (mem : ∀ i ∈ items, among i) :
    Making.Ends (ns.HasUnknown among)
      (items.forM (fun n ↦ do let _ ← Making.make n) : Making Unit) w fun _ w' ↦
      IsSound ns number among done busy w' ∧ (∀ k, IsFound w.made k → IsFound w'.made k) ∧
        ∀ i ∈ items, IsFound w'.made i := by
  induction items generalizing w with
  | nil => exact .inl ⟨(), w, rfl, h, fun _ ↦ id, List.forall_mem_nil _⟩
  | cons n rest ih =>
    rw [List.forall_mem_cons] at mem
    have passed : Making.Ends (ns.HasUnknown among) (do let _ ← Making.make n : Making Unit) w
        fun _ w₁ ↦ IsSound ns number among done busy w₁ ∧
          (∀ k, IsFound w.made k → IsFound w₁.made k) ∧ IsFound w₁.made n :=
      (h.ends_make closed mem.1).bind fun m w₁ ⟨h₁, grown, found, _⟩ ↦
        .inl ⟨(), w₁, rfl, h₁, grown, found⟩
    refine passed.bind fun _ w₁ ⟨h₁, grown, found⟩ ↦ ?_
    refine (ih h₁ mem.2).mono fun _ w₂ ⟨h₂, grown', found'⟩ ↦ ?_
    exact ⟨h₂, fun k hk ↦ grown' k (grown k hk),
      List.forall_mem_cons.mpr ⟨grown' n found, found'⟩⟩

/-- The entries of a mapping are found by the values of their keys. -/
private theorem ends_entries {ms : List (Nat × Nat)}
    (mem : ∀ m ∈ ms, (ns.IsKey m.1 ∧ among m.1) ∧ among m.2) :
    Making.Ends (ns.HasUnknown among) (Making.entries ms) w fun es w' ↦
      IsSound ns number among done busy w' ∧ (∀ k, IsFound w.made k → IsFound w'.made k) ∧
        List.Forall₂ (fun e m ↦
          Making.scalar number ns m.1 = .ok e.1 ∧ e.2 = m.2 ∧ IsFound w'.made m.2) es ms := by
  induction ms generalizing w with
  | nil => exact .inl ⟨[], w, rfl, h, fun _ ↦ id, .nil⟩
  | cons m ms ih =>
    obtain ⟨k, n⟩ := m
    rw [List.forall_mem_cons] at mem
    refine (h.ends_make closed mem.1.1.2).bind fun mk w₁ ⟨h₁, grown₁, _, whole⟩ ↦ ?_
    obtain ⟨v, rfl, hv⟩ := whole mem.1.1.1
    refine (h₁.ends_make closed mem.1.2).bind fun mv w₂ ⟨h₂, grown₂, found, _⟩ ↦ ?_
    refine (ih h₂ mem.2).bind fun es w₃ ⟨h₃, grown₃, entries⟩ ↦ ?_
    exact .inl ⟨(v, n) :: es, w₃, rfl, h₃, fun i hi ↦ grown₃ i (grown₂ i (grown₁ i hi)),
      .cons ⟨hv, rfl, grown₃ n found⟩ entries⟩

end Steps

/-- A collection whose parts are found is complete. -/
private theorem keep {m : Made} (h : IsSound ns number among done [n] w)
    (fits : Fits ns number w.made n m) :
    IsSound ns number among (n :: done) [] { w with made := (n, m) :: w.made } where
  document := h.document
  nodes := h.nodes
  waits k hk := by
    have other : k ≠ n := by
      rintro rfl
      have nodup := (List.nodup_append.mp h.nodup).2.1
      exact (List.nodup_cons.mp nodup).1 hk
    have waits := h.waits k (List.mem_cons_of_mem _ hk)
    exact ⟨by rw [lookup_cons_of_ne other, waits.1], waits.2⟩
  fits k m hk := by
    by_cases same : k = n
    · subst same
      rw [lookup_cons_self] at hk
      obtain rfl := Option.some.inj hk
      exact .inr (fits.grow fun _ found ↦ found.cons _)
    · rw [lookup_cons_of_ne same] at hk
      refine (h.fits k m hk).imp (fun mem ↦ ?_) (·.grow fun _ found ↦ found.cons _)
      exact (List.mem_cons.mp mem).resolve_left same
  found := by
    refine List.forall_mem_cons.mpr ⟨⟨by rw [IsFound, lookup_cons_self]; rfl, ?_⟩,
      fun k hk ↦ ⟨(h.found k hk).1.cons _, (h.found k hk).2⟩⟩
    have collection := (h.waits n List.mem_cons_self).2.2
    by_contra outside
    have empty : ns.node n = .empty := by
      rw [Nodes.node, Array.getElem?_eq_none (Nat.le_of_not_lt outside)]
      rfl
    rw [Nodes.tag, empty] at collection
    cases collection
  nodup := (List.perm_middle.nodup_iff.mp h.nodup)

/-- The parts of a collection that is next are found. -/
private theorem ends_complete (h : IsSound ns number among done [n] w)
    (closed : ns.AreClosed among) :
    Making.Ends (ns.HasUnknown among) (Making.complete n) w fun _ w' ↦
      IsSound ns number among (n :: done) [] w' ∧ ∀ k, IsFound w.made k → IsFound w'.made k := by
  obtain rfl := h.nodes
  have state : (get : Making Work) w = .ok (w, w) := rfl
  obtain ⟨-, mem, collection⟩ := h.waits n List.mem_cons_self
  rw [Making.complete, Making.Ends, bind_eq state]
  rcases closed n mem with key | ⟨ms, node, parts⟩ | ⟨ms, node, parts⟩ | other
  · obtain ⟨-, scalar, -⟩ := key.scalar number
    rw [scalar] at collection
    cases collection
  · rw [node]
    refine (h.ends_forM closed parts).bind fun _ w' ⟨h', grown, found⟩ ↦ ?_
    exact .inl ⟨(), _, rfl, h'.keep (m := .list ms) ⟨node, found⟩, fun k hk ↦ (grown k hk).cons _⟩
  · have plain : ∀ m ∈ ms, w.nodes.tag m.1 ≠ .merge ∧ w.nodes.tag m.1 ≠ .value := fun m hm ↦
      ((parts m hm).1.1.scalar number).2.2
    have entries : w.nodes.entries n = ms := by rw [Nodes.entries, node]
    have merged : (liftM (w.nodes.merge n) : Making Nodes) w = .ok (w.nodes, w) := by
      rw [Nodes.merge_eq node plain]
      rfl
    have same : (set { w with nodes := w.nodes } : Making Unit) w = .ok ((), w) := rfl
    rw [node]
    dsimp only
    rw [bind_eq merged, bind_eq same, entries]
    refine (h.ends_entries closed parts).bind fun es w' ⟨h', grown, found⟩ ↦ ?_
    exact .inl ⟨(), _, rfl, h'.keep (m := .dict es) ⟨ms, node, found⟩,
      fun k hk ↦ (grown k hk).cons _⟩
  · rw [other] at collection
    cases collection

/-- All collections get complete. -/
private theorem ends_completeAll (fuel : Nat) (h : IsSound ns number among done [] w)
    (closed : ns.AreClosed among) (enough : ns.size < fuel + done.length) :
    Making.Ends (ns.HasUnknown among) (Making.completeAll fuel) w fun _ w' ↦
      (∃ done', IsSound ns number among done' [] w') ∧ w'.waiting = [] ∧
        ∀ k, IsFound w.made k → IsFound w'.made k := by
  induction fuel generalizing done w with
  | zero =>
    have inside := length_le_of_nodup (List.nodup_append.mp h.nodup).1 fun k hk ↦ (h.found k hk).2
    omega
  | succ fuel ih =>
    have state : (get : Making Work) w = .ok (w, w) := rfl
    rw [Making.completeAll, Making.Ends, bind_eq state]
    cases waiting : w.waiting with
    | nil => exact .inl ⟨(), w, rfl, ⟨done, h⟩, waiting, fun _ ↦ id⟩
    | cons n rest =>
      have busy : IsSound ns number among done [n] { w with waiting := rest } := by
        obtain ⟨document, nodes, waits, fits, found, nodup⟩ := h
        rw [waiting] at waits fits nodup
        exact ⟨document, nodes, waits, fits, found, nodup⟩
      have popped : (modify fun w ↦ { w with waiting := rest } : Making Unit) w =
          .ok ((), { w with waiting := rest }) := rfl
      dsimp only
      rw [bind_eq popped]
      refine (busy.ends_complete closed).bind fun _ w₁ ⟨h₁, grown⟩ ↦ ?_
      refine (ih h₁ (by rw [List.length_cons]; omega)).mono fun _ w₂ ⟨h₂, empty, grown'⟩ ↦ ?_
      exact ⟨h₂, empty, fun k hk ↦ grown' k (grown k hk)⟩

private theorem start (ns : Nodes) (number : Nat) (among : Nat → Prop) :
    IsSound ns number among [] [] ⟨number, ns, [], []⟩ where
  document := rfl
  nodes := rfl
  waits := List.forall_mem_nil _
  fits _ _ := nofun
  found := List.forall_mem_nil _
  nodup := List.nodup_nil

end IsSound

/-- Finds what the value of a node, and those of its parts, are made from. -/
def Making.makeAll (bound root : Nat) : Making Unit := do
  let _ ← Making.make root
  Making.completeAll bound

/-- Something that fits is found for a node, and for all its parts. -/
theorem ends_makeAll (closed : ns.AreClosed among) {root : Nat} (mem : among root) (number : Nat) :
    Making.Ends (ns.HasUnknown among) (Making.makeAll (ns.size + 1) root) ⟨number, ns, [], []⟩
      fun _ w ↦ w.document = number ∧ IsFound w.made root ∧
        ∀ n m, w.made.lookup n = some m → Fits ns number w.made n m := by
  refine ((IsSound.start ns number among).ends_make closed mem).bind
    fun m w ⟨h, _, found, _⟩ ↦ ?_
  refine (h.ends_completeAll (ns.size + 1) closed (by rw [List.length_nil]; omega)).mono
    fun _ w' ⟨⟨done', h'⟩, empty, grown⟩ ↦ ?_
  refine ⟨h'.document, grown root found, fun n m hm ↦ ?_⟩
  exact (h'.fits n m hm).resolve_left (by rw [empty]; exact List.not_mem_nil)

/-- Something that fits is found for a node which spells a value, and for all its parts. -/
theorem exists_made {root : Nat} (spelled : ns.IsSpelled IsPart root) (number : Nat) :
    ∃ w : Work, Making.makeAll (ns.size + 1) root ⟨number, ns, [], []⟩ = .ok ((), w) ∧
      w.document = number ∧ IsFound w.made root ∧
      ∀ n m, w.made.lookup n = some m → Fits ns number w.made n m := by
  have closed : ns.AreClosed (ns.IsSpelled IsPart) := Nodes.areClosed_isSpelled fun _ ↦ .inl
  rcases ends_makeAll closed spelled number with ⟨_, w, made, h⟩ | ⟨unknown, -⟩
  · exact ⟨w, made, h⟩
  · obtain ⟨n, known, other⟩ := unknown
    exact absurd other known.tag_ne

end EntityGraph.Yaml
