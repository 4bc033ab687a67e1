import EntityGraph.Yaml.Node

/-!
# Merged mappings

A mapping takes over the entries of another mapping, or of several, by a merging key. Taking over
changes the nodes: from then on the mapping has the other entries before its own, everywhere where
it is a part. A key that stands for a whole mapping becomes a plain text by the way.
-/

namespace EntityGraph.Yaml.Nodes

/-- The first merging key of a mapping: its place and its value. -/
def merging? (ns : Nodes) (n : Nat) : Option (Nat × Nat) :=
  (((ns.entries n).zipIdx.find? fun (e, _) ↦ ns.tag e.1 = .merge)).map fun (e, i) ↦ (i, e.2)

/-- The number of merging keys in all mappings. -/
def mergingCount (ns : Nodes) : Nat :=
  (List.range ns.size).foldl
    (fun count n ↦ count + ((ns.entries n).filter fun e ↦ ns.tag e.1 = .merge).length) 0

/-- The nodes in which the keys of a mapping that stand for a whole are texts. -/
def settleKeys (ns : Nodes) (n : Nat) : Nodes :=
  (ns.entries n).foldl (fun ns e ↦ if ns.tag e.1 = .value then ns.setTag e.1 .text else ns) ns

mutual

/-- The nodes in which a mapping has taken over all entries, given those that it takes over so far.
Every step uses up a merging key. -/
def takeOver (fuel : Nat) (ns : Nodes) (n : Nat) (taken : List (Nat × Nat)) : Result Nodes :=
  match fuel with
  | 0 => malformed
  | fuel + 1 =>
    match ns.merging? n with
    | none => .ok ((ns.setEntries n (taken ++ ns.entries n)).settleKeys n)
    | some (i, v) => do
      let ns := ns.setEntries n ((ns.entries n).eraseIdx i)
      let (ns, more) ←
        match (ns.node v).parts with
        | .map _ => do
          let ns ← takeOver fuel ns v []
          pure (ns, ns.entries v)
        | .seq items => entriesOfAll fuel ns items
        | .scalar _ => malformed
      takeOver fuel ns n (taken ++ more)

/-- The entries of several mappings, those of a later one before those of an earlier one. -/
def entriesOfAll (fuel : Nat) (ns : Nodes) (items : List Nat) :
    Result (Nodes × List (Nat × Nat)) :=
  match items with
  | [] => .ok (ns, [])
  | v :: vs =>
    match (ns.node v).parts with
    | .map _ => do
      let ns ← takeOver fuel ns v []
      let entries := ns.entries v
      let (ns, more) ← entriesOfAll fuel ns vs
      return (ns, more ++ entries)
    | _ => malformed

end

/-- The nodes in which a mapping has taken over all entries. -/
def merge (ns : Nodes) (n : Nat) : Result Nodes := ns.takeOver (ns.mergingCount + 1) n []

end EntityGraph.Yaml.Nodes
