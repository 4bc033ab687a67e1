import EntityGraph.Value.Use
import EntityGraph.Yaml.Atom
import EntityGraph.Yaml.Merge

/-!
# Reading YAML

The value that a YAML text spells. The nodes of a document get values in the order of their nesting:
a scalar has its value at once, while the parts of a collection wait until all collections before
it have theirs. So of several nodes without a value the first in this order counts, and what a
mapping takes over changes only the nodes after it. At last the values are put together.
-/

namespace EntityGraph.Yaml

/-- What the value of a node is made from: parts are values, if they are keys, or numbers of nodes.
-/
inductive Made
  | whole (v : Value)
  /-- A collection whose parts wait. -/
  | waiting
  | list (items : List Nat)
  | pairs (items : List (Nat × Nat))
  | dict (entries : List (Value × Nat))
  | set (members : List Value)

/-- The state of finding values. -/
structure Work where
  /-- The number of the document. -/
  document : Nat
  nodes : Nodes
  /-- What is made so far, by the numbers of nodes. -/
  made : List (Nat × Made)
  /-- The collections that wait, the next one first. -/
  waiting : List Nat

/-- A step of finding values. -/
abbrev Making := StateT Work Result

namespace Making

/-- Keeps what the value of a node is made from. -/
def keep (n : Nat) (m : Made) : Making Unit := modify fun w ↦ { w with made := (n, m) :: w.made }

/-- The text of a scalar, or that of the node which stands for a whole mapping. Such nodes may stand
for each other without end. -/
def text (fuel : Nat) (ns : Nodes) (n : Nat) : Result String :=
  match fuel with
  | 0 => .error (.scalar .depth "")
  | fuel + 1 =>
    match (ns.node n).parts with
    | .scalar s => .ok s
    | .seq _ => malformed
    | .map entries =>
      match entries.find? fun e ↦ ns.tag e.1 = .value with
      | some (_, v) => text fuel ns v
      | none => malformed

/-- The value of a node that is no collection. -/
def scalar (document : Nat) (ns : Nodes) (n : Nat) : Result Value := do
  let ⟨tag, parts⟩ := ns.node n
  if !tag.hasValues then malformed
  let s ← text (ns.size + 1) ns n
  match tag, parts with
  | .timestamp, .map _ => .error Scalar.notText
  | _, _ => Scalar.value (.node document n) tag s

/-- What the value of a node is made from. -/
def make (n : Nat) : Making Made := do
  let w ← get
  match w.made.lookup n with
  | some m => return m
  | none =>
    if (w.nodes.tag n).isCollection then
      set { w with made := (n, .waiting) :: w.made, waiting := w.waiting ++ [n] }
      return .waiting
    else
      let m := Made.whole (← scalar w.document w.nodes n)
      keep n m
      return m

/-- The entries of a mapping by their keys, none of which is a collection. -/
def entries : List (Nat × Nat) → Making (List (Value × Nat))
  | [] => return []
  | (k, v) :: es => do
    let .whole key ← make k | throw .malformed
    let _ ← make v
    let rest ← entries es
    return (key, v) :: rest

/-- The entries of mappings of one entry each. -/
def pairs (ns : Nodes) : List Nat → Making (List (Nat × Nat))
  | [] => return []
  | n :: rest => do
    let .map [(k, v)] := (ns.node n).parts | throw .malformed
    let _ ← make k
    let _ ← make v
    let more ← pairs ns rest
    return (k, v) :: more

/-- Finds the parts of a collection. -/
def complete (n : Nat) : Making Unit := do
  let w ← get
  let ⟨tag, parts⟩ := w.nodes.node n
  match tag, parts with
  | .seq, .seq items => do
    items.forM fun n ↦ do let _ ← make n
    keep n (.list items)
  | .omap, .seq items | .pairs, .seq items => do
    keep n (.pairs (← pairs w.nodes items))
  | .map, .map _ | .set, .map _ => do
    let nodes ← w.nodes.merge n
    set { w with nodes }
    let es ← entries (nodes.entries n)
    keep n (if tag = .map then .dict es else .set (es.map (·.1)))
  | _, _ => throw .malformed

/-- Finds the parts of all collections that wait. -/
def completeAll (fuel : Nat) : Making Unit :=
  match fuel with
  | 0 => return
  | fuel + 1 => do
    match (← get).waiting with
    | [] => return
    | n :: rest =>
      modify fun w ↦ { w with waiting := rest }
      complete n
      completeAll fuel

end Making

/-- The value of a node. A collection inside of itself is a loop. -/
def Work.value (w : Work) (fuel : Nat) (around : List Nat) (n : Nat) : Value :=
  match fuel with
  | 0 => .null
  | fuel + 1 =>
    let id := Identity.node w.document n
    let part := value w fuel (n :: around)
    let isAround := around.contains n
    match w.made.lookup n with
    | some (.whole v) => v
    | some (.list items) =>
      if isAround then .loop id .list else .seq id .list (items.map part)
    | some (.pairs items) =>
      if isAround then .loop id .list
      else .seq id .list (items.map fun (k, v) ↦ .seq .fresh .tuple [part k, part v])
    | some (.dict es) =>
      if isAround then .loop id .dict
      else .ofEntries id (es.map fun (k, v) ↦ (k, part v))
    | some (.set members) => .ofKeys id members
    | _ => .null

/-- The value of a document of a number. -/
def Document.value (number : Nat) (d : Document) : Result Value := do
  let makeAll : Making Unit := do
    let _ ← Making.make d.root
    Making.completeAll (d.nodes.size + 1)
  let (_, w) ← makeAll.run ⟨number, d.nodes, [], []⟩
  return w.value (d.nodes.size + 1) [] d.root

/-- The value that a text spells; absent if it holds no document. The number tells the objects of
this document from those of others. -/
def read (number : Nat) (cs : List Char) : Result Value := do
  match ← Document.ofChars cs with
  | none => return .null
  | some d => d.value number

end EntityGraph.Yaml
