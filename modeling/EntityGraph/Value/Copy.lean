import EntityGraph.Value.SetOrder

/-!
# Copies of values

The copy of a value is made anew with everything in it. Objects of foreign classes answer for
themselves when a copy of them is asked for: they are their own copies, they are copied to other
objects, which may look different in every run, or they refuse. A copied set is filled in the order
in which the first lists its members.
-/

namespace EntityGraph

/-- The identity of the copy of an object. -/
def Identity.copied : Identity → Identity
  | .fresh => .fresh
  | id => .copy id

/-- What the foreign objects in a value are copied to, where they are copied to other objects. -/
abbrev Copier := Identity → Foreign → Foreign

/-- The copy of a foreign object. -/
def Foreign.copy (copier : Copier) (id : Identity) (f : Foreign) : Except Fault Value :=
  match f.copying with
  | .itself => .ok (.atom id (.foreign f))
  | .anew => .ok (.atom id.copied (.foreign (copier id f)))
  | .refused m => .error (.uncopyable m)

namespace Value

mutual

/-- The copy of a value. Atoms other than foreign objects are what they hold, so that nothing tells
them from their copies. -/
def deepCopy (copier : Copier) : Value → Except Fault Value
  | .atom id (.foreign f) => f.copy copier id
  | v@(.atom ..) => .ok v
  | .seq id kind items => do
    let copies ← copyItems copier items
    match kind with
    | .list | .tuple => return .seq id.copied kind copies
    | .set | .frozenset => return .seq id.copied kind (setOrder 0 copies)
  | .dict id entries => do
    let copies ← copyEntries copier entries
    return .dict id.copied copies
  | .loop id kind => .ok (.loop id.copied kind)

/-- The copies of the members of a sequence. -/
def copyItems (copier : Copier) : List Value → Except Fault (List Value)
  | [] => .ok []
  | v :: vs => do
    let copy ← v.deepCopy copier
    let copies ← copyItems copier vs
    return copy :: copies

/-- The copies of the entries of a mapping, the value of an entry made before its key. -/
def copyEntries (copier : Copier) : List (Value × Value) → Except Fault (List (Value × Value))
  | [] => .ok []
  | (k, v) :: es => do
    let value ← v.deepCopy copier
    let key ← k.deepCopy copier
    let copies ← copyEntries copier es
    return (key, value) :: copies

end

/-- The absent value is its own copy. -/
@[simp] theorem deepCopy_null (copier : Copier) : null.deepCopy copier = .ok null := rfl

end Value

end EntityGraph
