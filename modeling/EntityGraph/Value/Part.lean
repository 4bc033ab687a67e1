import EntityGraph.Value.Basic

/-!
# Parts of values

A collection that contains itself is a loop inside of itself, which only says which of the
collections around it is meant. A part that is taken out of such a collection is given what the loop
stands for, so that it is a value by itself.
-/

namespace EntityGraph

/-- The kind of loop that a sequence of a kind is inside of itself. -/
def SeqKind.loopKind : SeqKind → LoopKind
  | tuple => .tuple
  | _ => .list

namespace Value

mutual

/-- A value inside of some collections: where one of them occurs in it, it is a loop. -/
def inside (around : List Identity) : Value → Value
  | v@(.atom ..) | v@(.loop ..) => v
  | .seq id kind items =>
    if around.any id.same then .loop id kind.loopKind
    else .seq id kind (itemsInside around items)
  | .dict id entries =>
    if around.any id.same then .loop id .dict else .dict id (entriesInside around entries)

/-- The members of a sequence inside of some collections. -/
def itemsInside (around : List Identity) : List Value → List Value
  | [] => []
  | v :: vs => v.inside around :: itemsInside around vs

/-- The entries of a mapping inside of some collections. No key contains what it is a key of. -/
def entriesInside (around : List Identity) : List (Value × Value) → List (Value × Value)
  | [] => []
  | (k, v) :: es => (k, v.inside around) :: entriesInside around es

end

mutual

/-- A part of a collection, below some collections that are parts of it as well. A loop that is none
of these is the whole. -/
def opened (whole : Value) (around : List Identity) : Value → Value
  | v@(.atom ..) => v
  | .loop id kind => if around.any id.same then .loop id kind else whole.inside around
  | .seq id kind items => .seq id kind (itemsOpened whole (id :: around) items)
  | .dict id entries => .dict id (entriesOpened whole (id :: around) entries)

/-- The members of a sequence that is a part of a collection. -/
def itemsOpened (whole : Value) (around : List Identity) : List Value → List Value
  | [] => []
  | v :: vs => opened whole around v :: itemsOpened whole around vs

/-- The entries of a mapping that is a part of a collection. -/
def entriesOpened (whole : Value) (around : List Identity) :
    List (Value × Value) → List (Value × Value)
  | [] => []
  | (k, v) :: es => (k, opened whole around v) :: entriesOpened whole around es

end

/-- A part of a value as a value by itself. Nothing refers to a value that occurs nowhere else. -/
def takeOut (whole part : Value) : Value :=
  if whole.identity = .fresh then part else opened whole [] part

/-- A part of a value that occurs nowhere else is a value by itself. -/
theorem takeOut_of_fresh {whole : Value} (h : whole.identity = .fresh) (part : Value) :
    whole.takeOut part = part := if_pos h

@[simp] theorem takeOut_seq_fresh (kind : SeqKind) (items : List Value) (part : Value) :
    (seq .fresh kind items).takeOut part = part := takeOut_of_fresh rfl part

@[simp] theorem takeOut_dict_fresh (entries : List (Value × Value)) (part : Value) :
    (dict .fresh entries).takeOut part = part := takeOut_of_fresh rfl part

/-- A text is a value by itself. -/
@[simp] theorem takeOut_text (whole : Value) (s : String) : whole.takeOut (text s) = text s := by
  simp only [takeOut, text, opened, ite_self]

/-- The members of a value that occurs nowhere else are values by themselves. -/
theorem map_takeOut_of_fresh {whole : Value} (h : whole.identity = .fresh)
    (parts : List Value) : parts.map whole.takeOut = parts := by
  rw [List.map_congr_left fun part _ ↦ takeOut_of_fresh h part, List.map_id']

end Value

end EntityGraph
