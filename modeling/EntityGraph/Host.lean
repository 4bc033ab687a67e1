import EntityGraph.Value.Copy

/-!
# Hosts

What a run takes from outside of the library. Copies of objects of foreign classes, and the words
for a value that cannot be taken apart to its end, differ from run to run, so that compiling is
given a host that supplies them.
-/

namespace EntityGraph

/-- What a run is given from outside. -/
structure Host where
  /-- What foreign objects in the default of an attribute are copied to, by the names of the entity
  and of the attribute. -/
  copier (entity attr : Value) : Copier
  /-- The words for a value that contains itself, which depend on where the stack overflows. -/
  overflow : String

namespace Host

/-- A host on which copies are as the objects that they are made of. -/
instance : Inhabited Host := ⟨fun _ _ _ f ↦ f, Fault.endless.message⟩

/-- The message of a fault on a host. -/
def message (host : Host) : Fault → String
  | .endless => host.overflow
  | f => f.message

end Host

end EntityGraph
