import Std.Data.TreeMap
import StatRollup.Statistic.Basic
/-!
# The registry

Definitions by name.  Keys and cells that were written for a statistic depend on its kind,
precision and tag positions, so registering a name again must keep those three.
-/
namespace StatRollup

/-- Definitions by name, in the order of names. -/
structure Registry where
  /-- The definition under each name. -/
  byName : Std.TreeMap String Statistic := {}

namespace Registry

/-- No definitions. -/
def empty : Registry := {}

instance : Inhabited Registry := ⟨empty⟩

/-- The definition of a name. -/
def get? (r : Registry) (name : String) : Option Statistic := r.byName.get? name

/-- The registered names, sorted. -/
def names (r : Registry) : List String := r.byName.keys

/-- Number of definitions. -/
def size (r : Registry) : Nat := r.byName.size

/-- The first part that a new definition would change although stored cells depend on it. -/
def changedPart? (old new : Statistic) : Option FixedPart :=
  if old.kind ≠ new.kind then some .kind
  else if old.precision ≠ new.precision then some .precision
  else if old.tags ≠ new.tags then some .tags
  else none

/-- Refuses a definition under which the cells of the one before would change their meaning. -/
def checkRedefinition (old new : Statistic) : Except Fault Unit :=
  match changedPart? old new with
  | some part => .error (.redefined old.name part)
  | none => .ok ()

/-- Adds a valid definition, or replaces one with the same kind, precision and tags.  The state is
the registry, and what was written there stays when the definition is refused. -/
def enter (s : Statistic) : ExceptT Fault (StateM Registry) Unit := do
  s.validate
  ((← get).get? s.name).forM fun old => checkRedefinition old s
  modify fun r => ⟨r.byName.insert s.name s⟩

/-- Enters a definition: whether that was possible, and the registry afterwards. -/
def registerInPlace (r : Registry) (s : Statistic) : Except Fault Unit × Registry :=
  (enter s).run r

/-- The registry with a definition that it accepts. -/
def register (r : Registry) (s : Statistic) : Except Fault Registry :=
  let (result, r) := r.registerInPlace s
  result.map fun _ => r

/-- Removes a name. -/
def remove (r : Registry) (name : String) : Registry := ⟨r.byName.erase name⟩

/-- Registers definitions in order; the first refusal is the answer. -/
def registerAll (r : Registry) : List Statistic → Except Fault Registry
  | [] => .ok r
  | s :: rest => do (← r.register s).registerAll rest

end Registry

end StatRollup
