import StatRollup.Key.Basic
import StatRollup.Statistic.Masks
/-!
# The keys of an event

An event must give every tag that its statistic declares exactly once, and no other.  Its keys are
one for every mask that the statistic requires, ascending by mask, with the values of rolled-up
positions replaced by the rolled-up identifier.
-/
namespace StatRollup

namespace Statistic

variable {α : Type}

/-- Puts tagged things at the positions of their tags.  The first tag that is not declared or that
is given again is refused. -/
def placeAll (s : Statistic) : List (Option α) → List (String × α) → Except Fault (List (Option α))
  | slots, [] => .ok slots
  | slots, (tag, a) :: rest =>
    match s.positionOf? tag with
    | none => .error (.undeclaredTag tag s.name)
    | some p =>
      match slots[p]? with
      | some (some _) => .error (.repeatedTag tag)
      | _ => s.placeAll (slots.set p (some a)) rest

/-- The things in all slots; the first empty one is refused by the name of its tag. -/
def takeAll (s : Statistic) : List (Option α) → List String → Except Fault (List α)
  | some a :: slots, _ :: tags => (s.takeAll slots tags).map (a :: ·)
  | none :: _, tag :: _ => .error (.missingTag tag s.name)
  | _, _ => .ok []

/-- Tagged things in the order of the sorted tag names. -/
def byPosition (s : Statistic) (tagged : List (String × α)) : Except Fault (List α) := do
  let slots ← s.placeAll (s.tags.toList.map fun _ => none) tagged
  s.takeAll slots s.tags.toList

/-- Whether the names are the declared tags, each once. -/
def checkTags (s : Statistic) (names : List String) : Except Fault Unit := do
  let _ ← s.byPosition (names.map fun name => (name, ()))
  return ()

end Statistic

namespace Key

/-- Tag values with those at the positions of a mask rolled up. -/
def rollUp (mask : Mask) (tags : List TagValue) : List TagValue :=
  tags.mapIdx fun p t => if mask.isRolledUp p then t.rolledUp else t

/-- One key for every required mask, ascending. -/
def build (s : Statistic) (statistic : Uid) (time : Timestamp)
    (tagged : List (String × TagValue)) : Except Fault (List Key) := do
  let tags ← s.byPosition tagged
  return s.requiredMasks.map fun mask => of statistic mask s.precision time (rollUp mask tags)

end Key

end StatRollup
