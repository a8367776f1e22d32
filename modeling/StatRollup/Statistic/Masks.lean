import StatRollup.Statistic.Basic
/-!
# The masks of a statistic

The rollup policy of a definition decides under which masks each of its events is written, and so
which combinations of rolled-up tags can be asked for.
-/
namespace StatRollup.Statistic

/-- The masks under which every event is written, ascending. -/
def requiredMasks (s : Statistic) : List Mask :=
  match s.policy with
  | .none => [.zero]
  | .all => Mask.allOver s.tags.size
  | .custom => (s.masks.insert .zero).toList

/-- The positions of tags, if all are declared. -/
def positionsOf? (s : Statistic) : List String → Option (List Nat)
  | [] => some []
  | tag :: tags =>
    match s.positionOf? tag, s.positionsOf? tags with
    | some p, some ps => some (p :: ps)
    | _, _ => none

/-- Whether events are written under the mask that rolls up exactly the given tags. -/
def supports (s : Statistic) (rolledUp : List String) : Bool :=
  match (s.positionsOf? rolledUp).map Mask.ofPositions with
  | some (.ok mask) =>
    match s.policy with
    | .none => mask.isZero
    | .all => true
    | .custom => mask.isZero || s.masks.toList.contains mask
  | _ => false

end StatRollup.Statistic
