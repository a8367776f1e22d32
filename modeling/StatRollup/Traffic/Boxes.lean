import StatRollup.Traffic.Partition
/-!
# Boxes

Events can also be split by going through them once, with a box for every partition.  An event is
put behind those in the box of its partition.  A box has no number of its own, only its place, so
boxes get their numbers before the empty ones among them are left out.
-/
namespace StatRollup.Partitioner

variable {α : Type}

/-- Puts something behind what is in the box of its place.  There must be such a box. -/
def put? (route : α → Nat) (boxes : List (List α)) (a : α) : Option (List (List α)) :=
  if route a < boxes.length then some (boxes.modify (route a) (· ++ [a])) else none

/-- The boxes that hold something, with their places. -/
def filled (boxes : List (List α)) : List (Nat × List α) :=
  (boxes.zipIdx.filter fun box => !box.1.isEmpty).map fun box => (box.2, box.1)

/-- Things sorted into boxes, one after another. -/
def sortInto? (count : Nat) (route : α → Nat) (as : List α) : Option (List (Nat × List α)) :=
  (as.foldlM (put? route) (List.replicate count [])).map filled

/-! ## Examples -/

/-- The empty box is left out, and the last one is still the third. -/
example : sortInto? 3 (· % 3) [2, 0, 5] = some [(0, [0]), (2, [2, 5])] := by decide
/-- A box that is missing is not made. -/
example : sortInto? 2 (· % 3) [2, 0, 5] = none := by decide

end StatRollup.Partitioner
