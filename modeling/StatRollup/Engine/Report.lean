import StatRollup.Engine.Basic
/-!
# Cells by name

The stored cells with names in place of identifiers, sorted by names.  An identifier without a
name is shown by its digits after a number sign.
-/
namespace StatRollup

/-- A cell with names. -/
structure NamedCell where
  /-- Name of the statistic. -/
  statistic : String
  /-- Which tag positions are rolled up. -/
  mask : Mask
  /-- The interval. -/
  interval : Interval
  /-- Start of the column bucket. -/
  time : Timestamp
  /-- Start of the row bucket. -/
  row : Timestamp
  /-- Tag names and values, sorted. -/
  tags : List (String × String)
  /-- What the cell holds. -/
  aggregate : Aggregate
  deriving Repr

namespace NamedCell

/-- By the first component, then by the second. -/
instance pairOrd : Ord (String × String) := lexOrd

/-- By statistic, mask, interval, time and tags. -/
instance : Ord NamedCell :=
  ⟨compareLex (compareOn statistic) <| compareLex (compareOn mask) <|
    compareLex (compareOn interval) <| compareLex (compareOn time) (compareOn tags)⟩

/-- The name of an identifier. -/
def nameOf (tables : Uid.Tables) (id : Uid) : String :=
  if id.isRolledUp then Uid.rolledUpName else (tables.nameOf? id).getD s!"#{id.text}"

/-- A cell with names. -/
def ofCell (tables : Uid.Tables) (k : Key) (aggregate : Aggregate) : NamedCell where
  statistic := nameOf tables k.statistic
  mask := k.mask
  interval := k.interval
  time := k.columnTime
  row := k.rowTime
  tags := insertionSort (k.tags.map fun t => (nameOf tables t.tag, nameOf tables t.value))
  aggregate

end NamedCell

/-- Every stored cell with names, sorted. -/
def Engine.namedCells (e : Engine) : List NamedCell :=
  insertionSort <| e.shared.store.cells.toList.map fun (k, a) =>
    .ofCell e.shared.dictionary.store k a

end StatRollup
