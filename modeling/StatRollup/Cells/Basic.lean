import Std.Data.TreeMap
import Std.Data.TreeSet
import StatRollup.Aggregate
import StatRollup.Key.Codec
/-!
# The aggregate store

Cells are kept under the octets of their keys, in the order of octets.  Writing merges into the
cell where it lies, so several writers may write to one cell in any order.  A refused write is not
counted.

Octets are read with one width for all identifiers, while a key may have tags of other widths.  So
the keys that were written are kept beside the octets, to list every cell.
-/
namespace StatRollup

/-- Aggregates by serialized key. -/
structure Cells where
  /-- The width of the statistic identifiers of its keys. -/
  width : Nat
  /-- Identifiers kept per cell. -/
  cap : Nat
  /-- The aggregate under each key. -/
  byKey : Std.TreeMap Bytes Aggregate := {}
  /-- The keys that were written, also those whose cells were removed since. -/
  written : Std.TreeSet Key := {}
  /-- Number of writes made.  The counter that it stands for is a word of 64 bits and starts again
  from zero after its largest number. -/
  merges : Nat := 0

namespace Cells

/-- No cells. -/
def empty (width cap : Nat) : Cells := { width, cap }

instance : Inhabited Cells := ⟨empty 4 0⟩

/-- Number of cells. -/
def size (c : Cells) : Nat := c.byKey.size

/-- The aggregate of a cell. -/
def get? (c : Cells) (k : Key) : Option Aggregate := c.byKey.get? k.toBytes

/-- Merges an aggregate into its cell where it lies: whether that was possible, and the cells
afterwards.  A key of another width is refused, and so is an aggregate of another kind than the
cell's. -/
def merge (c : Cells) (k : Key) (a : Aggregate) : Except Fault Unit × Cells :=
  if k.statistic.width ≠ c.width then (.error (.keyWidth k.statistic.width c.width), c)
  else
    let counted : Cells := { c with written := c.written.insert k, merges := c.merges + 1 }
    match c.get? k with
    | none => (.ok (), { counted with byKey := c.byKey.insert k.toBytes a })
    | some held =>
      let (result, merged) := held.mergeFrom c.cap a
      let byKey := c.byKey.modify k.toBytes fun _ => merged
      match result with
      | .ok () => (.ok (), { counted with byKey })
      | .error f => (.error f, { c with byKey })

/-- Merges aggregates one after another, each with a result of its own. -/
def mergeEach (c : Cells) : List (Key × Aggregate) → List (Except Fault Unit) × Cells
  | [] => ([], c)
  | (k, a) :: rest =>
    let (result, c) := c.merge k a
    let (results, c) := c.mergeEach rest
    (result :: results, c)

/-- Reads the keys of cells; the first that is not readable is refused. -/
def readKeys (width : Nat) : List (Bytes × Aggregate) → Except Fault (List (Key × Aggregate))
  | [] => .ok []
  | (bs, a) :: rest => do
    let k ← Key.ofBytes width bs
    return (k, a) :: (← readKeys width rest)

/-- The cells of a statistic and a mask, in the order of keys. -/
def scan (c : Cells) (statistic : Uid) (mask : Mask) : Except Fault (List (Key × Aggregate)) :=
  let start := statistic.toBytes ++ mask.toBytes
  readKeys c.width (c.byKey.toList.filter fun (bs, _) => start.isPrefixOf bs)

/-- Whether a stored key is of an interval and its row is before a time. -/
def isExpired (width : Nat) (interval : Interval) (cutoff : Timestamp) (bs : Bytes) : Bool :=
  match Key.ofBytes width bs with
  | .ok k => k.interval == interval && decide (k.rowTime < cutoff)
  | .error _ => false

/-- Removes the cells of an interval whose row is before a time, and tells how many there were.
Keys that are not readable stay. -/
def purge (c : Cells) (interval : Interval) (cutoff : Timestamp) : Nat × Cells :=
  let kept := c.byKey.filter fun bs _ => !isExpired c.width interval cutoff bs
  (c.byKey.size - kept.size, { c with byKey := kept })

/-- Every key that was written, with what its cell holds unless that was removed. -/
def toList (c : Cells) : List (Key × Aggregate) :=
  c.written.toList.filterMap fun k => (c.get? k).map (k, ·)

end Cells

end StatRollup
