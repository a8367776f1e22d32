import StatRollup.Bytes.Checksum
import StatRollup.Event
import StatRollup.Order.Ascending
/-!
# Partitions

Work is spread over partitions by the check of a routing key, so equal keys meet in one
partition.  Events are routed by the name of their statistic.
-/
namespace StatRollup

/-- A number of partitions; zero counts as one. -/
structure Partitioner where
  /-- The number asked for. -/
  requested : Nat
  deriving DecidableEq, Repr

namespace Partitioner

/-- The number of partitions. -/
def count (p : Partitioner) : Nat := max p.requested 1

/-- The partition of a routing key. -/
def partitionOf (p : Partitioner) (key : Bytes) : Nat := (Bytes.crc32 key).toNat % p.count

theorem partitionOf_lt (p : Partitioner) (key : Bytes) : p.partitionOf key < p.count :=
  Nat.mod_lt _ (Nat.lt_of_lt_of_le Nat.one_pos (Nat.le_max_right _ _))

/-- The partition of an event. -/
def partitionOfEvent (p : Partitioner) (e : Event) : Nat := p.partitionOf (Bytes.ofText e.name)

/-- Things grouped by where they go: those of each group in order, groups ascending, none of them
empty. -/
def group {α : Type} (route : α → Nat) (as : List α) : List (Nat × List α) :=
  (Ascending.ofList (as.map route)).toList.map fun i => (i, as.filter (route · == i))

/-- Events grouped by partition. -/
def split (p : Partitioner) (events : List Event) : List (Nat × List Event) :=
  let routed := events.map fun e => (p.partitionOfEvent e, e)
  (group (·.1) routed).map fun (i, es) => (i, es.map (·.2))

end Partitioner

end StatRollup
