import StatRollup.Cells.Basic
/-!
# An aggregate store with outages

An aggregate store that fails writes on demand.  An outage may be limited to one statistic, and
lasts for a number of writes; a write uses up at most one.  A failed write changes nothing.  A
store may also lose the answers of whole batches, which are then not written at all, and it may
crash its caller in the middle of a batch.
-/
namespace StatRollup.Cells

/-- How a write fails. -/
inductive Failure where
  /-- It is refused. -/
  | fault (kind : FaultKind)
  /-- Its caller does not survive. -/
  | crash
  deriving DecidableEq, Repr

/-- Writes that are to fail. -/
structure Outage where
  /-- How they fail. -/
  failure : Failure
  /-- Which statistic they are of, or any. -/
  statistic : Option Uid := none
  /-- How many more are to fail. -/
  times : Nat
  deriving DecidableEq, Repr

/-- Whether an outage applies to a write. -/
def Outage.applies (o : Outage) (k : Key) : Bool :=
  decide (0 < o.times) && (o.statistic.all fun s => s == k.statistic)

/-- Uses up one failure of the first outage that applies. -/
def takeOutage (k : Key) : List Outage → Option (Failure × List Outage)
  | [] => none
  | o :: os =>
    if o.applies k then some (o.failure, { o with times := o.times - 1 } :: os)
    else (takeOutage k os).map fun (failure, os) => (failure, o :: os)

/-- A store behind a faulty line. -/
structure Unsteady where
  /-- The store. -/
  cells : Cells
  /-- What is to fail; the first entry that applies is used. -/
  outages : List Outage := []
  /-- Batches whose answers are to be lost. -/
  lostBatches : Nat := 0
  /-- Writes tried so far. -/
  attempts : Nat := 0

namespace Unsteady

instance : Inhabited Unsteady := ⟨{ cells := default }⟩

/-- Tries one write.  There is no result when the caller does not survive. -/
def merge (u : Unsteady) (k : Key) (a : Aggregate) : Option (Except Fault Unit) × Unsteady :=
  let u := { u with attempts := u.attempts + 1 }
  match takeOutage k u.outages with
  | some (.fault kind, outages) =>
    (some (.error (.about "injected" kind)), { u with outages })
  | some (.crash, outages) => (none, { u with outages })
  | none =>
    let (result, cells) := u.cells.merge k a
    (some result, { u with cells })

/-- Tries the writes of a batch in order. -/
def mergeEach (u : Unsteady) :
    List (Key × Aggregate) → Option (List (Except Fault Unit)) × Unsteady
  | [] => (some [], u)
  | (k, a) :: rest =>
    match u.merge k a with
    | (none, u) => (none, u)
    | (some result, u) =>
      let (results, u) := u.mergeEach rest
      (results.map (result :: ·), u)

/-- Tries a batch, with one result per write unless the answers are lost. -/
def mergeBatch (u : Unsteady) (batch : List (Key × Aggregate)) :
    Option (List (Except Fault Unit)) × Unsteady :=
  if 0 < u.lostBatches then (some [], { u with lostBatches := u.lostBatches - 1 })
  else u.mergeEach batch

/-- Removes expired cells. -/
def purge (u : Unsteady) (interval : Interval) (cutoff : Timestamp) : Nat × Unsteady :=
  let (removed, cells) := u.cells.purge interval cutoff
  (removed, { u with cells })

end Unsteady

end StatRollup.Cells
