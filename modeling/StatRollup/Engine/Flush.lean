import StatRollup.Cells.Outage
import StatRollup.Retry
import StatRollup.Traffic.BadEvents
/-!
# Flushes

A flush writes a batch of entries to the aggregate store in rounds.  Each round is one batch
request for the entries that are left; an entry is written, or left for another round, or given
up.  Entries fare independently of each other: one is sent again exactly when its failure is
transient and attempts are left.  The source of every entry that was given up is rejected once,
for the first of its failures.
-/
namespace StatRollup

/-- An event with a handle of its own, so that equal events stay apart. -/
structure Source where
  /-- The handle. -/
  handle : Nat
  /-- The event. -/
  event : Event
  deriving Repr, Inhabited

/-- An aggregate that waits to be written, with the first event that contributed to it. -/
structure Pending where
  /-- The aggregate. -/
  aggregate : Aggregate
  /-- Whom to blame when it cannot be written. -/
  source : Source
  deriving Repr, Inhabited

/-- Merges a pending aggregate into another, which keeps its source. -/
def Pending.merge (cap : Nat) (held next : Pending) : Except Fault Pending :=
  (held.aggregate.merge cap next.aggregate).map fun aggregate => { held with aggregate }

/-- A pending aggregate under its key. -/
abbrev Entry := Key × Pending

/-- A flush between two rounds. -/
structure Flush where
  /-- Which round is next, counted from 1. -/
  round : Nat := 1
  /-- Entries to send in the next round. -/
  left : List Entry
  /-- Entries that were written, in order. -/
  written : List Entry := []
  /-- Sources of entries that were given up, with the reason. -/
  givenUp : List (Source × Fault) := []

namespace Flush

/-- A flush of a batch. -/
def ofBatch (batch : List Entry) : Flush := { left := batch }

/-- The writes of the next round. -/
def requests (f : Flush) : List (Key × Aggregate) := f.left.map fun (k, p) => (k, p.aggregate)

/-- Results of a round, one per entry; any other number counts as a transient failure of all. -/
def fitResults (count : Nat) (results : List (Except Fault Unit)) : List (Except Fault Unit) :=
  if results.length = count then results else List.replicate count (.error .incompleteBatch)

/-- What becomes of an entry in a round. -/
inductive Fate where
  /-- It is written. -/
  | written
  /-- It is sent again. -/
  | left
  /-- It is given up. -/
  | givenUp (fault : Fault)
  deriving DecidableEq, Repr

/-- The fate that a result means in a round. -/
def Fate.of (policy : RetryPolicy) (round : Nat) : Except Fault Unit → Fate
  | .ok () => written
  | .error fault => if policy.retries fault.isTransient round then left else givenUp fault

/-- Entries with their fates in the next round. -/
def judged (policy : RetryPolicy) (f : Flush) (results : List (Except Fault Unit)) :
    List (Entry × Fate) :=
  f.left.zip ((fitResults f.left.length results).map (Fate.of policy f.round))

/-- The entries that are written. -/
def writtenOf (judged : List (Entry × Fate)) : List Entry :=
  judged.filterMap fun
    | (entry, .written) => some entry
    | _ => none

/-- The entries that are sent again. -/
def leftOf (judged : List (Entry × Fate)) : List Entry :=
  judged.filterMap fun
    | (entry, .left) => some entry
    | _ => none

/-- The sources of the entries that are given up. -/
def givenUpOf (judged : List (Entry × Fate)) : List (Source × Fault) :=
  judged.filterMap fun
    | (entry, .givenUp fault) => some (entry.2.source, fault)
    | _ => none

/-- What is left after the results of a round. -/
def afterRound (policy : RetryPolicy) (f : Flush) (results : List (Except Fault Unit)) : Flush :=
  let judged := f.judged policy results
  { round := f.round + 1
    left := leftOf judged
    written := f.written ++ writtenOf judged
    givenUp := f.givenUp ++ givenUpOf judged }

/-- Whether nothing is left to send. -/
def isOver (f : Flush) : Bool := f.left.isEmpty

/-- The first reason of every source, in order of first failure. -/
def firstReasons : List Nat → List (Source × Fault) → List (Source × Fault)
  | _, [] => []
  | seen, (source, fault) :: rest =>
    if source.handle ∈ seen then firstReasons seen rest
    else (source, fault) :: firstReasons (source.handle :: seen) rest

/-- The events to reject, each once. -/
def rejections (processor : String) (f : Flush) : List BadEvent :=
  (firstReasons [] f.givenUp).map fun (source, fault) =>
    { event := source.event, reason := fault.message, processor }

/-- Sends up to `rounds` rounds to a store that answers batches.  There is no result when the caller
does not survive an answer. -/
def send {σ : Type}
    (answer : σ → List (Key × Aggregate) → Option (List (Except Fault Unit)) × σ)
    (policy : RetryPolicy) (store : σ) : Nat → Flush → Option Flush × σ
  | 0, f => (some f, store)
  | rounds + 1, f =>
    if f.isOver then (some f, store)
    else
      match answer store f.requests with
      | (none, store) => (none, store)
      | (some results, store) => send answer policy store rounds (f.afterRound policy results)

/-- Sends a batch until every entry is written or given up. -/
def run (policy : RetryPolicy) (store : Cells.Unsteady) (batch : List Entry) :
    Option Flush × Cells.Unsteady :=
  send Cells.Unsteady.mergeBatch policy store (max policy.maxAttempts 1) (ofBatch batch)

end Flush

end StatRollup
