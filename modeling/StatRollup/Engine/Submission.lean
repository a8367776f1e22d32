import StatRollup.Engine.Schedule
/-!
# Submissions

Raw events are queued at one processor, split by partition; events of a partition that is closed
are handed back.  Written entries are queued at a processor likewise, except that the first closed
partition ends the submission.
-/
namespace StatRollup

/-- Events that a processor did not queue, and why. -/
structure Unsent where
  /-- Why. -/
  fault : Fault
  /-- The events. -/
  events : List Event

namespace Engine

variable {σ : Type} [Uid.Store σ]

/-- Queues groups of events at the partitions of a crew, and gives those that are handed back. -/
def sendEvents (e : Engine σ) (id : ProcessorId) (serial : Nat) :
    List (Nat × List Event) → List Event × Engine σ
  | [] => ([], e)
  | (partition, events) :: rest =>
    match e.send id serial partition (.events events) with
    | (.ok (), e) => e.sendEvents id serial rest
    | (.error _, e) =>
      let (unsent, e) := e.sendEvents id serial rest
      (events ++ unsent, e)

/-- Queues raw events at a processor. -/
def submitTo (e : Engine σ) (id : ProcessorId) (events : List Event) :
    Except Unsent Unit × Engine σ :=
  match (e.processor? id).bind fun p => p.openCrew?.map fun c => (p, c) with
  | none => (.error { fault := .notRunning id.name, events }, e)
  | some (p, crew) =>
    match e.sendEvents id crew.serial (p.partitioner.split events) with
    | ([], e) => (.ok (), e)
    | (unsent, e) => (.error { fault := .stopping id.name, events := unsent }, e)

/-- Makes entries of events, each with a source of its own and at most `cap` identifiers. -/
def newEntries (e : Engine σ) (cap : Nat) (keyed : List (Key × Event)) : List Entry × Engine σ :=
  let first := e.shared.nextHandle
  let entries : List Entry := keyed.mapIdx fun i (k, event) =>
    (k, { aggregate := .ofEvent cap event, source := { handle := first + i, event } })
  (entries, { e with shared := { e.shared with nextHandle := first + keyed.length } })

/-- Queues groups of entries at the partitions of a crew, up to the first that is closed. -/
def sendRollups (e : Engine σ) (id : ProcessorId) (serial : Nat) :
    List (Nat × List Entry) → Except Fault Unit × Engine σ
  | [] => (.ok (), e)
  | (partition, entries) :: rest =>
    match e.send id serial partition (.rollups entries) with
    | (.ok (), e) => e.sendRollups id serial rest
    | (.error f, e) => (.error f, e)

/-- Queues written entries at a processor. -/
def submitRollups (e : Engine σ) (id : ProcessorId) (entries : List Entry) :
    Except Fault Unit × Engine σ :=
  match entries, (e.processor? id).bind fun p => p.openCrew?.map fun c => (p, c) with
  | [], _ => (.ok (), e)
  | _, none => (.error (.notRunning id.name), e)
  | entries, some (p, crew) => e.sendRollups id crew.serial (p.groupRollups entries)

end Engine

end StatRollup
