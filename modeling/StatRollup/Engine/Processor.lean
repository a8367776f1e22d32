import StatRollup.Engine.Worker
import StatRollup.Traffic.Partition
/-!
# Processors

A processor runs one worker per partition for a kind of statistic at an interval.  It goes from
stopped over starting to running, and over stopping back to stopped.  The workers between one
start and the next stop are a crew.  Once a crew is told to stop the processor takes no more
messages, but senders that were under way may still reach mailboxes that are open.
-/
namespace StatRollup

/-- Where a processor is in its life. -/
inductive RunState where
  /-- It has no workers. -/
  | stopped
  /-- Its workers are being set up. -/
  | starting
  /-- It takes messages. -/
  | running
  /-- Its workers empty their mailboxes. -/
  | stopping
  deriving DecidableEq, Repr, Inhabited

/-- The state in documents. -/
def RunState.tagName : RunState → String
  | stopped => "STOPPED"
  | starting => "STARTING"
  | running => "RUNNING"
  | stopping => "STOPPING"

/-- The workers of one run. -/
structure Crew where
  /-- Tells crews of one engine apart. -/
  serial : Nat
  /-- One worker per partition. -/
  workers : List Worker
  /-- Whether the crew is told to stop. -/
  isStopping : Bool := false

namespace Crew

/-- Whether every worker is over. -/
def isOver (c : Crew) : Bool := c.workers.all Worker.isOver

/-- Number of workers that ended in the middle of their work. -/
def deaths (c : Crew) : Nat := c.workers.countP Worker.hasDied

end Crew

/-- A processor. -/
structure Processor where
  /-- Its kind and interval. -/
  id : ProcessorId
  /-- Its settings. -/
  settings : Settings
  /-- The processor that written entries are handed on to. -/
  forward : Option ProcessorId := none
  /-- Where it is in its life. -/
  state : RunState := .stopped
  /-- Its workers, between start and stop. -/
  crew : Option Crew := none
  /-- What its workers counted, over all runs. -/
  stats : Stats := {}

namespace Processor

/-- How work is spread over its partitions. -/
def partitioner (p : Processor) : Partitioner := ⟨p.settings.partitions⟩

/-- Whether it runs. -/
def isHealthy (p : Processor) : Bool := p.state == .running

/-- The crew that takes messages, if there is one. -/
def openCrew? (p : Processor) : Option Crew := p.crew.filter fun c => !c.isStopping

/-- The worker of a partition. -/
def worker? (p : Processor) (partition : Nat) : Option Worker :=
  p.crew.bind fun c => c.workers[partition]?

/-- Changes the worker of a partition. -/
def setWorker (p : Processor) (partition : Nat) (w : Worker) : Processor :=
  { p with crew := p.crew.map fun c => { c with workers := c.workers.set partition w } }

/-- What the worker of a partition knows about its place. -/
def post (p : Processor) (partition : Nat) : Post :=
  { id := ⟨p.id, partition⟩, settings := p.settings, forward := p.forward }

/-- Sets up the workers of a new run. -/
def start (p : Processor) (serial now : Nat) : Processor :=
  { p with
    state := .running
    crew := some
      { serial, workers := List.replicate p.partitioner.count (.new p.settings now) } }

/-- Tells the workers to stop; without workers it is stopped at once. -/
def beginStop (p : Processor) : Processor :=
  match p.crew with
  | none => { p with state := .stopped }
  | some c => { p with state := .stopping, crew := some { c with isStopping := true } }

/-- Whether every worker of the run is over. -/
def isDone (p : Processor) : Bool :=
  match p.crew with
  | some c => c.isOver
  | none => true

/-- Ends the run, and tells whether workers died in it. -/
def endStop (p : Processor) : Except Fault Unit × Processor :=
  let stopped := { p with state := .stopped, crew := none }
  match p.crew with
  | none => (.ok (), stopped)
  | some c =>
    if c.deaths = 0 then (.ok (), stopped)
    else (.error (.workersDied c.deaths p.id.name), stopped)

/-- Entries grouped by the partition of their statistic, partitions ascending. -/
def groupRollups (p : Processor) (entries : List Entry) : List (Nat × List Entry) :=
  let routed := entries.map fun e => (p.partitioner.partitionOf e.1.statistic.toBytes, e)
  (Partitioner.group (·.1) routed).map fun (i, es) => (i, es.map (·.2))

/-- The processor in words, for health checks. -/
def summary (p : Processor) : List (String × String) :=
  [("events_received", toString p.stats.eventsReceived),
    ("events_rejected", toString p.stats.eventsRejected),
    ("fatal_errors", toString p.stats.fatalErrors),
    ("flushes", toString p.stats.flushes)] ++
  (match p.forward with
    | some coarser => [("forwards_to", coarser.name)]
    | none => []) ++
  [("id", p.id.name),
    ("interval", p.id.interval.longName),
    ("keys_failed", toString p.stats.keysFailed),
    ("keys_flushed", toString p.stats.keysFlushed),
    ("partitions", toString p.partitioner.count),
    ("state", p.state.tagName),
    ("statistic_type", p.id.kind.lowerName)]

end Processor

end StatRollup
