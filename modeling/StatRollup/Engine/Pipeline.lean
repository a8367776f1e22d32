import StatRollup.Engine.Submission
/-!
# The pipeline

The pipeline is the engine with one processor for every kind and interval, each handing on to the
next coarser one of its kind, so that a statistic is stored at its own precision and at every
coarser one.  It starts from the coarsest and stops from the finest, so that what is handed on
finds a processor that runs.  A submission goes to the processors of its events; events that
cannot be routed are rejected.
-/
namespace StatRollup

/-- Outcome of a submission. -/
structure IngestReport where
  /-- Events that were queued. -/
  accepted : Nat := 0
  /-- Events that were rejected. -/
  rejected : Nat := 0
  deriving DecidableEq, Repr, Inhabited

namespace Engine

/-- Name of the pipeline on events that it rejects. -/
def pipelineName : String := "pipeline"

/-- What processors share at the beginning, with tables in memory for identifiers. -/
def sharedOf (settings : Settings) (registry : Registry) (sequence : UInt64)
    (badCapacity : Nat) (today : Timestamp) : Shared where
  registry
  dictionary := .new (.empty settings.uidWidth sequence) settings.dictionaryCacheCapacity
  store := { cells := .empty settings.uidWidth settings.maxEventIds }
  badEvents := .empty badCapacity
  cap := settings.maxEventIds
  today

variable {σ : Type} [Uid.Store σ]

/-- A stopped pipeline over shared stores. -/
def pipeline (settings : Settings) (shared : Shared σ) : Except Fault (Engine σ) := do
  settings.validate
  return {
    shared
    processors := ProcessorId.all.map fun id => { id, settings, forward := id.coarser? } }

/-- Whether every processor runs. -/
def isHealthy (e : Engine σ) : Bool := e.processors.all Processor.isHealthy

/-- Starts every processor, the last one first. -/
def startAll (e : Engine σ) : Engine σ := (e.processors.map (·.id)).reverse.foldl start e

/-- Stops processors one after another, and gives the first fault. -/
def stopEach (e : Engine σ) : List ProcessorId → Except Fault Unit × Engine σ
  | [] => (.ok (), e)
  | id :: ids =>
    match e.stop id with
    | (.ok (), e) => e.stopEach ids
    | (.error f, e) => (.error f, (e.stopEach ids).2)

/-- Stops every processor, the first one first. -/
def stopAll (e : Engine σ) : Except Fault Unit × Engine σ := e.stopEach (e.processors.map (·.id))

/-- Rejects an event in the name of the pipeline. -/
def reject (e : Engine σ) (event : Event) (f : Fault) : Engine σ :=
  let bad := { event, reason := f.message, processor := pipelineName }
  { e with shared := { e.shared with badEvents := e.shared.badEvents.add bad } }

/-- Events with the processors of their statistics, in order; those without are rejected. -/
def route (e : Engine σ) : List Event → List (ProcessorId × Event) × Nat × Engine σ
  | [] => ([], 0, e)
  | event :: events =>
    match event.resolve e.shared.registry with
    | .ok s =>
      let (routed, rejected, e) := e.route events
      ((⟨s.kind, s.precision⟩, event) :: routed, rejected, e)
    | .error f =>
      let (routed, rejected, e) := (e.reject event f).route events
      (routed, rejected + 1, e)

/-- Routed events grouped by processor, in the order of processors, none of the groups empty. -/
def groups (e : Engine σ) (routed : List (ProcessorId × Event)) :
    List (ProcessorId × List Event) :=
  e.processors.filterMap fun p =>
    match routed.filter fun r => r.1 == p.id with
    | [] => none
    | group => some (p.id, group.map (·.2))

/-- Queues groups at their processors.  Events that are handed back, because a processor is being
stopped, are rejected. -/
def queueAll (e : Engine σ) (report : IngestReport) :
    List (ProcessorId × List Event) → IngestReport × Engine σ
  | [] => (report, e)
  | (id, events) :: rest =>
    match e.submitTo id events with
    | (.ok (), e) =>
      e.queueAll { report with accepted := report.accepted + events.length } rest
    | (.error unsent, e) =>
      let handedBack := unsent.events.length
      let e := unsent.events.foldl (fun e event => e.reject event unsent.fault) e
      e.queueAll
        { accepted := report.accepted + (events.length - handedBack)
          rejected := report.rejected + handedBack } rest

/-- Submits events.  When a processor that they are for does not run, none of them is queued. -/
def submit (e : Engine σ) (events : List Event) : Except Fault IngestReport × Engine σ :=
  let (routed, rejected, e) := e.route events
  let groups := e.groups routed
  match groups.find? fun g => !(e.processor? g.1).any Processor.isHealthy with
  | some (id, _) => (.error (.notRunning id.name), e)
  | none =>
    let (report, e) := e.queueAll { rejected } groups
    (.ok report, e)

end Engine

end StatRollup
