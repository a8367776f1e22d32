import StatRollup.Engine.Processor
/-!
# The engine

The engine is a set of processors over shared stores.  Its state changes in small steps: a worker
takes a turn, a message reaches a mailbox, a processor starts or is told to stop, or time passes.
Workers that can go on are kept in a line, in the order in which they were woken, and those that
wait for something are kept in the order in which they began to.
-/
namespace StatRollup

/-- Processors, what they share, and which workers can go on. -/
structure Engine (σ : Type := Uid.Tables) [Uid.Store σ] where
  /-- What all workers share. -/
  shared : Shared σ
  /-- The processors. -/
  processors : List Processor
  /-- Workers that can go on, the first one next. -/
  ready : List WorkerId := []
  /-- Workers that wait for a message or a moment, the one that has waited longest first. -/
  parked : List WorkerId := []
  /-- The serial of the next crew. -/
  nextSerial : Nat := 0

namespace Engine

variable {σ : Type} [Uid.Store σ]

/-! ## Looking and changing -/

/-- The processor of an id. -/
def processor? (e : Engine σ) (id : ProcessorId) : Option Processor :=
  e.processors.find? fun p => p.id == id

/-- Changes the processor of an id. -/
def modify (e : Engine σ) (id : ProcessorId) (f : Processor → Processor) : Engine σ :=
  { e with processors := e.processors.map fun p => if p.id = id then f p else p }

/-- The worker of an id. -/
def worker? (e : Engine σ) (w : WorkerId) : Option Worker :=
  (e.processor? w.processor).bind fun p => p.worker? w.partition

/-- Puts a worker in line unless it is there. -/
def wake (e : Engine σ) (w : WorkerId) : Engine σ :=
  if w ∈ e.ready then e else { e with ready := e.ready ++ [w] }

/-- Puts a worker in line if it waits. -/
def wakeIfWaiting (e : Engine σ) (w : WorkerId) : Engine σ :=
  match e.worker? w with
  | some worker => if worker.isWaiting then e.wake w else e
  | none => e

/-- Puts a worker behind those that wait, unless it is among them or has no moment to wait for. -/
def park (e : Engine σ) (w : WorkerId) : Engine σ :=
  if (e.worker? w).any (fun worker => worker.alarm?.isSome) && !e.parked.contains w then
    { e with parked := e.parked ++ [w] }
  else e

/-- Takes a worker out of those that wait. -/
def unpark (e : Engine σ) (w : WorkerId) : Engine σ := { e with parked := e.parked.erase w }

/-- The ids of all workers of a processor. -/
def workersOf (p : Processor) : List WorkerId :=
  (List.range ((p.crew.map fun c => c.workers.length).getD 0)).map fun i => ⟨p.id, i⟩

/-! ## Messages -/

/-- Puts a message into the mailbox of a worker of a crew, which wakes the worker.  A message for a
crew that is gone is refused. -/
def deliver (e : Engine σ) (id : ProcessorId) (serial partition : Nat) (message : Message) :
    Posting (Engine σ) :=
  match (e.processor? id).bind Processor.crew with
  | none => .refused (.partitionClosed partition)
  | some crew =>
    match crew.workers[partition]? with
    | none => .refused (.partitionRange partition crew.workers.length)
    | some worker =>
      if crew.serial ≠ serial ∨ worker.mailbox.isOpen = false then
        .refused (.partitionClosed partition)
      else if worker.mailbox.isFull then .waits
      else
        let worker := { worker with mailbox := worker.mailbox.push message }
        .taken ((e.modify id fun p => p.setWorker partition worker).wakeIfWaiting ⟨id, partition⟩)

/-! ## Turns -/

/-- Lets a worker do something at its bench. -/
def atBench (e : Engine σ) (p : Processor) (partition : Nat) (worker : Worker)
    (f : Post → Bench σ → Bench σ) : Engine σ :=
  let b := f (p.post partition) { shared := e.shared, stats := p.stats, worker }
  { e.modify p.id fun p => { p with stats := b.stats }.setWorker partition b.worker with
    shared := b.shared }

/-- Turns to handing entries on.  Without a next processor, or without entries, there is nothing to
do; when the next processor takes no messages the entries are dropped. -/
def beginHandingOn (e : Engine σ) (p : Processor) (partition : Nat) (worker : Worker)
    (trigger : Trigger) (entries : List Entry) : Engine σ :=
  let skip := e.atBench p partition worker fun post b => b.afterFlush post trigger
  match p.forward with
  | none => skip
  | some coarser =>
    match entries, (e.processor? coarser).bind fun q => q.openCrew?.map fun c => (q, c) with
    | [], _ => skip
    | _, none => skip
    | entries, some (q, crew) =>
      let rekeyed := entries.map fun (k, pending) => (k.withInterval coarser.interval, pending)
      let groups := q.groupRollups rekeyed
      e.atBench p partition worker fun _ b =>
        { b with
          worker := { b.worker with
            activity := .sending trigger crew.serial groups entries.length } }

/-- Hands the next group on.  When a mailbox is closed the rest is dropped. -/
def sendNext (e : Engine σ) (p : Processor) (partition : Nat) (worker : Worker) (trigger : Trigger)
    (serial count : Nat) : List (Nat × List Entry) → Option (Engine σ)
  | [] =>
    some <| e.atBench p partition worker fun post b =>
      let forwarded := b.stats.rollupsForwarded + count
      { b with stats := { b.stats with rollupsForwarded := forwarded } }.afterFlush post trigger
  | (target, group) :: rest =>
    match p.forward with
    | none => some (e.atBench p partition worker fun post b => b.afterFlush post trigger)
    | some coarser =>
      match e.deliver coarser serial target (.rollups group) with
      | .waits => none
      | .refused _ => some (e.atBench p partition worker fun post b => b.afterFlush post trigger)
      | .taken e =>
        some <| e.atBench p partition worker fun _ b =>
          { b with
            worker := { b.worker with activity := .sending trigger serial rest count } }

/-- The next turn of a worker, if it has one. -/
def turn (e : Engine σ) (w : WorkerId) : Option (Engine σ) :=
  match e.processor? w.processor with
  | none => none
  | some p =>
    match p.crew, p.worker? w.partition with
    | some crew, some worker =>
      match worker.activity with
      | .handingOn trigger entries =>
        some (e.beginHandingOn p w.partition worker trigger entries)
      | .sending trigger serial groups count =>
        e.sendNext p w.partition worker trigger serial count groups
      | _ =>
        let post := p.post w.partition
        ((Bench.mk e.shared p.stats worker).turn post crew.isStopping).map fun b =>
          e.atBench p w.partition worker fun _ _ => b
    | _, _ => none

/-! ## Starting and stopping -/

/-- Starts a processor unless it runs. -/
def start (e : Engine σ) (id : ProcessorId) : Engine σ :=
  match e.processor? id with
  | none => e
  | some p =>
    if p.state = .running then e
    else
      let e := { e.modify id fun p => p.start e.nextSerial e.shared.now with
        nextSerial := e.nextSerial + 1 }
      ((e.processor? id).map workersOf).getD [] |>.foldl wake e

/-- Tells a processor to stop, which wakes its workers that wait for messages, the one that has
waited longest first. -/
def beginStop (e : Engine σ) (id : ProcessorId) : Engine σ :=
  let e := e.modify id Processor.beginStop
  let workers := ((e.processor? id).map workersOf).getD []
  (e.parked.filter (workers.contains ·) ++ workers).foldl wakeIfWaiting e

/-- Whether the workers of a processor are over. -/
def isDone (e : Engine σ) (id : ProcessorId) : Bool :=
  match e.processor? id with
  | some p => p.isDone
  | none => true

/-- Ends the run of a processor. -/
def endStop (e : Engine σ) (id : ProcessorId) : Except Fault Unit × Engine σ :=
  match e.processor? id with
  | some p => (p.endStop.1, e.modify id fun p => p.endStop.2)
  | none => (.ok (), e)

end Engine

end StatRollup
