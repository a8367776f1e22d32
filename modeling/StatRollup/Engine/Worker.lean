import StatRollup.Engine.Flush
import StatRollup.Engine.Mapping
import StatRollup.Engine.Window
import StatRollup.Settings
/-!
# Workers

A worker owns one partition of a processor: a mailbox, and a window of entries.  It handles the
messages of its mailbox in order, maps raw events, coalesces entries in its window, and flushes
the window when it is full, when its time is over, or when the worker stops.

What a worker does is cut into turns.  Between two turns it may be waiting for a message or for
time to pass, so its whole state is data: what it is in the middle of is its `Activity`.  A message
of raw events takes a turn for each of them, as what is shared may change from one event to the
next.  A turn touches the worker itself, the counters of its processor, and what all workers share
(`Shared`); only handing written entries on to the next processor touches another worker, and that
is not done here.
-/
namespace StatRollup

/-! ## Processors by name -/

/-- The processor of a kind of statistic at an interval. -/
structure ProcessorId where
  /-- The kind. -/
  kind : Statistic.Kind
  /-- The interval. -/
  interval : Interval
  deriving DecidableEq, Repr, Inhabited

namespace ProcessorId

/-- The name of a processor in messages. -/
def name (p : ProcessorId) : String := s!"{p.kind.lowerName}-{p.interval.lowerName}"

/-- Every processor: by kind, finest interval first. -/
def all : List ProcessorId :=
  Statistic.Kind.all.flatMap fun kind => Interval.all.map fun interval => { kind, interval }

/-- The processor of the same kind at the next coarser interval. -/
def coarser? (p : ProcessorId) : Option ProcessorId :=
  p.interval.coarser?.map fun interval => { p with interval }

end ProcessorId

/-- The worker of a partition of a processor. -/
structure WorkerId where
  /-- The processor. -/
  processor : ProcessorId
  /-- The partition. -/
  partition : Nat
  deriving DecidableEq, Repr, Inhabited

/-! ## Counters -/

/-- What the workers of a processor count.  The counters have no bound here; they stand for words of
64 bits, which would come back to zero after 2 to the 64 counts. -/
structure Stats where
  /-- Raw events taken from mailboxes. -/
  eventsReceived : Nat := 0
  /-- Events rejected. -/
  eventsRejected : Nat := 0
  /-- Flushes of a window that held something. -/
  flushes : Nat := 0
  /-- Keys written. -/
  keysFlushed : Nat := 0
  /-- Keys given up. -/
  keysFailed : Nat := 0
  /-- Entries handed on. -/
  rollupsForwarded : Nat := 0
  /-- Cells removed by retention. -/
  cellsPurged : Nat := 0
  /-- Fatal faults while mapping. -/
  fatalErrors : Nat := 0
  deriving DecidableEq, Repr, Inhabited

/-! ## State -/

/-- Work for a partition. -/
inductive Message where
  /-- Raw events of statistics stored at the processor's interval. -/
  | events (events : List Event)
  /-- Entries written at the next finer interval, under their keys at this one. -/
  | rollups (entries : List Entry)
  deriving Repr, Inhabited

/-- The raw events of a message. -/
def Message.raw : Message → List Event
  | .events es => es
  | .rollups _ => []

/-- Why a window is flushed. -/
inductive Trigger where
  /-- It is full. -/
  | size
  /-- Its time is over. -/
  | time
  /-- The worker stops. -/
  | stop
  deriving DecidableEq, Repr, Inhabited

/-- What a worker is in the middle of. -/
inductive Activity where
  /-- Nothing: it waits for a message, for its deadline, or for being stopped. -/
  | waiting
  /-- A message of raw events, of which these are left. -/
  | handling (events : List Event)
  /-- A flush, between two rounds; the next round is due at a time. -/
  | backingOff (trigger : Trigger) (flush : Flush) (due : Nat)
  /-- About to hand written entries on to the next processor. -/
  | handingOn (trigger : Trigger) (entries : List Entry)
  /-- Handing entries on, group by group, to the partitions of a crew; `count` in all. -/
  | sending (trigger : Trigger) (serial : Nat) (groups : List (Nat × List Entry)) (count : Nat)
  /-- Nothing any more. -/
  | ended
  /-- Nothing any more, after a failure in the middle of its work. -/
  | died

/-- A worker. -/
structure Worker where
  /-- Messages to handle. -/
  mailbox : Mailbox Message
  /-- Entries to flush. -/
  window : Window Key Pending
  /-- What it is in the middle of. -/
  activity : Activity := .waiting
  /-- Whether it has been told to stop and only empties its mailbox. -/
  isClosing : Bool := false
  /-- When it last purged. -/
  lastPurge : Option Nat := none

namespace Worker

/-- A worker that starts at a time. -/
def new (settings : Settings) (now : Nat) : Worker where
  mailbox := .empty Settings.queueCapacity
  window := .empty settings.minFlushBatchSize settings.maxFlushInterval now

/-- Whether the worker waits. -/
def isWaiting (w : Worker) : Bool :=
  match w.activity with
  | .waiting => true
  | _ => false

/-- Whether the worker is over, in whichever way. -/
def isOver (w : Worker) : Bool :=
  match w.activity with
  | .ended | .died => true
  | _ => false

/-- Whether the worker ended in the middle of its work. -/
def hasDied (w : Worker) : Bool :=
  match w.activity with
  | .died => true
  | _ => false

/-- Whether the time of the window is over and there is something to do about it: an empty window
that was opened just now is only looked at to purge. -/
def isDue (w : Worker) (now : Nat) (purges : Bool) : Bool :=
  decide (w.window.deadline ≤ now) &&
    (decide (w.window.openedAt < now) || 0 < w.window.size || purges)

/-- When the worker wants to go on by itself. -/
def alarm? (w : Worker) : Option Nat :=
  match w.activity with
  | .waiting => if w.isClosing then none else some w.window.deadline
  | .backingOff _ _ due => some due
  | _ => none

/-- The worker after a failure in the middle of its work: it holds nothing, and its messages are
lost. -/
def die (w : Worker) : Worker :=
  { w with
    activity := .died
    mailbox := w.mailbox.abandon
    window := w.window.clear }

end Worker

/-! ## What workers share -/

/-- The registry, the dictionary, the stores and the clocks.  The store of identifiers is of any
kind; tables in memory are one. -/
structure Shared (σ : Type := Uid.Tables) [Uid.Store σ] where
  /-- Definitions by name. -/
  registry : Registry
  /-- Identifiers of names. -/
  dictionary : Uid.Dictionary σ
  /-- Where entries are written. -/
  store : Cells.Unsteady
  /-- Where rejected events go. -/
  badEvents : BadEvents
  /-- Source identifiers kept of each event. -/
  cap : Nat
  /-- Milliseconds since the engine was set up. -/
  now : Nat := 0
  /-- The time of day, which retention looks at. -/
  today : Timestamp := 0
  /-- The handle of the next source. -/
  nextHandle : Nat := 0
  /-- The order in which the entries of a window leave it. -/
  arrange : List Entry → List Entry := fun entries => entries

/-- What a worker can touch in a turn. -/
structure Bench (σ : Type := Uid.Tables) [Uid.Store σ] where
  /-- What all workers share. -/
  shared : Shared σ
  /-- The counters of its processor. -/
  stats : Stats
  /-- The worker. -/
  worker : Worker

/-- What a worker knows about its place. -/
structure Post where
  /-- Its processor and partition. -/
  id : WorkerId
  /-- Settings of its processor. -/
  settings : Settings
  /-- The processor that written entries are handed on to. -/
  forward : Option ProcessorId

namespace Bench

variable {σ : Type} [Uid.Store σ]

/-! ## Handling messages -/

/-- Rejects an event. -/
def reject (p : Post) (b : Bench σ) (e : Event) (f : Fault) : Bench σ :=
  let bad := { event := e, reason := f.message, processor := p.id.processor.name }
  { b with
    shared := { b.shared with badEvents := b.shared.badEvents.add bad }
    stats := { b.stats with
      eventsRejected := b.stats.eventsRejected + 1
      fatalErrors := b.stats.fatalErrors + if f.isFatal then 1 else 0 } }

/-- Maps one event into the window: all of its entries, or none and a rejection. -/
def handleEvent (p : Post) (b : Bench σ) (e : Event) : Bench σ :=
  let s := b.shared
  let (mapped, dictionary) := mapEvent s.registry s.dictionary s.cap p.id.processor.kind
    p.id.processor.interval e
  let b := { b with shared := { s with dictionary } }
  match mapped with
  | .error f => b.reject p e f
  | .ok pairs =>
    let source : Source := { handle := s.nextHandle, event := e }
    let b := { b with shared := { b.shared with nextHandle := s.nextHandle + 1 } }
    let entries : List Entry := pairs.map fun (k, aggregate) => (k, { aggregate, source })
    match b.worker.window.addAll (Pending.merge p.settings.maxEventIds) entries with
    | .ok window => { b with worker := { b.worker with window } }
    | .error f => b.reject p e f

/-- Adds entries of another worker to the window.  Those that do not merge are dropped. -/
def handleRollups (p : Post) (b : Bench σ) (entries : List Entry) : Bench σ :=
  let window := b.worker.window.addEach (Pending.merge p.settings.maxEventIds) entries
  { b with worker := { b.worker with window } }

/-! ## Flushing -/

/-- How long the cells of a worker's interval are kept, when the worker is the one that purges and
it is time again. -/
def horizonIfDue? (b : Bench σ) (p : Post) : Option Nat :=
  let again : Bool := match b.worker.lastPurge with
    | some last => decide (last + Settings.purgeInterval ≤ b.shared.now)
    | none => true
  if p.id.partition = 0 ∧ again then p.settings.retention p.id.processor.interval else none

/-- Removes expired cells, when it is time. -/
def purgeIfDue (p : Post) (b : Bench σ) : Bench σ :=
  match b.horizonIfDue? p with
  | none => b
  | some horizon =>
    let cutoff := b.shared.today - Settings.signedHorizon horizon
    let (removed, store) := b.shared.store.purge p.id.processor.interval cutoff
    { shared := { b.shared with store }
      stats := { b.stats with cellsPurged := b.stats.cellsPurged + removed }
      worker := { b.worker with lastPurge := some b.shared.now } }

/-- Goes on after a flush: back to waiting, or to the end. -/
def afterFlush (p : Post) (b : Bench σ) : Trigger → Bench σ
  | .size => { b with worker := { b.worker with activity := .waiting } }
  | .time => purgeIfDue p { b with worker := { b.worker with activity := .waiting } }
  | .stop => { b with worker := { b.worker with activity := .ended } }

/-- Files the outcome of a flush that is over: rejects sources, counts, and turns to handing the
written entries on. -/
def conclude (p : Post) (b : Bench σ) (trigger : Trigger) (f : Flush) : Bench σ :=
  let rejected := f.rejections p.id.processor.name
  { shared := { b.shared with badEvents := b.shared.badEvents.addAll rejected }
    stats := { b.stats with
      flushes := b.stats.flushes + 1
      keysFlushed := b.stats.keysFlushed + f.written.length
      keysFailed := b.stats.keysFailed + f.givenUp.length
      eventsRejected := b.stats.eventsRejected + rejected.length }
    worker := { b.worker with activity := .handingOn trigger f.written } }

/-- One round of a flush. -/
def round (p : Post) (b : Bench σ) (trigger : Trigger) (f : Flush) : Bench σ :=
  let (results, store) := b.shared.store.mergeBatch f.requests
  let b := { b with shared := { b.shared with store } }
  match results with
  | none => { b with worker := b.worker.die }
  | some results =>
    let policy := p.settings.flushRetry
    let next := f.afterRound policy results
    if next.isOver then b.conclude p trigger next
    else
      let due := b.shared.now + policy.longestDelay f.round
      { b with worker := { b.worker with activity := .backingOff trigger next due } }

/-- Empties the window and starts writing what it held; an empty window is not counted. -/
def flush (p : Post) (b : Bench σ) (trigger : Trigger) : Bench σ :=
  let (entries, window) := b.worker.window.drain b.shared.now
  let b := { b with worker := { b.worker with window } }
  match b.shared.arrange entries with
  | [] => b.afterFlush p trigger
  | batch => b.round p trigger (.ofBatch batch)

/-! ## Turns -/

/-- The end of a message: the worker waits again, unless the message has filled its window and it is
not stopping. -/
def finishMessage (p : Post) (b : Bench σ) : Bench σ :=
  let idle := { b with worker := { b.worker with activity := .waiting } }
  if b.worker.isClosing = false ∧ b.worker.window.isFull = true then idle.flush p .size else idle

/-- Handles the first of the events that are left of a message, and leaves the others to turns of
their own. -/
def handleNext (p : Post) (b : Bench σ) : List Event → Bench σ
  | [] => b.finishMessage p
  | e :: rest =>
    let b := handleEvent p { b with worker := { b.worker with activity := .handling rest } } e
    if rest.isEmpty then b.finishMessage p else b

/-- Takes a message out of the mailbox. -/
def takeUp (b : Bench σ) (message : Message) (rest : List Message) : Bench σ :=
  { b with
    stats := { b.stats with eventsReceived := b.stats.eventsReceived + message.raw.length }
    worker := { b.worker with
      mailbox := { b.worker.mailbox with queue := rest }
      activity := .handling message.raw } }

/-- Takes the oldest message out of the mailbox, and handles its first event or its entries. -/
def receive (p : Post) (b : Bench σ) (message : Message) (rest : List Message) : Bench σ :=
  match message with
  | .events events => (b.takeUp message rest).handleNext p events
  | .rollups entries => ((b.takeUp message rest).handleRollups p entries).finishMessage p

/-- The next turn at the point where a worker waits.  Being stopped comes before messages, and
messages come before the deadline. -/
def waitingTurn (p : Post) (stopping : Bool) (b : Bench σ) : Option (Bench σ) :=
  let w := b.worker
  if stopping && !w.isClosing then
    some { b with worker := { w with isClosing := true, mailbox := w.mailbox.close } }
  else
    match w.mailbox.queue with
    | message :: rest => some (b.receive p message rest)
    | [] =>
      if w.isClosing then some (b.flush p .stop)
      else if w.isDue b.shared.now (b.horizonIfDue? p).isSome then some (b.flush p .time)
      else none

/-- The next turn of a worker by itself, if it has one. -/
def turn (p : Post) (stopping : Bool) (b : Bench σ) : Option (Bench σ) :=
  match b.worker.activity with
  | .waiting => b.waitingTurn p stopping
  | .handling events => some (b.handleNext p events)
  | .backingOff trigger f due => if due ≤ b.shared.now then some (b.round p trigger f) else none
  | _ => none

end Bench

end StatRollup
