import StatRollup.Engine.Basic
/-!
# Running the engine

One way to run the engine: the worker that was woken first goes on until it has nothing to do,
then the next one.  When all workers wait, time can pass, up to the next moment at which one of
them wants to go on by itself.  Every run is a chain of the engine's small steps.
-/
namespace StatRollup.Engine

variable {σ : Type} [Uid.Store σ]

/-! ## Until all workers wait -/

/-- Whether a worker is about to hand a group on. -/
def isSending (w : Worker) : Bool :=
  match w.activity with
  | .sending .. => true
  | _ => false

/-- The first worker that waited for room in a mailbox and now has it. -/
def unblocked? (e : Engine σ) : Option WorkerId :=
  (e.processors.flatMap workersOf).find? fun w =>
    (e.worker? w).any isSending && (e.turn w).isSome

/-- The next turn of the first worker in line, which leaves the line when it has none. -/
def tick (e : Engine σ) : Option (Engine σ) :=
  match e.ready with
  | [] => e.unblocked?.map e.wake
  | w :: rest =>
    match e.turn w with
    | some e => some (e.unpark w)
    | none => some ({ e with ready := rest }.park w)

/-- Up to a number of turns. -/
def run : Nat → Engine σ → Engine σ
  | 0, e => e
  | fuel + 1, e =>
    match e.tick with
    | some e => run fuel e
    | none => e

/-- Turns that a message takes at most, up to a flush. -/
def turnsOf : Message → Nat
  | .events events => events.length + 1
  | .rollups _ => 1

/-- Turns that a worker takes at most for its messages and the one in its hands. -/
def turnsFor (w : Worker) : Nat :=
  let begun := match w.activity with
    | .handling events => events.length + 1
    | _ => 0
  (w.mailbox.queue.map turnsOf).foldl (· + ·) begun

/-- Turns that all messages for the workers of a processor take at most. -/
def queued (p : Processor) : Nat :=
  (p.crew.map fun c => (c.workers.map turnsFor).foldl (· + ·) 0).getD 0

/-- A number of turns that is enough for all workers to come to wait: every message can cause a
flush, and every flush a message per partition of the next processor. -/
def turnBound (e : Engine σ) : Nat :=
  let workers := (e.processors.map fun p => (workersOf p).length).foldl (· + ·) 0
  let messages := (e.processors.map queued).foldl (· + ·) 0
  let branches := (e.processors.map fun p => p.partitioner.count).foldl max 0 + 1
  let rounds := (e.processors.map fun p => p.settings.flushRetry.maxAttempts).foldl max 1
  (messages + 2 * workers + 1) * branches ^ (e.processors.length + 1) * (rounds + branches + 10)

/-- Lets workers take turns until all of them wait. -/
def settle (e : Engine σ) : Engine σ := run e.turnBound e

/-! ## Time -/

/-- The moments after now at which workers want to go on by themselves, those of workers that have
waited longest first. -/
def alarms (e : Engine σ) : List (Nat × WorkerId) :=
  (e.parked ++ e.processors.flatMap workersOf).filterMap fun w =>
    match (e.worker? w).bind Worker.alarm? with
    | some at_ => if e.shared.now < at_ then some (at_, w) else none
    | none => none

/-- The earliest of these moments. -/
def nextAlarm? (e : Engine σ) : Option Nat := (e.alarms.map (·.1)).min?

/-- Lets time pass up to a moment, and wakes the workers that wait for it. -/
def passTo (e : Engine σ) (time : Nat) : Engine σ :=
  let due := e.alarms.filter fun a => a.1 ≤ time
  (due.map (·.2)).foldl wake { e with shared := { e.shared with now := time } }

/-- Lets time pass up to a moment, with up to `fuel` stops on the way.  Workers that wait for the
moment itself are woken and do not take their turns yet. -/
def runTo (time : Nat) : Nat → Engine σ → Engine σ
  | 0, e => e.passTo time
  | fuel + 1, e =>
    let e := e.settle
    match e.nextAlarm? with
    | some next => if next < time then runTo time fuel (e.passTo next) else e.passTo time
    | none => e.passTo time

/-- Lets some milliseconds pass; none are no occasion for workers to take turns. -/
def advance (e : Engine σ) (millis : Nat) : Engine σ := e.runTo (e.shared.now + millis) millis

/-- Lets time pass until a condition holds, with up to `fuel` stops on the way. -/
def runUntil (done : Engine σ → Bool) : Nat → Engine σ → Engine σ
  | 0, e => e
  | fuel + 1, e =>
    let e := e.settle
    if done e then e
    else
      match e.nextAlarm? with
      | some next => runUntil done fuel (e.passTo next)
      | none => e

/-- A number of milliseconds in which every flush that is under way or still to come at a stop is
over. -/
def patience (e : Engine σ) : Nat :=
  (e.processors.map fun p =>
    2 * (p.settings.flushRetry.maxAttempts * (p.settings.flushRetry.maxBackoff + 1) + 1)).foldl
      (· + ·) 0 + 1

/-! ## Operations that wait -/

/-- Tells a processor to stop and waits until its workers are over. -/
def stop (e : Engine σ) (id : ProcessorId) : Except Fault Unit × Engine σ :=
  let e := e.beginStop id
  if (e.processor? id).any fun p => p.crew.isSome then
    (e.runUntil (fun e => e.isDone id) e.patience).endStop id
  else e.endStop id

/-- Delivers a message, and waits for room if there is none. -/
def send (e : Engine σ) (id : ProcessorId) (serial partition : Nat) (message : Message) :
    Except Fault Unit × Engine σ :=
  let waits := fun (e : Engine σ) =>
    match e.deliver id serial partition message with
    | .waits => true
    | _ => false
  let e := if waits e then e.runUntil (fun e => !waits e) e.patience else e
  match e.deliver id serial partition message with
  | .taken e => (.ok (), e)
  | .waits => (.error (.partitionClosed partition), e)
  | .refused f => (.error f, e)

end StatRollup.Engine
