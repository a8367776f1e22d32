import StatRollup.Engine.Submission
import StatRollup.Proofs.Engine.Diary
import StatRollup.Proofs.Engine.Relay

/-!
# Processors that start and stop on their own

A `Plant` is a set of processors, each of which somebody may start and stop at any time, with the
calls that queue events at them and a record of what happened: which messages mailboxes took and
from whom, and what every worker did with its own in each turn (`Diary`).  The record is written
by observers of the engine (`page`, `handover?`) and nothing reads it.

A move is one small step of one call, of one worker or of one processor, so a list of moves is an
interleaving of all of them.  A move that cannot be made changes nothing, and `Plant.moves_step`
says all that the others do.  Starting and stopping a processor exclude each other, so a processor
that is being stopped is not started or stopped again before its workers are over.  What all workers
share is in the hands of others as well, and may become anything between two moves.
-/

namespace StatRollup

variable {σ : Type} [Uid.Store σ]

/-- The place of a worker in one run of its processor. -/
structure Slot where
  /-- The processor. -/
  processor : ProcessorId
  /-- The crew. -/
  serial : Nat
  /-- The partition. -/
  partition : Nat
  deriving DecidableEq, Repr

/-- The worker of a slot. -/
def Slot.worker (slot : Slot) : WorkerId := ⟨slot.processor, slot.partition⟩

/-- Who brought a message to a mailbox. -/
inductive Sender where
  /-- A call, by its number. -/
  | call (i : Nat)
  /-- A worker. -/
  | worker (slot : Slot)
  deriving DecidableEq, Repr

/-- A message that a mailbox took. -/
structure Arrival where
  /-- Who brought it. -/
  sender : Sender
  /-- Whose mailbox it is. -/
  slot : Slot
  /-- The message. -/
  message : Message

/-- The entries of a message. -/
def Message.keyed : Message → List Entry
  | .events _ => []
  | .rollups es => es

/-- The pieces of a message bring nothing else. -/
theorem Message.subset_of_mem_pieces {m piece : Message} (h : piece ∈ m.pieces) :
    piece.raw ⊆ m.raw ∧ piece.keyed ⊆ m.keyed := by
  cases m with
  | events es =>
    obtain ⟨e, he, rfl⟩ := List.mem_map.1 h
    exact ⟨List.cons_subset.2 ⟨he, List.nil_subset _⟩, List.nil_subset _⟩
  | rollups es =>
    cases List.mem_singleton.1 h
    exact ⟨List.Subset.refl _, List.Subset.refl _⟩

theorem Activity.keyed_of_mem_pieces {activity : Activity} {piece : Message}
    (h : piece ∈ activity.pieces) : piece.keyed = [] := by
  cases activity with
  | handling events =>
    exact List.subset_nil.1 (Message.subset_of_mem_pieces (m := .events events) h).2
  | _ => cases h

/-- A call that queues events at a processor. -/
structure Call where
  /-- The processor. -/
  id : ProcessorId
  /-- The events. -/
  events : List Event
  /-- The crew that takes them. -/
  serial : Nat := 0
  /-- The partitions that are left, with their events. -/
  parts : List (Nat × List Event) := []
  /-- Events that are handed back. -/
  back : List Event := []

/-- A call that hands the events of the next partition back. -/
def Call.skip (call : Call) : Call :=
  match call.parts with
  | [] => call
  | (_, events) :: parts => { call with parts, back := call.back ++ events }

namespace Engine

/-! ## Looking at workers -/

/-- The worker in a slot, while its run lasts. -/
def workerAt? (e : Engine σ) (slot : Slot) : Option Worker :=
  (e.crew? slot.processor).bind fun c =>
    if c.serial = slot.serial then c.workers[slot.partition]? else none

/-- The slot of a worker. -/
def slot? (e : Engine σ) (w : WorkerId) : Option Slot :=
  (e.crew? w.processor).map fun c => ⟨w.processor, c.serial, w.partition⟩

/-- How a processor spreads work. -/
def partitioner? (e : Engine σ) (id : ProcessorId) : Option Partitioner :=
  (e.processor? id).map Processor.partitioner

/-- Where a processor hands entries on to. -/
def forward? (e : Engine σ) (id : ProcessorId) : Option ProcessorId :=
  (e.processor? id).bind Processor.forward

/-- What turning to handing entries on adds to the diary: without a crew that takes them they are
dropped. -/
def passPage (e : Engine σ) (p : Processor) (entries : List Entry) : Diary :=
  match p.forward with
  | none => {}
  | some coarser =>
    if (e.openCrew? coarser).isSome then {}
    else { dropped := entries.map (rekey coarser.interval) }

/-- What handing the next group on adds to the diary: when it is refused it is dropped, and with it
all groups that are left. -/
def sendPage (e : Engine σ) (p : Processor) (serial : Nat) : List (Nat × List Entry) → Diary
  | [] => {}
  | (target, group) :: rest =>
    match p.forward with
    | none => {}
    | some coarser =>
      match e.deliver coarser serial target (.rollups group) with
      | .refused _ => { dropped := group ++ rest.flatMap Prod.snd }
      | _ => {}

/-- What the next turn of a worker of a crew adds to its diary. -/
def pageOf (e : Engine σ) (p : Processor) (crew : Crew) (partition : Nat) (worker : Worker) :
    Diary :=
  match worker.activity with
  | .handingOn _ entries => e.passPage p entries
  | .sending _ serial groups _ => e.sendPage p serial groups
  | _ => (Bench.mk e.shared p.stats worker).turnPage (p.post partition) crew.isStopping

/-- What the next turn of a worker adds to its diary. -/
def page (e : Engine σ) (w : WorkerId) : Diary :=
  match e.processor? w.processor with
  | none => {}
  | some p =>
    match p.crew, p.worker? w.partition with
    | some crew, some worker => e.pageOf p crew w.partition worker
    | _, _ => {}

/-- The group that a worker brings to another one next. -/
def handoverOf? (e : Engine σ) (p : Processor) (worker : Worker) : Option (Slot × List Entry) :=
  match p.forward, worker.activity with
  | some coarser, .sending _ serial ((target, group) :: _) _ =>
    match e.deliver coarser serial target (.rollups group) with
    | .taken _ => some (⟨coarser, serial, target⟩, group)
    | _ => none
  | _, _ => none

/-- The group that the next turn of a worker brings to another one. -/
def handover? (e : Engine σ) (w : WorkerId) : Option (Slot × List Entry) :=
  match e.processor? w.processor with
  | none => none
  | some p =>
    match p.worker? w.partition with
    | none => none
    | some worker => e.handoverOf? p worker

end Engine

/-! ## Moves -/

/-- Processors with the calls made so far and a record of what happened. -/
structure Plant (σ : Type := Uid.Tables) [Uid.Store σ] where
  /-- The processors. -/
  engine : Engine σ
  /-- The calls. -/
  calls : List Call := []
  /-- The messages that mailboxes took, in order. -/
  arrivals : List Arrival := []
  /-- What workers did, turn by turn. -/
  pages : List (Slot × Diary) := []

namespace Plant

/-- What can happen next. -/
inductive Move (σ : Type := Uid.Tables) [Uid.Store σ] where
  /-- Somebody calls a processor to queue events. -/
  | submit (id : ProcessorId) (events : List Event)
  /-- A call brings the events of the next partition. -/
  | deliver (i : Nat)
  /-- A call stops waiting for room in a mailbox. -/
  | giveUp (i : Nat)
  /-- A worker takes its next turn. -/
  | turn (w : WorkerId)
  /-- Workers line up in another order. -/
  | line (ready parked : List WorkerId)
  /-- Others change what workers share, or time passes. -/
  | share (shared : { s : Shared σ // ∀ entries, (s.arrange entries).Perm entries })
  /-- Somebody starts a processor. -/
  | start (id : ProcessorId)
  /-- Somebody stops a processor. -/
  | stop (id : ProcessorId)
  /-- The workers of a processor that is being stopped are over, and stopping it returns. -/
  | finish (id : ProcessorId)

/-- Whether a move starts or stops a processor. -/
def Move.isLifecycle : Move σ → Bool
  | start _ => true
  | stop _ => true
  | finish _ => true
  | _ => false

/-- A new call.  Without a crew that takes messages all of its events are handed back. -/
def newCall (e : Engine σ) (id : ProcessorId) (events : List Event) : Call :=
  match (e.processor? id).bind fun p => p.openCrew?.map fun c => (p, c) with
  | none => { id, events, back := events }
  | some (p, crew) =>
    { id, events, serial := crew.serial, parts := p.partitioner.split events }

/-- The next step of a call. -/
def deliver (s : Plant σ) (i : Nat) : Plant σ :=
  match s.calls[i]? with
  | none => s
  | some call =>
    match call.parts with
    | [] => s
    | (partition, events) :: parts =>
      match s.engine.deliver call.id call.serial partition (.events events) with
      | .waits => s
      | .taken e =>
        { s with
          engine := e
          calls := s.calls.set i { call with parts }
          arrivals := s.arrivals ++
            [⟨.call i, ⟨call.id, call.serial, partition⟩, .events events⟩] }
      | .refused _ => { s with calls := s.calls.modify i Call.skip }

/-- The next turn of a worker, which goes into its diary. -/
def turn (s : Plant σ) (w : WorkerId) : Plant σ :=
  match s.engine.turn w, s.engine.slot? w with
  | some e, some slot =>
    { s with
      engine := e
      arrivals := s.arrivals ++ (s.engine.handover? w).toList.map fun x =>
        { sender := .worker slot, slot := x.1, message := .rollups x.2 }
      pages := s.pages ++ [(slot, s.engine.page w)] }
  | _, _ => s

/-- Whether a processor is being stopped. -/
def isStopping (s : Plant σ) (id : ProcessorId) : Bool := (s.engine.crew? id).any Crew.isStopping

/-- A move. -/
def step (s : Plant σ) : Move σ → Plant σ
  | .submit id events => { s with calls := s.calls ++ [newCall s.engine id events] }
  | .deliver i => s.deliver i
  | .giveUp i => { s with calls := s.calls.modify i Call.skip }
  | .turn w => s.turn w
  | .line ready parked => { s with engine := { s.engine with ready, parked } }
  | .share shared => { s with engine := { s.engine with shared := shared.1 } }
  | .start id => if s.isStopping id then s else { s with engine := s.engine.start id }
  | .stop id => if s.isStopping id then s else { s with engine := s.engine.beginStop id }
  | .finish id =>
    if s.isStopping id && s.engine.isDone id then { s with engine := (s.engine.endStop id).2 }
    else s

/-- Moves one after another. -/
def run (s : Plant σ) (moves : List (Move σ)) : Plant σ := moves.foldl step s

/-! ## What a move can do -/

section

variable {s : Plant σ} {e : Engine σ}

/-- What it does to a plant that a mailbox takes the next part of a call. -/
theorem deliver_eq {i partition : Nat} {call : Call} {events : List Event}
    {parts : List (Nat × List Event)} (hcall : s.calls[i]? = some call)
    (hparts : call.parts = (partition, events) :: parts)
    (hd : s.engine.deliver call.id call.serial partition (.events events) = .taken e) :
    s.deliver i = { s with
      engine := e
      calls := s.calls.set i { call with parts }
      arrivals := s.arrivals ++
        [⟨.call i, ⟨call.id, call.serial, partition⟩, .events events⟩] } := by
  rw [deliver, hcall]
  simp only [hparts, hd]

/-- What a turn does to a plant. -/
theorem turn_eq {w : WorkerId} {slot : Slot} (hturn : s.engine.turn w = some e)
    (hslot : s.engine.slot? w = some slot) :
    s.turn w = { s with
      engine := e
      arrivals := s.arrivals ++ (s.engine.handover? w).toList.map fun x =>
        { sender := .worker slot, slot := x.1, message := .rollups x.2 }
      pages := s.pages ++ [(slot, s.engine.page w)] } := by
  rw [turn, hturn, hslot]

/-- What becomes of a plant in a move. -/
inductive Moves (s : Plant σ) : Move σ → Plant σ → Prop where
  /-- The move cannot be made. -/
  | stays (m : Move σ) : Moves s m s
  /-- There is a new call. -/
  | submits (id : ProcessorId) (events : List Event) :
    Moves s (.submit id events) { s with calls := s.calls ++ [newCall s.engine id events] }
  /-- A mailbox takes the next part of a call. -/
  | delivers {i partition : Nat} {call : Call} {events : List Event}
      {parts : List (Nat × List Event)} {e : Engine σ} (found : s.calls[i]? = some call)
      (next : call.parts = (partition, events) :: parts)
      (taken : s.engine.deliver call.id call.serial partition (.events events) = .taken e) :
    Moves s (.deliver i) (s.deliver i)
  /-- A call takes the events of its next part back, because the mailbox refuses them or because it
  does not wait for it. -/
  | skips {m : Move σ} {i : Nat} (asked : m = .deliver i ∨ m = .giveUp i) :
    Moves s m { s with calls := s.calls.modify i Call.skip }
  /-- A worker takes a turn. -/
  | turns {w : WorkerId} {slot : Slot} {e : Engine σ} (turned : s.engine.turn w = some e)
      (found : s.engine.slot? w = some slot) : Moves s (.turn w) (s.turn w)
  /-- Workers line up in another order. -/
  | lines (ready parked : List WorkerId) :
    Moves s (.line ready parked) { s with engine := { s.engine with ready, parked } }
  /-- Others change what workers share. -/
  | shares (shared : { s : Shared σ // ∀ entries, (s.arrange entries).Perm entries }) :
    Moves s (.share shared) { s with engine := { s.engine with shared := shared.1 } }
  /-- A processor starts. -/
  | starts {id : ProcessorId} (free : s.isStopping id = false) :
    Moves s (.start id) { s with engine := s.engine.start id }
  /-- A processor is told to stop. -/
  | stops {id : ProcessorId} (free : s.isStopping id = false) :
    Moves s (.stop id) { s with engine := s.engine.beginStop id }
  /-- A processor has stopped. -/
  | finishes {id : ProcessorId} (stopping : s.isStopping id = true)
      (done : s.engine.isDone id = true) :
    Moves s (.finish id) { s with engine := (s.engine.endStop id).2 }

theorem moves_deliver (s : Plant σ) (i : Nat) : s.Moves (.deliver i) (s.deliver i) := by
  cases hcall : s.calls[i]? with
  | none =>
    rw [deliver, hcall]
    exact .stays _
  | some call =>
    cases hparts : call.parts with
    | nil =>
      rw [deliver, hcall]
      simp only [hparts]
      exact .stays _
    | cons part parts =>
      obtain ⟨partition, events⟩ := part
      cases hd : s.engine.deliver call.id call.serial partition (.events events) with
      | waits =>
        rw [deliver, hcall]
        simp only [hparts, hd]
        exact .stays _
      | taken e => exact .delivers hcall hparts hd
      | refused f =>
        rw [deliver, hcall]
        simp only [hparts, hd]
        exact .skips (.inl rfl)

/-- All that a move can do. -/
theorem moves_step (s : Plant σ) (m : Move σ) : s.Moves m (s.step m) := by
  cases m with
  | submit id events => exact .submits id events
  | deliver i => exact moves_deliver s i
  | giveUp i => exact .skips (.inr rfl)
  | turn w =>
    show s.Moves _ (s.turn w)
    rw [turn]
    split
    · next hturn hslot => exact turn_eq hturn hslot ▸ .turns hturn hslot
    · exact .stays _
  | line ready parked => exact .lines ready parked
  | share shared => exact .shares shared
  | start id =>
    rw [step]
    split
    · exact .stays _
    · next hfree => exact .starts (Bool.eq_false_iff.2 hfree)
  | stop id =>
    rw [step]
    split
    · exact .stays _
    · next hfree => exact .stops (Bool.eq_false_iff.2 hfree)
  | finish id =>
    rw [step]
    split
    · next hover =>
      obtain ⟨hstopping, hdone⟩ := Bool.and_eq_true_iff.1 hover
      exact .finishes hstopping hdone
    · exact .stays _

end

/-! ## Reading the record -/

/-- What a worker did in all of its turns. -/
def diary (s : Plant σ) (slot : Slot) : Diary :=
  ((s.pages.filter fun x => x.1 = slot).map Prod.snd).foldl Diary.add {}

/-- The messages that a mailbox took, in order. -/
def arrived (s : Plant σ) (slot : Slot) : List Message :=
  (s.arrivals.filter fun a => a.slot = slot).map Arrival.message

/-- The entries that others took from a worker. -/
def sent (s : Plant σ) (slot : Slot) : List Entry :=
  (s.arrivals.filter fun a => a.sender = .worker slot).flatMap fun a => a.message.keyed

/-- The events that mailboxes took from a call. -/
def taken (s : Plant σ) (i : Nat) : List Event :=
  (s.arrivals.filter fun a => a.sender = .call i).flatMap fun a => a.message.raw

/-- The messages that wait for a worker. -/
def waiting (s : Plant σ) (slot : Slot) : List Message :=
  ((s.engine.workerAt? slot).map fun w => w.mailbox.queue).getD []

/-- The pieces of a message that a worker has still to handle. -/
def inHand (s : Plant σ) (slot : Slot) : List Message :=
  ((s.engine.workerAt? slot).map fun w => w.activity.pieces).getD []

/-- The entries that a worker is writing. -/
def unwritten (s : Plant σ) (slot : Slot) : List Entry :=
  ((s.engine.workerAt? slot).map fun w => w.activity.unwritten).getD []

/-- The written entries that a worker is handing on, under their keys at an interval. -/
def onward (s : Plant σ) (interval : Interval) (slot : Slot) : List Entry :=
  ((s.engine.workerAt? slot).map fun w => w.activity.onward interval).getD []

end Plant

end StatRollup
