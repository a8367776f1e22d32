import StatRollup.Proofs.Engine.Rounds
import StatRollup.Proofs.Engine.Turn

/-!
# What a worker does with what it gets

A diary says which messages a worker took, which pieces of them it handled, and what became of the
entries that left its window: whether they were written or given up, and whether the written ones
were handed on.  A worker that dies in a store call leaves some of them in the middle, which the
diary says too.

`turnPage` is what a turn adds to the diary.  It is read off the same state that the turn starts
from.  What a turn can be is said once (`turn_cases`), and then that it is a run of steps
(`turn_steps`), each of which adds a page of its own: a message leaves the mailbox, a piece of it
goes into the window, the message ends, the entries leave the window, a round gives every entry a
fate.  So what every step keeps a turn keeps.  The first such fact is that the diary leaves nothing
out (`Steps.keeps`): what was in hand before the turn is in hand after it, or is in the page.
-/

namespace StatRollup

variable {σ : Type} [Uid.Store σ]

/-- What a worker did. -/
structure Diary where
  /-- Messages that it took out of its mailbox, in order. -/
  taken : List Message := []
  /-- Pieces of them that it handled, in order. -/
  handled : List Message := []
  /-- Entries that left its window. -/
  drained : List Entry := []
  /-- Entries that it wrote. -/
  written : List Entry := []
  /-- Entries that it gave up, with their failures. -/
  givenUp : List (Entry × Fault) := []
  /-- Entries that it wrote and the next processor did not take, under the keys there. -/
  dropped : List Entry := []
  /-- Store calls that it did not survive. -/
  crashes : Nat := 0
  /-- Messages that were in the mailbox when it died. -/
  lost : List Message := []
  /-- Entries that were neither written nor given up when it died. -/
  unsettled : List Entry := []
  /-- Entries that were written but not handed on when it died. -/
  stranded : List Entry := []

/-- A diary with another page. -/
def Diary.add (d page : Diary) : Diary where
  taken := d.taken ++ page.taken
  handled := d.handled ++ page.handled
  drained := d.drained ++ page.drained
  written := d.written ++ page.written
  givenUp := d.givenUp ++ page.givenUp
  dropped := d.dropped ++ page.dropped
  crashes := d.crashes + page.crashes
  lost := d.lost ++ page.lost
  unsettled := d.unsettled ++ page.unsettled
  stranded := d.stranded ++ page.stranded

theorem Diary.add_empty (d : Diary) : d.add {} = d := by
  simp [add]

theorem Diary.empty_add (d : Diary) : Diary.add {} d = d := by
  simp [add]

/-- The pieces in which a message is handled: raw events one by one, entries all at once. -/
def Message.pieces : Message → List Message
  | .events es => es.map fun e => .events [e]
  | .rollups es => [.rollups es]

/-- An entry under its key at another interval. -/
def rekey (interval : Interval) (x : Entry) : Entry := (x.1.withInterval interval, x.2)

/-- The definitions and the dictionary. -/
def Shared.names (s : Shared σ) : Registry × Uid.Dictionary σ := (s.registry, s.dictionary)

namespace Activity

/-- Pieces of a message that are left. -/
def pieces : Activity → List Message
  | handling events => (Message.events events).pieces
  | _ => []

/-- Whether the worker is filling its window, with a message or between two of them. -/
def isFilling : Activity → Bool
  | waiting => true
  | handling _ => true
  | _ => false

/-- Entries of a flush that have no fate yet. -/
def unwritten : Activity → List Entry
  | backingOff _ flush _ => flush.left
  | _ => []

/-- Written entries that are still to be handed on, under their keys at an interval. -/
def onward (interval : Interval) : Activity → List Entry
  | backingOff _ flush _ => flush.written.map (rekey interval)
  | handingOn _ entries => entries.map (rekey interval)
  | sending _ _ groups _ => groups.flatMap Prod.snd
  | _ => []

/-- Sources of entries of a flush that were given up and are not rejected yet. -/
def blamed : Activity → List (Source × Fault)
  | backingOff _ flush _ => flush.givenUp
  | _ => []

/-- Why the worker flushes. -/
def trigger? : Activity → Option Trigger
  | waiting => none
  | handling _ => none
  | backingOff trigger .. => some trigger
  | handingOn trigger _ => some trigger
  | sending trigger .. => some trigger
  | ended => some .stop
  | died => none

end Activity

section

variable {trigger : Trigger} {interval : Interval}

theorem Activity.isFilling_of_trigger? {activity : Activity}
    (h : activity.trigger? = some trigger) : activity.isFilling = false := by
  cases activity with
  | waiting => cases h
  | handling events => cases h
  | _ => rfl

theorem Activity.pieces_of_isFilling {activity : Activity} (h : activity.isFilling = false) :
    activity.pieces = [] := by
  cases activity with
  | handling events => cases h
  | _ => rfl

theorem Activity.ne_died_of_trigger? {activity : Activity}
    (h : activity.trigger? = some trigger) : activity ≠ .died := by
  rintro rfl
  cases h

theorem Trigger.of_trigger?_next (h : trigger.next.trigger? = some .stop) : trigger = .stop := by
  cases trigger with
  | stop => rfl
  | size => cases h
  | time => cases h

@[simp] theorem Trigger.pieces_next : trigger.next.pieces = [] := by cases trigger <;> rfl

@[simp] theorem Trigger.unwritten_next : trigger.next.unwritten = [] := by cases trigger <;> rfl

@[simp] theorem Trigger.onward_next : trigger.next.onward interval = [] := by cases trigger <;> rfl

@[simp] theorem Trigger.blamed_next : trigger.next.blamed = [] := by cases trigger <;> rfl

theorem Trigger.next_ne_died : trigger.next ≠ .died := by
  cases trigger <;> simp [Trigger.next]

/-- A worker that is filling its window has nothing else in its hands. -/
theorem Activity.of_isFilling {activity : Activity} (h : activity.isFilling = true) :
    activity.unwritten = [] ∧ (∀ interval, activity.onward interval = []) ∧
      activity.trigger? = none ∧ activity ≠ .died := by
  cases activity with
  | waiting => exact ⟨rfl, fun _ => rfl, rfl, fun h => nomatch h⟩
  | handling events => exact ⟨rfl, fun _ => rfl, rfl, fun h => nomatch h⟩
  | _ => cases h

end

namespace Worker

/-- A worker has something in its window only while it is filling it, and when it stops or dies it
has no messages either and gets no more. -/
structure Tidy (w : Worker) : Prop where
  closed : w.isClosing = true → w.mailbox.isOpen = false
  busy : w.activity.isFilling = false → w.window.entries = {}
  stopping : w.activity.trigger? = some .stop → w.isClosing = true ∧ w.mailbox.queue = []
  died : w.activity = .died → w.mailbox.isOpen = false ∧ w.mailbox.queue = []

theorem tidy_new (settings : Settings) (now : Nat) : (new settings now).Tidy where
  closed h := nomatch h
  busy h := nomatch h
  stopping h := nomatch h
  died h := nomatch h

theorem hasDied_iff {w : Worker} : w.hasDied = true ↔ w.activity = .died := by
  rw [hasDied]
  split <;> simp_all

/-- A worker that is over has nothing left, and gets nothing any more. -/
theorem Tidy.of_isOver {w : Worker} (h : w.Tidy) (hover : w.isOver = true) :
    w.mailbox.queue = [] ∧ w.activity.pieces = [] ∧ w.window.entries = {} ∧
      w.activity.unwritten = [] ∧ ∀ interval, w.activity.onward interval = [] := by
  rw [isOver] at hover
  split at hover
  · next hended =>
    have hbusy : w.activity.isFilling = false := by rw [hended]; rfl
    exact ⟨(h.stopping (by rw [hended]; rfl)).2, by rw [hended]; rfl, h.busy hbusy,
      by rw [hended]; rfl, fun _ => by rw [hended]; rfl⟩
  · next hdied =>
    have hbusy : w.activity.isFilling = false := by rw [hdied]; rfl
    exact ⟨(h.died hdied).2, by rw [hdied]; rfl, h.busy hbusy, by rw [hdied]; rfl,
      fun _ => by rw [hdied]; rfl⟩
  · cases hover

/-- From one state of a worker to a later one, with the page for its diary and the entries that
the next processor took.  Nothing is left out. -/
structure Keeps (forward : Option ProcessorId) (w w' : Worker) (page : Diary)
    (sent : List Entry) : Prop where
  messages : w.mailbox.queue = page.taken ++ page.lost ++ w'.mailbox.queue
  pieces : w.activity.pieces ++ page.taken.flatMap Message.pieces =
    page.handled ++ w'.activity.pieces
  entries : (page.drained ++ w.activity.unwritten).Perm
    (page.written ++ page.givenUp.map Prod.fst ++ page.unsettled ++ w'.activity.unwritten)
  onward {j : ProcessorId} : forward = some j →
    (page.written.map (rekey j.interval) ++ w.activity.onward j.interval).Perm
      (w'.activity.onward j.interval ++ sent ++ page.dropped ++
        page.stranded.map (rekey j.interval))
  survived : page.crashes = 0 → page.lost = [] ∧ page.unsettled = [] ∧ page.stranded = []
  died : w'.activity = .died ↔ page.crashes ≠ 0
  tidy : w'.Tidy

variable {forward : Option ProcessorId} {w w' w'' : Worker} {page page' : Diary}
  {sent sent' : List Entry}

theorem Keeps.trans (h : Keeps forward w w' page sent) (hlives : page.crashes = 0)
    (h' : Keeps forward w' w'' page' sent') :
    Keeps forward w w'' (page.add page') (sent ++ sent') where
  messages := by
    have hlost := (h.survived hlives).1
    have hmessages := h.messages
    rw [hlost, List.append_nil] at hmessages
    simp only [Diary.add, hlost, List.nil_append, hmessages, h'.messages, List.append_assoc]
  pieces := by
    simp only [Diary.add, List.flatMap_append]
    rw [← List.append_assoc, h.pieces, List.append_assoc, h'.pieces, List.append_assoc]
  entries := by
    classical
    have hfirst := List.perm_iff_count.1 h.entries
    have hsecond := List.perm_iff_count.1 h'.entries
    refine List.perm_iff_count.2 fun x => ?_
    have hx := hfirst x
    have hx' := hsecond x
    simp only [Diary.add, List.map_append, List.count_append] at hx hx' ⊢
    omega
  onward hj := by
    classical
    have hfirst := List.perm_iff_count.1 (h.onward hj)
    have hsecond := List.perm_iff_count.1 (h'.onward hj)
    refine List.perm_iff_count.2 fun x => ?_
    have hx := hfirst x
    have hx' := hsecond x
    simp only [Diary.add, List.map_append, List.count_append] at hx hx' ⊢
    omega
  survived hcrashes := by
    obtain ⟨hlost, hunsettled, hstranded⟩ := h.survived hlives
    obtain ⟨hlost', hunsettled', hstranded'⟩ := h'.survived (by
      rw [Diary.add] at hcrashes
      exact (Nat.add_eq_zero_iff.1 hcrashes).2)
    simp [Diary.add, *]
  died := by simpa [Diary.add, hlives] using h'.died
  tidy := h'.tidy

end Worker

/-! ## Pages -/

namespace Bench

variable {p : Post} {stopping : Bool} {b b' : Bench σ} {trigger : Trigger} {f : Flush}
  {forward : Option ProcessorId}

/-- What a round adds to the diary. -/
def roundPage (p : Post) (b : Bench σ) (f : Flush) : Diary :=
  match (b.shared.store.mergeBatch f.requests).1 with
  | none =>
    { crashes := 1, lost := b.worker.mailbox.queue, unsettled := f.left, stranded := f.written }
  | some results =>
    { written := Flush.succeeded (f.answered results)
      givenUp := Flush.abandoned p.settings.flushRetry f.round (f.answered results) }

/-- What a flush adds to the diary, up to its first wait. -/
def flushPage (p : Post) (b : Bench σ) : Diary :=
  let drained : Diary := { drained := b.worker.window.entries.toList }
  match b.shared.arrange b.worker.window.entries.toList with
  | [] => drained
  | batch => drained.add (b.roundPage p (.ofBatch batch))

/-- What the end of a message adds to the diary. -/
def finishPage (p : Post) (b : Bench σ) : Diary :=
  let idle := { b with worker := { b.worker with activity := .waiting } }
  if b.worker.isClosing = false ∧ b.worker.window.isFull = true then idle.flushPage p else {}

/-- What handling the next event of a message adds to the diary. -/
def nextPage (p : Post) (b : Bench σ) : List Event → Diary
  | [] => b.finishPage p
  | e :: rest =>
    let b := handleEvent p { b with worker := { b.worker with activity := .handling rest } } e
    ({ handled := [.events [e]] } : Diary).add (if rest.isEmpty then b.finishPage p else {})

/-- What receiving a message adds to the diary. -/
def receivePage (p : Post) (b : Bench σ) (message : Message) (rest : List Message) : Diary :=
  match message with
  | .events events =>
    ({ taken := [message] } : Diary).add ((b.takeUp message rest).nextPage p events)
  | .rollups entries =>
    ({ taken := [message], handled := [message] } : Diary).add
      (((b.takeUp message rest).handleRollups p entries).finishPage p)

/-- What a turn of a worker by itself adds to the diary. -/
def turnPage (p : Post) (stopping : Bool) (b : Bench σ) : Diary :=
  match b.worker.activity with
  | .waiting =>
    if stopping && !b.worker.isClosing then {}
    else
      match b.worker.mailbox.queue with
      | message :: rest => b.receivePage p message rest
      | [] => b.flushPage p
  | .handling events => b.nextPage p events
  | .backingOff _ f _ => b.roundPage p f
  | _ => {}

/-! ## Turns in steps -/

/-- What a turn of a worker by itself can be: it begins to close, receives a message, goes on with
one, flushes, or goes on with the next round of a flush. -/
theorem turn_cases (h : b.turn p stopping = some b') :
    (b.worker.activity = .waiting ∧ stopping = true ∧ b.turnPage p stopping = {} ∧ b' = { b with
      worker := { b.worker with isClosing := true, mailbox := b.worker.mailbox.close } }) ∨
    (∃ m rest, b.worker.activity = .waiting ∧ b.worker.mailbox.queue = m :: rest ∧
      b.turnPage p stopping = b.receivePage p m rest ∧ b' = b.receive p m rest) ∨
    (∃ events, b.worker.activity = .handling events ∧
      b.turnPage p stopping = b.nextPage p events ∧ b' = b.handleNext p events) ∨
    (∃ trigger, b.worker.activity = .waiting ∧
      (trigger = .stop → b.worker.isClosing = true ∧ b.worker.mailbox.queue = []) ∧
      b.turnPage p stopping = b.flushPage p ∧ b' = b.flush p trigger) ∨
    ∃ trigger f due, b.worker.activity = .backingOff trigger f due ∧
      b.turnPage p stopping = b.roundPage p f ∧ b' = b.round p trigger f := by
  rw [turn] at h
  rw [turnPage]
  cases hactivity : b.worker.activity with
  | waiting =>
    rw [hactivity] at h
    dsimp only [waitingTurn] at h ⊢
    split at h
    · next hstop =>
      cases h
      rw [if_pos hstop]
      exact .inl ⟨rfl, (Bool.and_eq_true_iff.1 hstop).1, rfl, rfl⟩
    · next hgo =>
      rw [if_neg hgo]
      cases hqueue : b.worker.mailbox.queue with
      | cons m rest =>
        rw [hqueue] at h
        cases h
        exact .inr (.inl ⟨m, rest, rfl, rfl, rfl, rfl⟩)
      | nil =>
        rw [hqueue] at h
        dsimp only at h
        split at h
        · next hclosing =>
          cases h
          exact .inr (.inr (.inr (.inl ⟨.stop, rfl, fun _ => ⟨hclosing, rfl⟩, rfl, rfl⟩)))
        · split at h
          · cases h
            exact .inr (.inr (.inr (.inl ⟨.time, rfl, (by intro h; cases h), rfl, rfl⟩)))
          · cases h
  | handling events =>
    rw [hactivity] at h
    cases h
    exact .inr (.inr (.inl ⟨events, rfl, rfl, rfl⟩))
  | backingOff trigger f due =>
    rw [hactivity] at h
    dsimp only at h
    split at h
    · cases h
      exact .inr (.inr (.inr (.inr ⟨trigger, f, due, rfl, rfl, rfl⟩)))
    · cases h
  | _ =>
    rw [hactivity] at h
    cases h

/-- One step of a turn, with the page that it adds to the diary. -/
inductive Step (p : Post) (stopping : Bool) : Diary → Bench σ → Bench σ → Prop where
  /-- The worker begins to close. -/
  | closes {b : Bench σ} (waiting : b.worker.activity = .waiting) (told : stopping = true) :
    Step p stopping {} b
      { b with worker := { b.worker with isClosing := true, mailbox := b.worker.mailbox.close } }
  /-- It takes a message of raw events. -/
  | takes {b : Bench σ} {events : List Event} {rest : List Message}
      (waiting : b.worker.activity = .waiting)
      (next : b.worker.mailbox.queue = .events events :: rest) :
    Step p stopping { taken := [.events events] } b (b.takeUp (.events events) rest)
  /-- It takes a message of entries and adds them to its window. -/
  | rollups {b : Bench σ} {entries : List Entry} {rest : List Message}
      (waiting : b.worker.activity = .waiting)
      (next : b.worker.mailbox.queue = .rollups entries :: rest) :
    Step p stopping { taken := [.rollups entries], handled := [.rollups entries] } b
      ((b.takeUp (.rollups entries) rest).handleRollups p entries)
  /-- It handles a raw event. -/
  | event {b : Bench σ} {e : Event} {rest : List Event}
      (handling : b.worker.activity = .handling (e :: rest)) :
    Step p stopping { handled := [.events [e]] } b
      (handleEvent p { b with worker := { b.worker with activity := .handling rest } } e)
  /-- Nothing is left of a message. -/
  | ends {b : Bench σ} (handling : b.worker.activity = .handling []) :
    Step p stopping {} b { b with worker := { b.worker with activity := .waiting } }
  /-- It begins to flush. -/
  | flushes {b : Bench σ} (trigger : Trigger) (waiting : b.worker.activity = .waiting)
      (stop : trigger = .stop → b.worker.isClosing = true ∧ b.worker.mailbox.queue = []) :
    Step p stopping (b.flushPage p) b (b.flush p trigger)
  /-- It goes on with a flush. -/
  | rounds {b : Bench σ} {trigger : Trigger} {f : Flush} {due : Nat}
      (backing : b.worker.activity = .backingOff trigger f due) :
    Step p stopping (b.roundPage p f) b (b.round p trigger f)

/-- Steps one after another. -/
inductive Steps (p : Post) (stopping : Bool) : Diary → Bench σ → Bench σ → Prop where
  /-- A single step. -/
  | one {page : Diary} {b b' : Bench σ} (step : Step p stopping page b b') :
    Steps p stopping page b b'
  /-- A step and then others. -/
  | cons {page page' : Diary} {b b' b'' : Bench σ} (step : Step p stopping page b b')
      (rest : Steps p stopping page' b' b'') : Steps p stopping (page.add page') b b''

section

variable {page : Diary} {e : Event} {m : Message} {events : List Event} {rest : List Message}

/-- An event changes the window of the worker alone, and leaves the order in which entries leave
windows. -/
theorem handleEvent_eq (p : Post) (b : Bench σ) (e : Event) :
    (∃ window, (b.handleEvent p e).worker = { b.worker with window }) ∧
      (b.handleEvent p e).shared.arrange = b.shared.arrange := by
  rw [handleEvent]
  dsimp only
  split
  · exact ⟨⟨_, rfl⟩, rfl⟩
  · split <;> exact ⟨⟨_, rfl⟩, rfl⟩

theorem finishMessage_steps (h : b.worker.activity = .handling []) :
    Steps p stopping (b.finishPage p) b (b.finishMessage p) := by
  let waits : Bench σ := { b with worker := { b.worker with activity := .waiting } }
  have hends : Step p stopping {} b waits := .ends h
  rw [finishMessage, finishPage]
  dsimp only
  split
  · have hflushes : Step p stopping (waits.flushPage p) waits (waits.flush p .size) :=
      .flushes .size rfl (by intro h; cases h)
    have hboth := Steps.cons hends (.one hflushes)
    rwa [Diary.empty_add] at hboth
  · exact .one hends

theorem handleNext_steps (h : b.worker.activity = .handling events) :
    Steps p stopping (b.nextPage p events) b (b.handleNext p events) := by
  cases events with
  | nil => exact finishMessage_steps h
  | cons e rest =>
    let taken : Bench σ := { b with worker := { b.worker with activity := .handling rest } }
    have hevent : Step p stopping { handled := [.events [e]] } b (taken.handleEvent p e) :=
      .event h
    rw [handleNext, nextPage]
    dsimp only
    split
    · next hlast =>
      obtain ⟨⟨window, hworker⟩, -⟩ := handleEvent_eq p taken e
      refine .cons hevent (finishMessage_steps ?_)
      rw [hworker, ← List.isEmpty_iff.1 hlast]
    · rw [Diary.add_empty]
      exact .one hevent

theorem receive_steps (hwaiting : b.worker.activity = .waiting)
    (hqueue : b.worker.mailbox.queue = m :: rest) :
    Steps p stopping (b.receivePage p m rest) b (b.receive p m rest) := by
  cases m with
  | events events =>
    exact .cons (.takes hwaiting hqueue)
      (handleNext_steps (b := b.takeUp (.events events) rest) rfl)
  | rollups entries =>
    exact .cons (.rollups hwaiting hqueue) (finishMessage_steps rfl)

/-- A turn is a run of steps, and its page is made of theirs. -/
theorem turn_steps (h : b.turn p stopping = some b') :
    Steps p stopping (b.turnPage p stopping) b b' := by
  obtain ⟨hwaiting, htold, hpage, rfl⟩ | ⟨m, rest, hwaiting, hqueue, hpage, rfl⟩ |
    ⟨events, hhandling, hpage, rfl⟩ | ⟨trigger, hwaiting, hstop, hpage, rfl⟩ |
    ⟨trigger, f, due, hbacking, hpage, rfl⟩ := turn_cases h
  · exact hpage ▸ .one (.closes hwaiting htold)
  · exact hpage ▸ receive_steps hwaiting hqueue
  · exact hpage ▸ handleNext_steps hhandling
  · exact hpage ▸ .one (.flushes trigger hwaiting hstop)
  · exact hpage ▸ .one (.rounds hbacking)

/-- A worker that died takes no step. -/
theorem Steps.ne_died (h : Steps p stopping page b b') : b.worker.activity ≠ .died := by
  have hstep : ∀ {page : Diary} {b' : Bench σ}, Step p stopping page b b' →
      b.worker.activity ≠ .died := by
    intro page b' h hdied
    cases h <;> simp_all
  cases h with
  | one step => exact hstep step
  | cons step _ => exact hstep step

end

/-! ## Filling the window -/

/-- A worker that fills its window goes on with messages of its mailbox. -/
theorem keeps_of_isFilling (forward : Option ProcessorId) (window : Window Key Pending) {w : Worker}
    {mailbox : Mailbox Message} {activity : Activity} {taken handled : List Message}
    (htidy : w.Tidy) (hfills : w.activity.isFilling = true) (hstays : activity.isFilling = true)
    (hopen : mailbox.isOpen = w.mailbox.isOpen)
    (hmessages : w.mailbox.queue = taken ++ mailbox.queue)
    (hpieces : w.activity.pieces ++ taken.flatMap Message.pieces = handled ++ activity.pieces) :
    Worker.Keeps forward w { w with mailbox, window, activity } { taken, handled } [] := by
  obtain ⟨hunwritten, honward, -, -⟩ := Activity.of_isFilling hfills
  obtain ⟨hunwritten', honward', htrigger', hlives'⟩ := Activity.of_isFilling hstays
  refine ⟨by rw [hmessages, List.append_nil], hpieces, ?_, fun {j} _ => ?_,
    fun _ => ⟨rfl, rfl, rfl⟩, by simp [hlives'], fun h => ?_, fun h => ?_, fun h => ?_,
    fun h => absurd h hlives'⟩
  · rw [hunwritten]
    exact .of_eq (by simp [hunwritten'])
  · rw [honward, honward']
    exact .refl _
  · exact hopen.trans (htidy.closed h)
  · rw [show (_ : Worker).activity.isFilling = _ from hstays] at h
    cases h
  · rw [show (_ : Worker).activity.trigger? = _ from htrigger'] at h
    cases h

/-! ## Flushing -/

/-- What follows a flush changes neither the mailbox nor the window. -/
theorem afterFlush_worker (p : Post) (b : Bench σ) (trigger : Trigger) :
    ∃ lastPurge, (b.afterFlush p trigger).worker =
        { b.worker with activity := trigger.next, lastPurge } ∧
      (b.afterFlush p trigger).shared.arrange = b.shared.arrange := by
  cases trigger with
  | size => exact ⟨_, rfl, rfl⟩
  | stop => exact ⟨_, rfl, rfl⟩
  | time =>
    rw [afterFlush, purgeIfDue]
    split <;> exact ⟨_, rfl, rfl⟩

theorem badEvents_afterFlush (p : Post) (b : Bench σ) (trigger : Trigger) :
    (b.afterFlush p trigger).shared.badEvents = b.shared.badEvents := by
  cases trigger with
  | size => rfl
  | stop => rfl
  | time =>
    rw [afterFlush, purgeIfDue]
    split <;> rfl

/-- The worker with the entries of its window in a flush that is about to begin. -/
def drained (b : Bench σ) (trigger : Trigger) (batch : List Entry) : Worker :=
  { b.worker with
    window := (b.worker.window.drain b.shared.now).2
    activity := .backingOff trigger (.ofBatch batch) b.shared.now }

/-- The entries leave the window to be flushed. -/
theorem drain_keeps (forward : Option ProcessorId) {batch : List Entry}
    (hwaiting : b.worker.activity = .waiting)
    (htidy : b.worker.Tidy) (hbatch : b.worker.window.entries.toList.Perm batch)
    (hstop : trigger = .stop → b.worker.isClosing = true ∧ b.worker.mailbox.queue = []) :
    Worker.Keeps forward b.worker (b.drained trigger batch)
      { drained := b.worker.window.entries.toList } [] where
  messages := rfl
  pieces := by
    rw [hwaiting]
    rfl
  entries := by
    rw [hwaiting]
    exact (List.append_nil _).symm ▸ hbatch
  onward _ := by
    rw [hwaiting]
    exact .refl _
  survived _ := ⟨rfl, rfl, rfl⟩
  died := by simp [drained]
  tidy := by
    refine ⟨htidy.closed, fun _ => rfl, fun h => hstop (Option.some.inj h), fun h => ?_⟩
    cases h

/-- A worker that goes on after the results of a round: with another round, or with handing on what
is written. -/
theorem round_worker (p : Post) (trigger : Trigger) {results : List (Except Fault Unit)}
    (h : (b.shared.store.mergeBatch f.requests).1 = some results) :
    let next := f.afterRound p.settings.flushRetry results
    (∃ activity : Activity, (b.round p trigger f).worker = { b.worker with activity } ∧
      activity.unwritten = next.left ∧ activity.trigger? = some trigger ∧
      ∀ interval, activity.onward interval = next.written.map (rekey interval)) ∧
      (b.round p trigger f).shared.arrange = b.shared.arrange := by
  intro next
  rw [round]
  generalize b.shared.store.mergeBatch f.requests = answer at h
  obtain ⟨_, store⟩ := answer
  cases h
  dsimp only
  split
  · next hover =>
    exact ⟨⟨_, rfl, (List.isEmpty_iff.1 hover).symm, rfl, fun _ => rfl⟩, rfl⟩
  · exact ⟨⟨_, rfl, rfl, rfl, fun _ => rfl⟩, rfl⟩

/-- A worker in the middle of a flush goes on with a round. -/
theorem round_keeps (p : Post) (forward : Option ProcessorId) {due : Nat} {w : Worker}
    (htidy : w.Tidy)
    (hactivity : w.activity = .backingOff trigger f due)
    (hb : ∃ activity, b.worker = { w with activity }) :
    Worker.Keeps forward w (b.round p trigger f).worker (b.roundPage p f) [] ∧
      (b.round p trigger f).shared.arrange = b.shared.arrange := by
  obtain ⟨activity, hb⟩ := hb
  have htrigger : w.activity.trigger? = some trigger := by rw [hactivity]; rfl
  have hbusy : w.activity.isFilling = false := Activity.isFilling_of_trigger? htrigger
  have hempty : w.window.entries = {} := htidy.busy hbusy
  have hstop : trigger = .stop → w.isClosing = true ∧ w.mailbox.queue = [] := fun h =>
    htidy.stopping (h ▸ htrigger)
  rw [roundPage]
  cases hanswer : (b.shared.store.mergeBatch f.requests).1 with
  | none =>
    have hround : (b.round p trigger f).worker = b.worker.die ∧
        (b.round p trigger f).shared.arrange = b.shared.arrange := by
      rw [round]
      generalize b.shared.store.mergeBatch f.requests = answer at hanswer
      obtain ⟨_, store⟩ := answer
      cases hanswer
      exact ⟨rfl, rfl⟩
    refine ⟨?_, hround.2⟩
    rw [hround.1, hb]
    refine ⟨(List.append_nil _).symm, by rw [hactivity]; rfl, ?_, fun _ => ?_,
      fun h => absurd h Nat.one_ne_zero, by simp [Worker.die], fun _ => rfl, fun _ => rfl,
      fun h => ?_, fun _ => ⟨rfl, rfl⟩⟩
    · rw [hactivity]
      exact .of_eq (List.append_nil _).symm
    · rw [hactivity]
      exact .refl _
    · cases h
  | some results =>
    obtain ⟨⟨next, hworker, hunwritten, hnext, honward⟩, harrange⟩ :=
      round_worker p trigger hanswer
    have hlives := Activity.ne_died_of_trigger? hnext
    refine ⟨?_, harrange⟩
    rw [hworker, hb]
    refine ⟨rfl, ?_, ?_, fun _ => ?_, fun _ => ⟨rfl, rfl, rfl⟩, by simp [hlives], htidy.closed,
      fun _ => hempty, fun h => hstop ?_, fun h => absurd h hlives⟩
    · rw [Activity.pieces_of_isFilling hbusy,
        Activity.pieces_of_isFilling (Activity.isFilling_of_trigger? hnext)]
      rfl
    · have hfates := Flush.perm_fates p.settings.flushRetry f.round (f.answered results)
      rw [Flush.map_fst_answered, ← Flush.leftOf_judged] at hfates
      rw [hactivity, hunwritten]
      simp only [List.append_nil, List.append_assoc]
      exact (hfates.symm.trans (List.perm_append_comm.append_left _))
    · rw [hactivity, honward]
      simp only [List.append_nil, List.map_nil]
      have hwritten : (f.afterRound p.settings.flushRetry results).written =
          f.written ++ Flush.succeeded (f.answered results) :=
        congrArg (f.written ++ ·) (Flush.writtenOf_judged results)
      rw [hwritten, List.map_append]
      exact List.perm_append_comm
    · exact Option.some.inj (hnext.symm.trans h)

/-- A flush leaves nothing of the window out. -/
theorem flush_keeps (p : Post) (forward : Option ProcessorId)
    (hwaiting : b.worker.activity = .waiting) (htidy : b.worker.Tidy)
    (harrange : (b.shared.arrange b.worker.window.entries.toList).Perm
      b.worker.window.entries.toList)
    (hstop : trigger = .stop → b.worker.isClosing = true ∧ b.worker.mailbox.queue = []) :
    Worker.Keeps forward b.worker (b.flush p trigger).worker (b.flushPage p) [] ∧
      (b.flush p trigger).shared.arrange = b.shared.arrange := by
  have hdrain := drain_keeps forward hwaiting htidy harrange.symm hstop
  rw [flush, flushPage]
  dsimp only [Window.drain]
  cases hbatch : b.shared.arrange b.worker.window.entries.toList with
  | nil =>
    let emptied : Worker := { b.worker with
      window := { b.worker.window.clear with openedAt := b.shared.now } }
    obtain ⟨lastPurge, hworker, hafter⟩ :=
      afterFlush_worker p { b with worker := emptied } trigger
    rw [hbatch] at hdrain
    refine ⟨?_, hafter⟩
    rw [hworker]
    refine ⟨rfl, ?_, ?_, fun _ => ?_, hdrain.survived, ?_, htidy.closed, fun _ => rfl,
      fun h => hstop (Trigger.of_trigger?_next h), fun h => absurd h Trigger.next_ne_died⟩
    · rw [hwaiting, Trigger.pieces_next]
      rfl
    · rw [Trigger.unwritten_next]
      exact hdrain.entries
    · rw [hwaiting, Trigger.onward_next]
      exact .refl _
    · simp [Trigger.next_ne_died]
  | cons x batch =>
    rw [hbatch] at hdrain
    let emptied : Worker := { b.worker with
      window := { b.worker.window.clear with openedAt := b.shared.now } }
    have hround := round_keeps p forward (b := { b with worker := emptied })
      hdrain.tidy (w := b.drained trigger (x :: batch)) rfl ⟨_, rfl⟩
    exact ⟨hdrain.trans rfl hround.1, hround.2⟩

/-! ## Turns -/

/-- A step of a worker leaves nothing out. -/
theorem Step.keeps (forward : Option ProcessorId) {page : Diary} (h : Step p stopping page b b')
    (htidy : b.worker.Tidy)
    (harrange : ∀ entries, (b.shared.arrange entries).Perm entries) :
    Worker.Keeps forward b.worker b'.worker page [] ∧ b'.shared.arrange = b.shared.arrange := by
  cases h with
  | closes hwaiting _ =>
    refine ⟨⟨rfl, ?_, ?_, fun _ => ?_, fun _ => ⟨rfl, rfl, rfl⟩, ?_, fun _ => rfl, fun h => ?_,
      fun h => ?_, fun h => ?_⟩, rfl⟩
    · rw [hwaiting]
      rfl
    · exact .refl _
    · exact .of_eq (by simp [hwaiting])
    · simp [hwaiting]
    · rw [show (_ : Worker).activity = _ from hwaiting] at h
      cases h
    · rw [show (_ : Worker).activity = _ from hwaiting] at h
      cases h
    · rw [show (_ : Worker).activity = _ from hwaiting] at h
      cases h
  | @takes _ events rest hwaiting hqueue =>
    refine ⟨keeps_of_isFilling forward b.worker.window htidy (by rw [hwaiting]; rfl) rfl rfl hqueue
      ?_, rfl⟩
    rw [hwaiting]
    exact List.append_nil _
  | @rollups _ entries rest hwaiting hqueue =>
    refine ⟨keeps_of_isFilling forward _ htidy (by rw [hwaiting]; rfl) rfl rfl hqueue ?_, rfl⟩
    rw [hwaiting]
    rfl
  | @event _ e rest hhandling =>
    obtain ⟨⟨window, hworker⟩, hsame⟩ := handleEvent_eq p
      { b with worker := { b.worker with activity := .handling rest } } e
    refine ⟨?_, hsame⟩
    rw [hworker]
    refine keeps_of_isFilling forward window htidy (by rw [hhandling]; rfl) rfl rfl rfl ?_
    rw [hhandling]
    exact List.append_nil _
  | ends hhandling =>
    refine ⟨keeps_of_isFilling forward b.worker.window htidy (by rw [hhandling]; rfl) rfl rfl
      rfl ?_, rfl⟩
    rw [hhandling]
    rfl
  | flushes trigger hwaiting hstop => exact flush_keeps p forward hwaiting htidy (harrange _) hstop
  | rounds hbacking => exact round_keeps p forward htidy hbacking ⟨_, rfl⟩

theorem Steps.keeps (forward : Option ProcessorId) {page : Diary} (h : Steps p stopping page b b')
    (htidy : b.worker.Tidy)
    (harrange : ∀ entries, (b.shared.arrange entries).Perm entries) :
    Worker.Keeps forward b.worker b'.worker page [] ∧ b'.shared.arrange = b.shared.arrange := by
  induction h with
  | one step => exact step.keeps forward htidy harrange
  | cons step rest ih =>
    obtain ⟨hfirst, hsame⟩ := step.keeps forward htidy harrange
    obtain ⟨hrest, hsame'⟩ := ih hfirst.tidy (hsame ▸ harrange)
    have hlives := mt hfirst.died.2 rest.ne_died
    exact ⟨hfirst.trans (not_not.1 hlives) hrest, hsame'.trans hsame⟩

/-! A flush leaves nothing in the window. -/

theorem entries_round_or (p : Post) (b : Bench σ) (trigger : Trigger) (f : Flush) :
    (b.round p trigger f).worker.window.entries = {} ∨
      (b.round p trigger f).worker.window.entries = b.worker.window.entries := by
  rw [round]
  dsimp only
  split
  · exact .inl rfl
  · split <;> exact .inr rfl

theorem entries_round (p : Post) (trigger : Trigger) (f : Flush)
    (h : b.worker.window.entries = {}) : (b.round p trigger f).worker.window.entries = {} :=
  (entries_round_or p b trigger f).elim id fun hsame => hsame.trans h

theorem entries_flush (p : Post) (b : Bench σ) (trigger : Trigger) :
    (b.flush p trigger).worker.window.entries = {} := by
  let emptied : Bench σ :=
    { b with worker := { b.worker with window := (b.worker.window.drain b.shared.now).2 } }
  rw [flush]
  dsimp only [Window.drain]
  split
  · obtain ⟨lastPurge, hworker, _⟩ := afterFlush_worker p emptied trigger
    exact congrArg (fun w => w.window.entries) hworker
  · exact entries_round (b := emptied) p trigger _ rfl

/-! A flush leaves definitions and dictionary. -/

theorem names_afterFlush (p : Post) (b : Bench σ) (trigger : Trigger) :
    (b.afterFlush p trigger).shared.names = b.shared.names := by
  cases trigger with
  | time =>
    rw [afterFlush, purgeIfDue]
    split <;> rfl
  | _ => rfl

theorem names_round (p : Post) (b : Bench σ) (trigger : Trigger) (f : Flush) :
    (b.round p trigger f).shared.names = b.shared.names := by
  rw [round]
  dsimp only
  split
  · rfl
  · split <;> rfl

theorem names_flush (p : Post) (b : Bench σ) (trigger : Trigger) :
    (b.flush p trigger).shared.names = b.shared.names := by
  rw [flush]
  dsimp only
  split
  · exact names_afterFlush p _ trigger
  · exact names_round p _ trigger _

/-! Messages leave the mailbox only. -/

theorem queue_round (p : Post) (b : Bench σ) (trigger : Trigger) (f : Flush) :
    (b.round p trigger f).worker.mailbox.queue ⊆ b.worker.mailbox.queue := by
  rw [round]
  dsimp only
  split
  · exact List.nil_subset _
  · split <;> exact List.Subset.refl _

theorem queue_flush (p : Post) (b : Bench σ) (trigger : Trigger) :
    (b.flush p trigger).worker.mailbox.queue ⊆ b.worker.mailbox.queue := by
  rw [flush]
  dsimp only
  split
  · obtain ⟨lastPurge, hworker, _⟩ := afterFlush_worker p { b with
      worker := { b.worker with window := (b.worker.window.drain b.shared.now).2 } } trigger
    rw [hworker]
    exact List.Subset.refl _
  · exact queue_round _ _ _ _

theorem Step.queue {page : Diary} (h : Step p stopping page b b') :
    b'.worker.mailbox.queue ⊆ b.worker.mailbox.queue := by
  cases h with
  | closes => exact List.Subset.refl _
  | takes _ next => exact next ▸ List.subset_cons_self _ _
  | rollups _ next => exact next ▸ List.subset_cons_self _ _
  | @event _ e rest =>
    obtain ⟨⟨window, hworker⟩, -⟩ := handleEvent_eq p
      { b with worker := { b.worker with activity := .handling rest } } e
    rw [hworker]
    exact List.Subset.refl _
  | ends => exact List.Subset.refl _
  | flushes => exact queue_flush _ _ _
  | rounds => exact queue_round _ _ _ _

/-! A worker does not begin to send by itself. -/

theorem isSending_round (p : Post) (b : Bench σ) (trigger : Trigger) (f : Flush) :
    Engine.isSending (b.round p trigger f).worker = false := by
  rw [round]
  dsimp only
  split
  · rfl
  · split <;> rfl

theorem isSending_flush (p : Post) (b : Bench σ) (trigger : Trigger) :
    Engine.isSending (b.flush p trigger).worker = false := by
  rw [flush]
  dsimp only
  split
  · obtain ⟨lastPurge, hworker, _⟩ := afterFlush_worker p { b with
      worker := { b.worker with window := (b.worker.window.drain b.shared.now).2 } } trigger
    rw [hworker]
    cases trigger <;> rfl
  · exact isSending_round _ _ _ _

theorem Step.isSending {page : Diary} (h : Step p stopping page b b') :
    Engine.isSending b'.worker = false := by
  cases h with
  | closes hwaiting _ => rw [Engine.isSending, show (_ : Worker).activity = _ from hwaiting]
  | takes => rfl
  | rollups => rfl
  | @event _ e rest =>
    obtain ⟨⟨window, hworker⟩, -⟩ := handleEvent_eq p
      { b with worker := { b.worker with activity := .handling rest } } e
    rw [hworker]
    rfl
  | ends => rfl
  | flushes => exact isSending_flush _ _ _
  | rounds => exact isSending_round _ _ _ _

theorem Steps.isSending {page : Diary} (h : Steps p stopping page b b') :
    Engine.isSending b'.worker = false := by
  induction h with
  | one step => exact step.isSending
  | cons _ _ ih => exact ih

end Bench

end StatRollup
