import StatRollup.Proofs.Engine.Cells

/-!
# What a worker has in hand

A worker holds counts in four places: in the messages of its mailbox, in the events that are left
of a message, in its window, and in the entries that it is about to hand on.  `Worker.load` adds up
what they contribute to a target.

A worker that fits its processor holds only what belongs there: events that resolve to the
processor, and entries of its kind and interval under keys in use.  When it finishes it has
nothing left but what it is handing on.  As the keys in use lead to the same targets when tables
grow, so does the load stay the same (`load_of_extends`).
-/

namespace StatRollup

open Uid (Dictionary Tables)

variable {registry : Registry} {tables tables' : Tables} {names : List String} {id : ProcessorId}
  {t : Target} {w : Worker}

/-! ## What belongs to a processor -/

/-- An entry of a processor: its key is of the interval, and belongs to a definition of the kind. -/
structure EntryFits (registry : Registry) (tables : Tables) (id : ProcessorId) (k : Key)
    (p : Pending) : Prop where
  interval : k.interval = id.interval
  kind : p.aggregate.kind = id.kind
  belongs : k.Belongs registry tables id.kind

/-- An event is for a processor when its definition is of the kind and the precision. -/
def Event.GoesTo (registry : Registry) (id : ProcessorId) (e : Event) : Prop :=
  ∃ s, e.resolve registry = .ok s ∧ (⟨s.kind, s.precision⟩ : ProcessorId) = id

/-- An event of a processor, with names of a list. -/
structure Event.Fits (registry : Registry) (names : List String) (id : ProcessorId) (e : Event) :
    Prop where
  resolved : e.GoesTo registry id
  named : ∀ n ∈ e.mentions, n ∈ names

/-- A message of a processor. -/
def Message.Fits (registry : Registry) (tables : Tables) (names : List String)
    (id : ProcessorId) : Message → Prop
  | .events es => ∀ e ∈ es, e.Fits registry names id
  | .rollups es => ∀ x ∈ es, EntryFits registry tables id x.1 x.2

namespace Activity

/-- What a worker of a processor may be in the middle of while no write fails. -/
def Fits (registry : Registry) (tables : Tables) (names : List String) (id : ProcessorId) :
    Activity → Prop
  | waiting => True
  | handling events => ∀ e ∈ events, e.Fits registry names id
  | handingOn _ entries => ∀ x ∈ entries, EntryFits registry tables id x.1 x.2
  | sending _ _ groups _ => ∃ coarser, id.coarser? = some coarser ∧
      ∀ g ∈ groups, ∀ x ∈ g.2, EntryFits registry tables coarser x.1 x.2
  | ended => True
  | backingOff .. => False
  | died => False

/-- Whether a worker that is done with this is over. -/
def finishes : Activity → Bool
  | handingOn .stop _ => true
  | sending .stop .. => true
  | ended => true
  | _ => false

@[simp] theorem finishes_handingOn (trigger : Trigger) (entries : List Entry) :
    (handingOn trigger entries).finishes = decide (trigger = .stop) := by
  cases trigger <;> rfl

@[simp] theorem finishes_sending (trigger : Trigger) (serial : Nat)
    (groups : List (Nat × List Entry)) (count : Nat) :
    (sending trigger serial groups count).finishes = decide (trigger = .stop) := by
  cases trigger <;> rfl

end Activity

/-- A worker of a processor. -/
structure Worker.Fits (registry : Registry) (tables : Tables) (names : List String)
    (id : ProcessorId) (w : Worker) : Prop where
  /-- Its messages belong there. -/
  messages : ∀ m ∈ w.mailbox.queue, m.Fits registry tables names id
  /-- Its entries do. -/
  window : w.window.All (EntryFits registry tables id)
  /-- So does what it is in the middle of. -/
  activity : w.activity.Fits registry tables names id
  /-- It takes messages until it closes. -/
  closing : w.mailbox.isOpen = !w.isClosing
  /-- It finishes with nothing left. -/
  finished : w.activity.finishes = true →
    w.isClosing = true ∧ w.mailbox.queue = [] ∧ w.window.entries = {}

theorem EntryFits.mono {k : Key} {p : Pending} (h : EntryFits registry tables id k p)
    (hext : tables.Extends tables') : EntryFits registry tables' id k p :=
  ⟨h.interval, h.kind, h.belongs.mono hext⟩

theorem Message.Fits.mono {m : Message} (h : m.Fits registry tables names id)
    (hext : tables.Extends tables') : m.Fits registry tables' names id := by
  cases m with
  | events es => exact h
  | rollups es => exact fun x hx => (h x hx).mono hext

theorem Activity.Fits.mono {a : Activity} (h : a.Fits registry tables names id)
    (hext : tables.Extends tables') : a.Fits registry tables' names id := by
  cases a with
  | waiting => trivial
  | handling events => exact h
  | handingOn trigger entries => exact fun x hx => (h x hx).mono hext
  | sending trigger serial groups count =>
    obtain ⟨coarser, hcoarser, hall⟩ := h
    exact ⟨coarser, hcoarser, fun g hg x hx => (hall g hg x hx).mono hext⟩
  | ended => trivial
  | backingOff => exact h
  | died => exact h

theorem Worker.Fits.mono (h : w.Fits registry tables names id) (hext : tables.Extends tables') :
    w.Fits registry tables' names id where
  messages m hm := (h.messages m hm).mono hext
  window k p hp := (h.window k p hp).mono hext
  activity := h.activity.mono hext
  closing := h.closing
  finished := h.finished

/-- A worker that starts has nothing. -/
theorem Worker.fits_new (settings : Settings) (now : Nat) :
    (Worker.new settings now).Fits registry tables names id where
  messages _ hm := nomatch hm
  window := Window.all_of_empty rfl
  activity := trivial
  closing := rfl
  finished h := nomatch h

/-! ## Loads -/

/-- What a list of entries contributes. -/
def Target.ofEntries (tables : Tables) (t : Target) (entries : List Entry) : Nat :=
  (entries.map (t.ofEntry tables)).sum

/-- What a list of events contributes. -/
def Target.ofEvents (t : Target) (events : List Event) : Nat := (events.map t.ofEvent).sum

/-- What a message contributes. -/
def Message.load (tables : Tables) (t : Target) : Message → Nat
  | .events es => t.ofEvents es
  | .rollups es => t.ofEntries tables es

/-- What a worker in the middle of something contributes.  Entries that are written contribute to
coarser cells only. -/
def Activity.load (tables : Tables) (t : Target) : Activity → Nat
  | waiting => 0
  | handling events => t.ofEvents events
  | backingOff _ flush _ => t.ofEntries tables flush.left +
      (flush.written.map (t.ofWritten tables)).sum
  | handingOn _ entries => (entries.map (t.ofWritten tables)).sum
  | sending _ _ groups _ => (groups.map fun g => t.ofEntries tables g.2).sum
  | ended => 0
  | died => 0

/-- What a worker contributes. -/
def Worker.load (tables : Tables) (t : Target) (w : Worker) : Nat :=
  (w.mailbox.queue.map (Message.load tables t)).sum + w.window.weight (t.ofEntry tables) +
    w.activity.load tables t

section

variable {d : Dictionary Tables} (hd : d.Sound) (hext : tables.Extends d.store)
include hd hext

theorem ofEntries_of_extends {entries : List Entry}
    (h : ∀ x ∈ entries, EntryFits registry tables id x.1 x.2) :
    t.ofEntries d.store entries = t.ofEntries tables entries := by
  refine congrArg List.sum (List.map_congr_left fun x hx => ?_)
  exact Target.ofEntry_of_extends hd hext (h x hx).belongs

theorem Message.load_of_extends {m : Message} (h : m.Fits registry tables names id) :
    m.load d.store t = m.load tables t := by
  cases m with
  | events es => rfl
  | rollups es => exact ofEntries_of_extends hd hext h

theorem Activity.load_of_extends {a : Activity} (h : a.Fits registry tables names id) :
    a.load d.store t = a.load tables t := by
  cases a with
  | waiting => rfl
  | handling events => rfl
  | handingOn trigger entries =>
    refine congrArg List.sum (List.map_congr_left fun x hx => ?_)
    exact Target.ofWritten_of_extends hd hext (h x hx).belongs
  | sending trigger serial groups count =>
    obtain ⟨coarser, _, hall⟩ := h
    refine congrArg List.sum (List.map_congr_left fun g hg => ?_)
    exact ofEntries_of_extends hd hext (hall g hg)
  | ended => rfl
  | backingOff => exact h.elim
  | died => rfl

/-- The load of a worker stays the same when tables grow. -/
theorem Worker.load_of_extends (h : w.Fits registry tables names id) :
    w.load d.store t = w.load tables t := by
  have hmessages : (w.mailbox.queue.map (Message.load d.store t)).sum =
      (w.mailbox.queue.map (Message.load tables t)).sum :=
    congrArg List.sum
      (List.map_congr_left fun m hm => Message.load_of_extends hd hext (h.messages m hm))
  have hwindow : w.window.weight (t.ofEntry d.store) = w.window.weight (t.ofEntry tables) := by
    refine congrArg List.sum (List.map_congr_left fun x hx => ?_)
    exact Target.ofEntry_of_extends hd hext (h.window x.1 x.2 (Window.mem_toList hx)).belongs
  rw [load, load, hmessages, hwindow, Activity.load_of_extends hd hext h.activity]

end

/-- A worker that is over has nothing left. -/
theorem Worker.Fits.load_of_isOver (h : w.Fits registry tables names id) (hover : w.isOver = true) :
    w.load tables t = 0 := by
  have hended : w.activity = .ended := by
    have hfits := h.activity
    rw [isOver] at hover
    split at hover
    · assumption
    · next heq =>
      rw [heq] at hfits
      exact hfits.elim
    · cases hover
  obtain ⟨_, hqueue, hwindow⟩ := h.finished (by rw [hended]; rfl)
  rw [load, hqueue, hended, Window.weight, hwindow]
  rfl

/-- A message adds to the load what it contributes. -/
theorem Worker.load_push (m : Message) :
    Worker.load tables t { w with mailbox := w.mailbox.push m } =
      w.load tables t + m.load tables t := by
  show ((w.mailbox.queue ++ [m]).map (Message.load tables t)).sum +
    w.window.weight (t.ofEntry tables) + w.activity.load tables t = _
  rw [load, List.map_append, List.sum_append, List.map_singleton, List.sum_singleton]
  omega

theorem Worker.load_new (settings : Settings) (now : Nat) :
    (Worker.new settings now).load tables t = 0 := rfl

end StatRollup
