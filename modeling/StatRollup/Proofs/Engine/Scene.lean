import StatRollup.Proofs.Engine.Start

/-!
# Everything that can happen

A `Scene` is a pipeline with what goes on around it: submissions that are under way, a start or a
stop that is under way, and the events that mailboxes have taken so far.  A move is a turn of one
worker, one step of one submission, one processor that starts or stops, or time that passes, so
that a list of moves is a run in which all of them are interleaved at will.  A move that cannot be
made changes nothing.

A submission asks for the crew of one processor after another and brings each partition its events,
as `Engine.submit` does, and the pipeline starts from the last processor and stops from the first,
as `Engine.startAll` and `Engine.stopAll` do.  What these operations do while they wait is left to
the other moves, so a submission may give up waiting, or be forgotten, at any time.
-/

namespace StatRollup

open Uid (Tables)

variable {σ : Type} [Uid.Store σ]

/-! ## Submissions -/

/-- Rejects events in the name of the pipeline. -/
def Engine.rejectAll (e : Engine σ) (f : Fault) (events : List Event) : Engine σ :=
  events.foldl (fun e event => e.reject event f) e

/-- Events on their way to the partitions of a crew. -/
structure Delivery where
  /-- The processor. -/
  id : ProcessorId
  /-- The crew. -/
  serial : Nat
  /-- The partitions that are left, with their events. -/
  parts : List (Nat × List Event)
  /-- Events that were handed back. -/
  unsent : List Event := []

/-- A submission that is under way. -/
structure Submission where
  /-- What is being delivered. -/
  delivery : Option Delivery := none
  /-- The processors that are left, with their events. -/
  groups : List (ProcessorId × List Event)

/-- The next step of a submission, with the events that a mailbox took in it. -/
def Submission.step (e : Engine σ) (s : Submission) : Engine σ × List Event × Submission :=
  match s.delivery, s.groups with
  | none, [] => (e, [], s)
  | none, (id, events) :: groups =>
    match (e.processor? id).bind fun p => p.openCrew?.map fun c => (p, c) with
    | none => (e.rejectAll (.notRunning id.name) events, [], { groups })
    | some (p, crew) =>
      let delivery := { id, serial := crew.serial, parts := p.partitioner.split events }
      (e, [], { delivery := some delivery, groups })
  | some d, groups =>
    match d.parts with
    | [] => (e.rejectAll (.stopping d.id.name) d.unsent, [], { groups })
    | (partition, events) :: parts =>
      match e.deliver d.id d.serial partition (.events events) with
      | .waits => (e, [], s)
      | .taken e => (e, events, { delivery := some { d with parts }, groups })
      | .refused _ =>
        (e, [], { delivery := some { d with parts, unsent := d.unsent ++ events }, groups })

/-- A submission that does not wait for room any longer. -/
def Submission.giveUp (s : Submission) : Submission :=
  match s.delivery with
  | some { id, serial, parts := part :: parts, unsent } =>
    { s with delivery := some { id, serial, parts, unsent := unsent ++ part.2 } }
  | _ => s

/-! ## Scenes and moves -/

/-- A start or a stop of the pipeline that is under way. -/
inductive Phase where
  /-- None is. -/
  | steady
  /-- Processors are left to start. -/
  | starting (todo : List ProcessorId)
  /-- Processors are left to stop. -/
  | stopping (todo : List ProcessorId)
  /-- A processor was told to stop, and then others are left to. -/
  | awaiting (id : ProcessorId) (todo : List ProcessorId)

/-- A pipeline and what goes on around it. -/
structure Scene (σ : Type := Uid.Tables) [Uid.Store σ] where
  /-- The pipeline. -/
  engine : Engine σ
  /-- Whether it is being started or stopped. -/
  phase : Phase := .steady
  /-- The submissions made so far. -/
  submissions : List Submission := []
  /-- The events that mailboxes took. -/
  accepted : List Event := []

/-- What can happen next. -/
inductive Move where
  /-- Somebody submits events. -/
  | submit (events : List Event)
  /-- A submission takes its next step. -/
  | send (i : Nat)
  /-- A submission gives up waiting for room. -/
  | giveUp (i : Nat)
  /-- A worker takes its next turn. -/
  | turn (w : WorkerId)
  /-- Workers line up in another order. -/
  | line (ready parked : List WorkerId)
  /-- Time passes. -/
  | wait (time : Nat)
  /-- Windows are emptied in another order from now on. -/
  | arrange (order : { f : List Entry → List Entry // ∀ entries, (f entries).Perm entries })
  /-- Somebody starts the pipeline. -/
  | start
  /-- Somebody stops the pipeline. -/
  | stop
  /-- The start or stop under way gets on. -/
  | proceed

namespace Scene

/-- Begins a submission if all processors that it is for run. -/
def submit (s : Scene σ) (events : List Event) : Scene σ :=
  let routed := s.engine.route events
  let e := routed.2.2
  let groups := e.groups routed.1
  match groups.find? fun g => !(e.processor? g.1).any Processor.isHealthy with
  | some _ => { s with engine := e }
  | none => { s with engine := e, submissions := s.submissions ++ [{ groups }] }

/-- The next step of a submission. -/
def send (s : Scene σ) (i : Nat) : Scene σ :=
  match s.submissions[i]? with
  | none => s
  | some x =>
    let next := x.step s.engine
    { s with
      engine := next.1
      submissions := s.submissions.set i next.2.2
      accepted := s.accepted ++ next.2.1 }

/-- The next step of a start or a stop. -/
def proceed (s : Scene σ) : Scene σ :=
  match s.phase with
  | .steady => s
  | .starting [] => { s with phase := .steady }
  | .starting (id :: todo) => { s with engine := s.engine.start id, phase := .starting todo }
  | .stopping [] => { s with phase := .steady }
  | .stopping (id :: todo) =>
    { s with engine := s.engine.beginStop id, phase := .awaiting id todo }
  | .awaiting id todo =>
    if s.engine.isDone id then
      { s with engine := (s.engine.endStop id).2, phase := .stopping todo }
    else s

/-- Begins a start or a stop when none is under way. -/
def begin (s : Scene σ) (phase : Phase) : Scene σ :=
  match s.phase with
  | .steady => { s with phase }
  | _ => s

/-- A move. -/
def step (s : Scene σ) : Move → Scene σ
  | .submit events => s.submit events
  | .send i => s.send i
  | .giveUp i => { s with submissions := s.submissions.modify i Submission.giveUp }
  | .turn w => { s with engine := (s.engine.turn w).getD s.engine }
  | .line ready parked => { s with engine := { s.engine with ready, parked } }
  | .wait time => { s with engine := s.engine.passTo time }
  | .arrange order =>
    { s with engine := { s.engine with shared := { s.engine.shared with arrange := order.1 } } }
  | .start => s.begin (.starting (s.engine.processors.map Processor.id).reverse)
  | .stop => s.begin (.stopping (s.engine.processors.map Processor.id))
  | .proceed => s.proceed

/-- Moves one after another. -/
def run (s : Scene σ) (moves : List Move) : Scene σ := moves.foldl step s

end Scene

/-! ## Steps that are no work -/

namespace Engine

variable {settings : Settings} {names : List String} {e e' e'' : Engine σ} {id : ProcessorId}
  {gain : Target → Nat}

/-- Two engines that differ in rejected events, in the time, in the order of entries and in which
workers are in line at most. -/
structure Resembles (e e' : Engine σ) : Prop where
  processors : e'.processors = e.processors
  registry : e'.shared.registry = e.shared.registry
  dictionary : e'.shared.dictionary = e.shared.dictionary
  store : e'.shared.store = e.shared.store
  arranged : (∀ entries, (e.shared.arrange entries).Perm entries) →
    ∀ entries, (e'.shared.arrange entries).Perm entries

namespace Resembles

theorem refl (e : Engine σ) : Resembles e e := ⟨rfl, rfl, rfl, rfl, id⟩

theorem trans (h : Resembles e e') (h' : Resembles e' e'') : Resembles e e'' :=
  ⟨h'.processors.trans h.processors, h'.registry.trans h.registry,
    h'.dictionary.trans h.dictionary, h'.store.trans h.store, fun ha => h'.arranged (h.arranged ha)⟩

theorem of_alike (h : Alike e e') : Resembles e e' :=
  ⟨h.processors, by rw [h.shared], by rw [h.shared], by rw [h.shared], fun ha => by rwa [h.shared]⟩

theorem processor? (h : Resembles e e') (id : ProcessorId) :
    e'.processor? id = e.processor? id := by
  rw [Engine.processor?, Engine.processor?, h.processors]

theorem crew? (h : Resembles e e') (id : ProcessorId) : e'.crew? id = e.crew? id := by
  rw [Engine.crew?, Engine.crew?, h.processor?]

theorem tables {e e' : Engine} (h : Resembles e e') : e'.shared.tables = e.shared.tables := by
  rw [Shared.tables, Shared.tables, h.dictionary]

/-- Nothing is gained or lost. -/
theorem leads {e e' : Engine} (hr : Resembles e e') (h : e.Sound settings names) :
    e.Leads settings names e' fun _ => 0 where
  sound := by
    refine ⟨hr.processors ▸ h.ids, fun hp => h.posted (hr.processor? _ ▸ hp), ?_, fun hc => ?_⟩
    · have hs := h.shared
      refine ⟨hr.registry ▸ hs.registry, hr.dictionary ▸ hs.dictionary, hr.dictionary ▸ hs.room,
        hr.store ▸ hs.steady, ?_, hr.arranged hs.arranged⟩
      rw [hr.store, hr.registry, hr.tables]
      exact hs.cells
    · have hs := h.staffed (hr.crew? _ ▸ hc)
      refine ⟨?_, hs.size, hs.opened, fun hj => ?_⟩
      · rw [hr.registry, hr.tables]
        exact hs.fits
      · obtain ⟨c', hc', hrest⟩ := hs.relay hj
        exact ⟨c', (hr.crew? _).trans hc', hrest⟩
  registry := hr.registry
  told id := by rw [told?, told?, hr.crew?]
  tallies t _ := by
    refine .of_eq ?_
    rw [amount, amount, total, total, hr.store, hr.tables, hr.processors]
    rfl

end Resembles

theorem resembles_reject (e : Engine σ) (event : Event) (f : Fault) :
    Resembles e (e.reject event f) := ⟨rfl, rfl, rfl, rfl, id⟩

theorem resembles_rejectAll (e : Engine σ) (f : Fault) (events : List Event) :
    Resembles e (e.rejectAll f events) := by
  rw [rejectAll]
  induction events generalizing e with
  | nil => exact .refl e
  | cons event events ih =>
    exact (resembles_reject e event f).trans (ih (e.reject event f))

theorem resembles_passTo (e : Engine σ) (time : Nat) : Resembles e (e.passTo time) := by
  have hnow : Resembles e { e with shared := { e.shared with now := time } } :=
    ⟨rfl, rfl, rfl, rfl, id⟩
  exact hnow.trans (.of_alike (alike_foldl alike_wake _ _))

/-- Routing rejects events, and gives the others to the processors of their definitions. -/
theorem route_ok (e : Engine σ) (events : List Event) :
    Resembles e (e.route events).2.2 ∧
      ∀ r ∈ (e.route events).1, r.2.GoesTo e.shared.registry r.1 := by
  induction events generalizing e with
  | nil => exact ⟨.refl e, fun r hr => nomatch hr⟩
  | cons event events ih =>
    rw [route]
    split
    · next s hs =>
      obtain ⟨hr, hall⟩ := ih e
      exact ⟨hr, List.forall_mem_cons.2 ⟨⟨s, hs, rfl⟩, hall⟩⟩
    · next f hf =>
      obtain ⟨hr, hall⟩ := ih (e.reject event f)
      exact ⟨(resembles_reject e event f).trans hr, hall⟩

theorem mem_groups {routed : List (ProcessorId × Event)} {g : ProcessorId × List Event}
    (hg : g ∈ e.groups routed) {event : Event} (h : event ∈ g.2) : (g.1, event) ∈ routed := by
  obtain ⟨p, _, hp⟩ := List.mem_filterMap.1 hg
  split at hp
  · cases hp
  · cases hp
    obtain ⟨r, hr, rfl⟩ := List.mem_map.1 h
    obtain ⟨hmem, hid⟩ := List.mem_filter.1 hr
    rwa [← show r.1 = p.id by simpa using hid]

/-- An exact gain that stops nobody. -/
theorem Changes.leads {e e' : Engine} (h : Changes settings names id e e' gain)
    (htold : ∀ j, e'.told? j = e.told? j) : e.Leads settings names e' gain :=
  ⟨h.sound, by rw [h.shared], htold, fun t _ => .of_eq (h.amount t)⟩

end Engine

/-! ## Steps of submissions -/

namespace Submission

variable {settings : Settings} {names : List String} {e : Engine} {s : Submission}

/-- Every event is on its way to the processor of its definition. -/
structure Fits (registry : Registry) (s : Submission) : Prop where
  delivery {d : Delivery} : s.delivery = some d →
    ∀ part ∈ d.parts, ∀ event ∈ part.2, event.GoesTo registry d.id
  groups : ∀ g ∈ s.groups, ∀ event ∈ g.2, event.GoesTo registry g.1

theorem Fits.giveUp {registry : Registry} (h : s.Fits registry) : s.giveUp.Fits registry := by
  rw [Submission.giveUp]
  split
  · next id serial part parts unsent hd =>
    refine ⟨fun hd' => ?_, h.groups⟩
    cases hd'
    exact fun x hx => h.delivery hd x (List.mem_cons_of_mem _ hx)
  · exact h

/-- A step of a submission gains the events that a mailbox took. -/
theorem step_ok (h : e.Sound settings names) (hs : s.Fits e.shared.registry)
    (hnamed : ∀ event ∈ (s.step e).2.1, ∀ n ∈ event.mentions, n ∈ names) :
    e.Leads settings names (s.step e).1 (fun t => t.ofEvents (s.step e).2.1) ∧
      (s.step e).2.2.Fits e.shared.registry := by
  have hsame : e.Leads settings names e fun _ => 0 := (Engine.Resembles.refl e).leads h
  have hrejects : ∀ f events, e.Leads settings names (e.rejectAll f events) fun _ => 0 :=
    fun f events => (e.resembles_rejectAll f events).leads h
  obtain ⟨delivery, groups⟩ := s
  have hgroups := hs.groups
  cases delivery with
  | none =>
    cases groups with
    | nil => exact ⟨hsame, hs⟩
    | cons g groups =>
      obtain ⟨id, events⟩ := g
      obtain ⟨hgo, hrest⟩ := List.forall_mem_cons.1 hgroups
      rw [step]
      dsimp only
      cases (e.processor? id).bind fun p => p.openCrew?.map fun c => (p, c) with
      | none => exact ⟨hrejects _ _, fun hd => (nomatch hd), hrest⟩
      | some found =>
        refine ⟨hsame, fun hd part hpart event hevent => ?_, hrest⟩
        cases hd
        exact hgo event ((Partitioner.mem_spread hpart).2 event hevent)
  | some d =>
    obtain ⟨id, serial, parts, unsent⟩ := d
    have hparts := hs.delivery rfl
    cases parts with
    | nil => exact ⟨hrejects _ _, fun hd => (nomatch hd), hgroups⟩
    | cons part parts =>
      obtain ⟨partition, events⟩ := part
      obtain ⟨hgo, hrest⟩ := List.forall_mem_cons.1 hparts
      rw [step] at hnamed ⊢
      dsimp only at hnamed ⊢
      cases hd : e.deliver id serial partition (.events events) with
      | waits => exact ⟨hsame, hs⟩
      | refused f =>
        refine ⟨hsame, fun hd' => ?_, hgroups⟩
        cases hd'
        exact hrest
      | taken e' =>
        rw [hd] at hnamed
        have hfits : (Message.events events).Fits e.shared.registry e.shared.tables names id :=
          fun event hevent => ⟨hgo event hevent, hnamed event hevent⟩
        refine ⟨(Engine.deliver_changes h hfits hd).leads (Engine.told?_deliver hd), fun hd' => ?_,
          hgroups⟩
        cases hd'
        exact hrest

end Submission

end StatRollup
