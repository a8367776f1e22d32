import StatRollup.Proofs.Engine.Accounts

/-!
# Written entries on their way to the next processor

An entry that a worker wrote is still in its hands, or in the mailbox of its partition of the next
processor, under its key there, or it is dropped (`Plant.written_handed_on_or_dropped`).  A worker
drops what it has in hand when the next processor does not take it (`Engine.Refuses`), because
nobody has started it or its run has ended meanwhile.  Then everything in hand is dropped at once
and leaves no trace: no mailbox gets it, and no bad event tells of the events that it was made of.
-/

namespace StatRollup

variable {σ : Type} [Uid.Store σ]

/-! ## What a turn drops -/

namespace Bench

variable {p : Post} {b : Bench σ} {trigger : Trigger}

theorem dropped_roundPage (p : Post) (b : Bench σ) (f : Flush) :
    (b.roundPage p f).dropped = [] := by
  rw [roundPage]
  split <;> rfl

theorem dropped_flushPage (p : Post) (b : Bench σ) : (b.flushPage p).dropped = [] := by
  rw [flushPage]
  split
  · rfl
  · exact dropped_roundPage p b _

theorem dropped_finishPage (p : Post) (b : Bench σ) : (b.finishPage p).dropped = [] := by
  rw [finishPage]
  dsimp only
  split
  · exact dropped_flushPage p _
  · rfl

theorem dropped_nextPage (p : Post) (b : Bench σ) (events : List Event) :
    (b.nextPage p events).dropped = [] := by
  cases events with
  | nil => exact dropped_finishPage p b
  | cons e rest =>
    rw [nextPage]
    dsimp only
    split
    · exact dropped_finishPage p _
    · rfl

theorem dropped_receivePage (p : Post) (b : Bench σ) (m : Message) (rest : List Message) :
    (b.receivePage p m rest).dropped = [] := by
  cases m with
  | events events => exact dropped_nextPage p _ events
  | rollups entries => exact dropped_finishPage p _

/-- A worker by itself drops nothing. -/
theorem dropped_turnPage (p : Post) (stopping : Bool) (b : Bench σ) :
    (b.turnPage p stopping).dropped = [] := by
  rw [turnPage]
  split
  · split
    · rfl
    · split
      · exact dropped_receivePage p b _ _
      · exact dropped_flushPage p b
  · exact dropped_nextPage p b _
  · exact dropped_roundPage p b _
  · rfl

end Bench

namespace Engine

variable {e e' : Engine σ} {p : Processor} {c : Crew} {w : WorkerId} {worker : Worker}
  {j : ProcessorId}

section

variable (hp : e.processor? w.processor = some p) (hcrew : p.crew = some c)
  (hworker : p.worker? w.partition = some worker) (hj : p.forward = some j)
include hp hcrew hworker hj

/-- A worker drops everything that it has in hand, and brings nothing to anybody, when it is
refused; otherwise it drops nothing. -/
theorem dropped_page :
    (e.Refuses j worker.activity →
      (e.page w).dropped = worker.activity.onward j.interval ∧ e.handover? w = none) ∧
    (¬ e.Refuses j worker.activity → (e.page w).dropped = []) := by
  refine ⟨fun hrefuses => ?_, fun hnot => ?_⟩
  · obtain ⟨trigger, hpassing⟩ := hrefuses.passing
    obtain ⟨dropped, hpage, hhandover, honward⟩ :=
      page_of_over hp hcrew hworker hpassing fun j' hj' => by
        cases hj.symm.trans hj'
        exact .inr hrefuses
    rw [hpage, honward j hj]
    exact ⟨rfl, hhandover⟩
  · rw [page_eq hp hcrew hworker, pageOf]
    cases hactivity : worker.activity with
    | handingOn trigger entries =>
      rw [hactivity] at hnot
      have hsome : (e.openCrew? j).isSome = true := Option.isSome_iff_ne_none.2 hnot
      simp only [passPage, hj, if_pos hsome]
    | sending trigger serial groups count =>
      rw [hactivity] at hnot
      cases groups with
      | nil => rfl
      | cons g rest =>
        simp only [sendPage, hj]
        split
        · next f hd => exact absurd ⟨f, hd⟩ hnot
        · rfl
    | _ => exact Bench.dropped_turnPage _ _ _

/-- A worker that is refused tells nobody. -/
theorem badEvents_of_refuses (h : e.Refuses j worker.activity) (hturn : e.turn w = some e') :
    e'.shared.badEvents = e.shared.badEvents := by
  obtain ⟨p', c', worker', hp', hcrew', hw', hturns⟩ := turn_cases hturn
  cases hp.symm.trans hp'
  cases hcrew.symm.trans hcrew'
  cases hworker.symm.trans ((worker?_eq hcrew).trans hw')
  cases hturns with
  | bench hown _ =>
    obtain ⟨trigger, hpassing⟩ := h.passing
    exact absurd hpassing (hown trigger)
  | passing hands =>
    cases hands with
    | skips _ _ _ => exact Bench.badEvents_afterFlush _ _ _
    | groups hactivity hforward hq hopen =>
      cases hj.symm.trans hforward
      rw [hactivity] at h
      have hnone : e.openCrew? j = none := h
      rw [openCrew?, hq, Option.bind_some, hopen] at hnone
      cases hnone
    | sends hactivity hforward hd =>
      cases hj.symm.trans hforward
      rw [hactivity] at h
      obtain ⟨f, hrefused⟩ := h
      cases hrefused.symm.trans hd

end

end Engine

/-! ## Over a run -/

namespace Plant

variable {e : Engine σ} {s : Plant σ}

/-- What becomes of the entries that workers write. -/
structure Forwarded (first : Engine σ) (s : Plant σ) : Prop where
  /-- A written entry is in hand, or was taken from the worker, or dropped, or in hand when the
  worker died, under its key at the interval of the next processor. -/
  written {slot : Slot} {j : ProcessorId} : first.forward? slot.processor = some j →
    ((s.diary slot).written.map (rekey j.interval)).Perm
      (s.onward j.interval slot ++ s.sent slot ++ (s.diary slot).dropped ++
        (s.diary slot).stranded.map (rekey j.interval))
  /-- What was taken from a worker was for the next processor, and for the partition of its
  statistic. -/
  routed {a : Arrival} {slot : Slot} : a ∈ s.arrivals → a.sender = .worker slot →
    ∃ group q, a.message = .rollups group ∧
      first.forward? slot.processor = some a.slot.processor ∧
      first.partitioner? a.slot.processor = some q ∧
      ∀ x ∈ group, q.partitionOf x.1.statistic.toBytes = a.slot.partition
  /-- There it waits, unless the worker there has taken it or died. -/
  queued (slot : Slot) : s.arrived slot =
    (s.diary slot).taken ++ (s.diary slot).lost ++ s.waiting slot
  /-- What a worker has taken it has handled, in order, or still in hand. -/
  handled (slot : Slot) : (s.diary slot).taken.flatMap Message.pieces =
    (s.diary slot).handled ++ s.inHand slot
  /-- Only a worker that does not survive a store call loses or keeps anything. -/
  survived (slot : Slot) : (s.diary slot).crashes = 0 →
    (s.diary slot).lost = [] ∧ (s.diary slot).stranded = []
  /-- A worker that is not refused drops nothing. -/
  kept {w : WorkerId} {slot : Slot} {worker : Worker} {j : ProcessorId} :
    s.engine.slot? w = some slot → s.engine.workerAt? slot = some worker →
    first.forward? w.processor = some j → ¬ s.engine.Refuses j worker.activity →
    (s.engine.page w).dropped = []
  /-- A worker that is refused drops all that it has in hand, and nobody gets or hears of it. -/
  refused {w : WorkerId} {slot : Slot} {worker : Worker} {j : ProcessorId} {e : Engine σ} :
    s.engine.slot? w = some slot → s.engine.workerAt? slot = some worker →
    first.forward? w.processor = some j → s.engine.Refuses j worker.activity →
    s.engine.turn w = some e →
    (s.engine.page w).dropped = s.onward j.interval slot ∧
      (s.turn w).arrivals = s.arrivals ∧
      (s.turn w).engine.shared.badEvents = s.engine.shared.badEvents

/-- Processors that nobody had started, in whatever order they are started and stopped and whatever
happens, hand every written entry on, except that workers drop what they have in hand when the next
processor refuses it. -/
theorem written_handed_on_or_dropped {e : Engine σ} (hfresh : e.Fresh) (moves : List (Move σ)) :
    (run { engine := e } moves).Forwarded e := by
  have h := sound_of_fresh hfresh moves
  revert h
  generalize run { engine := e } moves = s
  intro h
  have hplace : ∀ {w : WorkerId} {slot : Slot} {worker : Worker} {j : ProcessorId},
      s.engine.slot? w = some slot → s.engine.workerAt? slot = some worker →
      e.forward? w.processor = some j →
      ∃ p c, s.engine.processor? w.processor = some p ∧ p.crew = some c ∧
        p.worker? w.partition = some worker ∧ p.forward = some j := by
    intro w slot worker j hslot hworker hj
    obtain ⟨c, hc, rfl⟩ := Option.map_eq_some_iff.1 hslot
    obtain ⟨p, hp, hcrew⟩ := Option.bind_eq_some_iff.1 hc
    have hw : c.workers[w.partition]? = some worker :=
      (Engine.workerAt?_of_crew? hc).symm.trans hworker
    rw [← h.engine.forward, Engine.forward?, hp] at hj
    exact ⟨p, c, hp, hcrew, (Engine.worker?_eq hcrew).trans hw, hj⟩
  refine ⟨fun {slot j} hj => (h.account slot).onward hj, fun {a slot} ha hsender => ?_,
    fun slot => (h.account slot).messages, fun slot => (h.account slot).pieces,
    fun slot hlives => ?_,
    fun {w slot worker j} hslot hworker hj hnot => ?_,
    fun {w slot worker j e'} hslot hworker hj hrefuses hturn => ?_⟩
  · have hfits := h.arrivals a ha
    rw [Arrival.Fits, hsender] at hfits
    exact hfits
  · obtain ⟨hlost, _, hstranded⟩ := (h.account slot).survived hlives
    exact ⟨hlost, hstranded⟩
  · obtain ⟨p, c, hp, hcrew, hw, hforward⟩ := hplace hslot hworker hj
    exact (Engine.dropped_page hp hcrew hw hforward).2 hnot
  · obtain ⟨p, c, hp, hcrew, hw, hforward⟩ := hplace hslot hworker hj
    obtain ⟨hdropped, hnone⟩ := (Engine.dropped_page hp hcrew hw hforward).1 hrefuses
    refine ⟨?_, ?_, ?_⟩
    · rw [hdropped, onward, hworker]
      rfl
    · rw [turn, hturn, hslot, hnone]
      exact List.append_nil _
    · rw [turn, hturn, hslot]
      exact Engine.badEvents_of_refuses hp hcrew hw hforward hrefuses hturn

/-- With both processors running an order is written and waits for the second one. -/
theorem written_handed_on_or_dropped_orders :
    (run { engine := Orders.engineWith [] } Orders.relayMoves).Forwarded (Orders.engineWith []) ∧
      ((run { engine := Orders.engineWith [] } Orders.relayMoves).diary
        Orders.slot).written.length = 1 ∧
      ((run { engine := Orders.engineWith [] } Orders.relayMoves).waiting
        Orders.slotByMinute).length = 1 :=
  ⟨written_handed_on_or_dropped (Orders.fresh []) Orders.relayMoves, by decide +kernel,
    by decide +kernel⟩

/-- In a pipeline of which only the finest processor was started two orders are written there, and
are nowhere else and not among the bad events when it has stopped. -/
theorem written_orders_vanish :
    let s := run { engine := Orders.engineWith [] } Orders.moves
    (s.diary Orders.slot).written.length = 2 ∧ (s.onward .minute Orders.slot).length = 0 ∧
      (s.arrivals.all fun a => a.sender ≠ .worker Orders.slot) = true ∧
      (s.engine.processors.all fun p => p.crew.isNone) = true ∧
      s.engine.shared.badEvents.size = 0 := by
  decide +kernel

end Plant

end StatRollup
