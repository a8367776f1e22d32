import StatRollup.Proofs.Engine.Accounts
import StatRollup.Proofs.Engine.Received

/-!
# Stopping loses nothing

Whatever calls, workers and others do while processors start and stop, every event of a call is in
hand, handed back, or with the worker of its partition, and once; and a worker takes what it gets,
in order, and handles what it takes, event by event.  When stopping a processor returns nothing is
waiting or half done, all windows are empty, and every entry that left one was written or given up
(`Plant.stopping_loses_nothing`).

The moves of a plant are finer than the operations of a processor, which are runs of them: what
holds after all moves holds when queueing, starting and stopping return (`Plant.submitTo_reaches`,
`Plant.start_reaches`, `Plant.stop_reaches`).

The exception is a worker that does not survive a store call.  Its diary says what is lost, and
stopping its processor does not succeed (`Plant.crash_loses_orders`).
-/

namespace StatRollup

variable {σ : Type} [Uid.Store σ]

namespace Plant

variable {e : Engine σ} {s : Plant σ} {id : ProcessorId} {c : Crew}

/-- Number of workers of a crew that did not survive a store call. -/
def crashed (s : Plant σ) (id : ProcessorId) (c : Crew) : Nat :=
  (List.range c.workers.length).countP fun i => (s.diary ⟨id, c.serial, i⟩).crashes ≠ 0

/-- What stopping a processor finds when its workers are over. -/
structure Stopped (s : Plant σ) (id : ProcessorId) (c : Crew) : Prop where
  /-- Every window is empty. -/
  windows : ∀ w ∈ c.workers, w.window.entries = {}
  /-- Every message was taken, unless it was lost with its worker. -/
  took (i : Nat) : s.arrived ⟨id, c.serial, i⟩ =
    (s.diary ⟨id, c.serial, i⟩).taken ++ (s.diary ⟨id, c.serial, i⟩).lost
  /-- And everything in it was handled, in order. -/
  handled (i : Nat) : (s.diary ⟨id, c.serial, i⟩).handled =
    (s.diary ⟨id, c.serial, i⟩).taken.flatMap Message.pieces
  /-- Every entry was written or given up, unless its worker did not survive writing it. -/
  settled (i : Nat) : (s.diary ⟨id, c.serial, i⟩).drained.Perm
    ((s.diary ⟨id, c.serial, i⟩).written ++ (s.diary ⟨id, c.serial, i⟩).givenUp.map Prod.fst ++
      (s.diary ⟨id, c.serial, i⟩).unsettled)
  /-- Stopping fails when there are such workers, and tells how many. -/
  answer : (s.engine.endStop id).1 =
    if s.crashed id c = 0 then .ok () else .error (.workersDied (s.crashed id c) id.name)

/-- Nothing that calls bring to processors is lost or handled twice. -/
structure Balanced (first : Engine σ) (s : Plant σ) : Prop where
  /-- Every event of a call is handed back, or in hand, or was taken, and once. -/
  calls {i : Nat} {call : Call} : s.calls[i]? = some call →
    (call.back ++ call.parts.flatMap Prod.snd ++ s.taken i).Perm call.events
  /-- What was taken from a call is with the workers of one run of its processor, each event with
  the worker of its partition. -/
  routed {a : Arrival} {i : Nat} : a ∈ s.arrivals → a.sender = .call i →
    ∃ call events q, s.calls[i]? = some call ∧ a.message = .events events ∧
      a.slot.processor = call.id ∧ a.slot.serial = call.serial ∧
      first.partitioner? call.id = some q ∧
      ∀ event ∈ events, q.partitionOfEvent event = a.slot.partition
  /-- A worker took the messages that it got, in order, or lost them when it died, or has them
  waiting. -/
  took (slot : Slot) : s.arrived slot =
    (s.diary slot).taken ++ (s.diary slot).lost ++ s.waiting slot
  /-- It handled what it took, in order and each event once, or has it in hand. -/
  handled (slot : Slot) : (s.diary slot).taken.flatMap Message.pieces =
    (s.diary slot).handled ++ s.inHand slot
  /-- The events that workers took are those that their processors counted. -/
  received (id : ProcessorId) : s.engine.received id = first.received id + s.received id
  /-- Every entry that left a window was written or given up, or was neither when its worker died,
  or is being written. -/
  settled (slot : Slot) : (s.diary slot).drained.Perm ((s.diary slot).written ++
    (s.diary slot).givenUp.map Prod.fst ++ (s.diary slot).unsettled ++ s.unwritten slot)
  /-- Only a worker that does not survive a store call loses anything. -/
  survived (slot : Slot) : (s.diary slot).crashes = 0 →
    (s.diary slot).lost = [] ∧ (s.diary slot).unsettled = []
  /-- When stopping returns nothing is in hand. -/
  stopped {id : ProcessorId} {c : Crew} : s.engine.crew? id = some c →
    s.engine.isDone id = true → s.Stopped id c
  /-- And so it stays. -/
  gone (slot : Slot) : s.engine.workerAt? slot = none →
    s.waiting slot = [] ∧ s.inHand slot = [] ∧ s.unwritten slot = []
  /-- A processor that does not take messages hands all events back and changes nothing. -/
  refused {id : ProcessorId} (events : List Event) : s.engine.openCrew? id = none →
    s.engine.submitTo id events = (.error { fault := .notRunning id.name, events }, s.engine)

/-- A crew finds those of its workers that did not survive a store call. -/
theorem Sound.deaths_eq (h : s.Sound e) (hc : s.engine.crew? id = some c) :
    c.deaths = s.crashed id c := by
  have hdied : c.workers.map Worker.hasDied = (List.range c.workers.length).map fun i =>
      decide ((s.diary ⟨id, c.serial, i⟩).crashes ≠ 0) := by
    refine List.ext_getElem? fun i => ?_
    rw [List.getElem?_map, List.getElem?_map]
    cases hw : c.workers[i]? with
    | none =>
      rw [List.getElem?_eq_none (by simpa using List.getElem?_eq_none_iff.1 hw)]
      rfl
    | some w =>
      have hlt := (List.getElem?_eq_some_iff.1 hw).1
      have hworker := (Engine.workerAt?_of_crew? hc).trans hw
      rw [List.getElem?_range hlt, Option.map_some, Option.map_some, Option.some_inj,
        Bool.eq_iff_iff, decide_eq_true_iff]
      exact Worker.hasDied_iff.trans ((h.account ⟨id, c.serial, i⟩).died hworker)
  have hcount := congrArg (List.countP fun died => died) hdied
  rwa [List.countP_map, List.countP_map] at hcount

/-- When all workers of a crew are over nothing is in hand. -/
theorem Sound.stopped (h : s.Sound e) (hc : s.engine.crew? id = some c)
    (hdone : s.engine.isDone id = true) : s.Stopped id c := by
  obtain ⟨p, hp, hcrew⟩ := Option.bind_eq_some_iff.1 hc
  have hover : ∀ w ∈ c.workers, w.isOver = true := by
    rw [Engine.isDone, hp] at hdone
    simpa only [Processor.isDone, hcrew, Crew.isOver, List.all_eq_true] using hdone
  -- Whether or not there is a worker in a slot of the run, nothing is in hand there.
  have hidle : ∀ i, s.waiting ⟨id, c.serial, i⟩ = [] ∧ s.inHand ⟨id, c.serial, i⟩ = [] ∧
      s.unwritten ⟨id, c.serial, i⟩ = [] := by
    intro i
    rw [waiting, inHand, unwritten, Engine.workerAt?_of_crew? hc]
    cases hw : c.workers[i]? with
    | none => exact ⟨rfl, rfl, rfl⟩
    | some w =>
      have htidy := (h.account ⟨id, c.serial, i⟩).tidy ((Engine.workerAt?_of_crew? hc).trans hw)
      obtain ⟨hqueue, hpieces, _, hunwritten, _⟩ :=
        htidy.of_isOver (hover w (List.mem_of_getElem? hw))
      exact ⟨hqueue, hpieces, hunwritten⟩
  refine ⟨fun w hw => ?_, fun i => ?_, fun i => ?_, fun i => ?_, ?_⟩
  · obtain ⟨i, hi⟩ := List.getElem?_of_mem hw
    have htidy := (h.account ⟨id, c.serial, i⟩).tidy ((Engine.workerAt?_of_crew? hc).trans hi)
    exact (htidy.of_isOver (hover w hw)).2.2.1
  · have hmessages := (h.account ⟨id, c.serial, i⟩).messages
    rwa [← waiting, (hidle i).1, List.append_nil] at hmessages
  · have hpieces := (h.account ⟨id, c.serial, i⟩).pieces
    rw [← inHand, (hidle i).2.1, List.append_nil] at hpieces
    exact hpieces.symm
  · have hentries := (h.account ⟨id, c.serial, i⟩).entries
    rwa [← unwritten, (hidle i).2.2, List.append_nil] at hentries
  · rw [Engine.endStop, hp]
    dsimp only
    rw [Processor.endStop, hcrew]
    dsimp only
    rw [h.deaths_eq hc, Engine.id_of_processor? hp]
    split <;> rfl

/-- Whatever happens to processors that nobody had started, in whatever order, stopping them loses
nothing and handles nothing twice. -/
theorem stopping_loses_nothing {e : Engine σ} (hfresh : e.Fresh) (moves : List (Move σ)) :
    (run { engine := e } moves).Balanced e := by
  have h := sound_of_fresh hfresh moves
  have hreceived := received_run { engine := e } moves
  revert h hreceived
  generalize run { engine := e } moves = s
  intro h hreceived
  refine ⟨fun hcall => (h.calls hcall).events, fun {a i} ha hsender => ?_,
    fun slot => (h.account slot).messages, fun slot => (h.account slot).pieces, fun id => ?_,
    fun slot => (h.account slot).entries, fun slot hlives => ?_, h.stopped, fun slot hnone => ?_,
    fun {id} events hclosed => ?_⟩
  · have hfits := h.arrivals a ha
    rw [Arrival.Fits, hsender] at hfits
    exact hfits
  · simpa [received] using hreceived id
  · obtain ⟨hlost, hunsettled, _⟩ := (h.account slot).survived hlives
    exact ⟨hlost, hunsettled⟩
  · rw [waiting, inHand, unwritten, hnone]
    exact ⟨rfl, rfl, rfl⟩
  · rw [Engine.submitTo, Engine.openCrew?_eq_none_iff.1 hclosed]

/-- Two of four orders are handed back, and the worker handles the two others. -/
theorem stopping_loses_nothing_orders :
    (run { engine := Orders.engineWith [] } Orders.moves).Balanced (Orders.engineWith []) ∧
      (run { engine := Orders.engineWith [] } Orders.moves).calls.map (fun c => c.back.length) =
        [1, 0, 0, 1] ∧
      (run { engine := Orders.engineWith [] } Orders.moves).received Orders.bySecond = 2 :=
  ⟨stopping_loses_nothing (Orders.fresh []) Orders.moves, by decide +kernel, by decide +kernel⟩

/-- When the store call of the worker crashes, one of two orders is neither handed back nor handled,
and the entry of the other one is neither written nor given up. -/
theorem crash_loses_orders :
    let s := run { engine := Orders.engineWith [{ failure := .crash, times := 1 }] }
      Orders.crashMoves
    s.engine.isDone Orders.bySecond = true ∧
      (s.calls.map fun c => (c.events.length, c.parts.length, c.back.length)) =
        [(1, 0, 0), (1, 0, 0)] ∧
      s.received Orders.bySecond = 1 ∧ (s.diary Orders.slot).drained.length = 1 ∧
      (s.diary Orders.slot).written.length + (s.diary Orders.slot).givenUp.length = 0 ∧
      (s.engine.endStop Orders.bySecond).1.isOk = false := by
  decide +kernel

end Plant

end StatRollup
