import StatRollup.Proofs.Engine.Handover

/-!
# Nothing is refused along the chain

When all processors start and stop together, a worker that hands entries on finds the next processor
running, with a crew that takes messages.  Its groups are for workers of that crew, so only the
mailbox of a worker that died there refuses one (`Chain.Linked.refused`).  Otherwise every written
entry gets there (`Chain.passes_all_on`), and is merged there, because the entries of a processor
are of its kind.
-/

namespace StatRollup

variable {σ : Type} [Uid.Store σ]

theorem ProcessorId.kind_of_coarser {id j : ProcessorId} (h : id.coarser? = some j) :
    j.kind = id.kind := by
  obtain ⟨interval, _, rfl⟩ := Option.map_eq_some_iff.1 h
  rfl

namespace Plant

variable {first e : Engine σ} {s s' : Plant σ}

/-- A plant whose workers hand on to workers.  A worker only drops entries when a worker of the next
processor died. -/
structure Relays (s : Plant σ) : Prop where
  engine : s.engine.Relayed
  drained (slot : Slot) : ∀ x ∈ (s.diary slot).drained, OfKind slot.processor.kind x.1 x.2
  kept {slot : Slot} {j : ProcessorId} : slot.processor.coarser? = some j →
    (s.diary slot).dropped = [] ∨ ∃ serial i, (s.diary ⟨j, serial, i⟩).crashes ≠ 0

theorem Relays.of_pages (h : s.Relays) (hpages : s'.pages = s.pages) (he : s'.engine.Relayed) :
    s'.Relays := by
  have hdiary : ∀ slot, s'.diary slot = s.diary slot := fun slot => by rw [diary, diary, hpages]
  refine ⟨he, fun slot => ?_, fun {slot j} hj => ?_⟩
  · rw [hdiary]
    exact h.drained slot
  · simp only [hdiary]
    exact h.kept hj

/-- A crash that is in a diary stays there. -/
theorem crashed_turn {slot : Slot} (h : (s.diary slot).crashes ≠ 0) (w : WorkerId) :
    ((s.turn w).diary slot).crashes ≠ 0 := by
  rw [turn]
  split
  · rw [diary_append rfl]
    split
    · exact fun heq => h (Nat.add_eq_zero_iff.1 heq).1
    · exact h
  · exact h

/-- An entry that arrives at a worker is for the partition of its statistic, and has left the window
of a worker that hands on to the processor. -/
theorem Sound.drained_of_arrived (h : s.Sound first) {a : Arrival} (ha : a ∈ s.arrivals)
    {x : Entry} (hx : x ∈ a.message.keyed) :
    ∃ sender q, first.forward? sender.processor = some a.slot.processor ∧
      first.partitioner? a.slot.processor = some q ∧
      q.partitionOf x.1.statistic.toBytes = a.slot.partition ∧
      ∃ y ∈ (s.diary sender).drained, rekey a.slot.processor.interval y = x := by
  have hfits := h.arrivals a ha
  rw [Arrival.Fits] at hfits
  split at hfits
  · obtain ⟨_, events, _, _, hmessage, _⟩ := hfits
    rw [hmessage] at hx
    cases hx
  · next sender hsender =>
    obtain ⟨group, q, hmessage, hj, hq, hroute⟩ := hfits
    have haccount := h.account sender
    -- The entry was written by the sender, under another key.
    have hsent : x ∈ s.sent sender :=
      List.mem_flatMap.2 ⟨a, List.mem_filter.2 ⟨ha, decide_eq_true hsender⟩, hx⟩
    obtain ⟨y, hy, hrekey⟩ := List.mem_map.1 <| (haccount.onward hj).mem_iff.2 <|
      List.mem_append_left _ <| List.mem_append_left _ <| List.mem_append_right _ hsent
    have hleft : y ∈ (s.diary sender).drained := haccount.entries.mem_iff.2 <|
      List.mem_append_left _ <| List.mem_append_left _ <| List.mem_append_left _ hy
    rw [hmessage] at hx
    exact ⟨sender, q, hj, hq, hroute x hx, y, hleft, hrekey⟩

/-- What arrives at a worker is of the kind of its processor. -/
theorem Sound.kind_of_arrived (h : s.Sound first) (hchain : ∀ id, first.forward? id = id.coarser?)
    (hdrained : ∀ slot, ∀ x ∈ (s.diary slot).drained, OfKind slot.processor.kind x.1 x.2)
    (slot : Slot) : ∀ m ∈ s.arrived slot, m.OfKind slot.processor.kind := by
  intro m hm x hx
  obtain ⟨a, hfound, rfl⟩ := List.mem_map.1 hm
  obtain ⟨ha, hslot⟩ := List.mem_filter.1 hfound
  obtain rfl : a.slot = slot := of_decide_eq_true hslot
  obtain ⟨sender, _, hj, _, _, y, hleft, rfl⟩ := h.drained_of_arrived ha hx
  rw [hchain] at hj
  have hkind : y.2.aggregate.kind = sender.processor.kind := hdrained sender y hleft
  exact hkind.trans (ProcessorId.kind_of_coarser hj).symm

theorem Sound.mailOfKind (h : s.Sound first) (hchain : ∀ id, first.forward? id = id.coarser?)
    (hr : s.Relays) (w : WorkerId) : s.engine.MailOfKind w := by
  intro c worker hc hw m hm
  refine h.kind_of_arrived hchain hr.drained ⟨w.processor, c.serial, w.partition⟩ m ?_
  have hmessages := (h.account ⟨w.processor, c.serial, w.partition⟩).messages
  rw [(Engine.workerAt?_of_crew? hc).trans hw] at hmessages
  rw [hmessages]
  exact List.mem_append_right _ hm

end Plant

namespace Chain

variable {first : Engine σ} {c : Chain σ} {w : WorkerId} {slot : Slot} {worker : Worker}
  {j : ProcessorId}

/-- A worker is only refused by the mailbox of a worker that died. -/
theorem Linked.refused (h : c.Linked first) (hlaid : first.Laid) (hr : c.plant.engine.Relayed)
    (hslot : c.plant.engine.slot? w = some slot)
    (hworker : c.plant.engine.workerAt? slot = some worker) (hj : w.processor.coarser? = some j)
    (hrefuses : c.plant.engine.Refuses j worker.activity) :
    ∃ trigger serial target group rest count,
      worker.activity = .sending trigger serial ((target, group) :: rest) count ∧
        (c.plant.diary ⟨j, serial, target⟩).crashes ≠ 0 := by
  obtain ⟨crew, hc, rfl⟩ := Option.map_eq_some_iff.1 hslot
  have hw : crew.workers[w.partition]? = some worker :=
    (Engine.workerAt?_of_crew? hc).symm.trans hworker
  obtain ⟨_, hopen⟩ := h.next_runs hj (.inr (by rw [hc]; rfl))
  obtain ⟨next, hopen⟩ := Option.isSome_iff_exists.1 hopen
  cases hactivity : worker.activity with
  | handingOn trigger entries =>
    rw [hactivity] at hrefuses
    have hnone : c.plant.engine.openCrew? j = none := hrefuses
    rw [hopen] at hnone
    cases hnone
  | sending trigger serial groups count =>
    rw [hactivity] at hrefuses
    cases groups with
    | nil => exact hrefuses.elim
    | cons g rest =>
      obtain ⟨target, group⟩ := g
      obtain ⟨f, hd⟩ := hrefuses
      refine ⟨trigger, serial, target, group, rest, count, rfl, ?_⟩
      obtain ⟨q, hq, hfound⟩ := Option.bind_eq_some_iff.1 hopen
      obtain ⟨hcrew, hgo⟩ := Option.filter_eq_some_iff.1 hfound
      have hnext : c.plant.engine.crew? j = some next := (Engine.crew?_eq hq).trans hcrew
      have hforward : c.plant.engine.forward? w.processor = some j := by
        rw [h.sound.engine.forward, hlaid.forward, hj]
      have hreach := hr.reaches hforward hc hnext worker (List.mem_of_getElem? hw)
      rw [hactivity] at hreach
      obtain ⟨rfl, hall⟩ := hreach
      have hlt : target < next.workers.length := hall (target, group) List.mem_cons_self
      have hother := List.getElem?_eq_getElem hlt
      have hclosed : next.workers[target].mailbox.isOpen = false := by
        rw [Engine.deliver, show (c.plant.engine.processor? j).bind Processor.crew = some next from
          hnext] at hd
        simp only [hother] at hd
        split at hd
        · next hwhy => exact hwhy.resolve_left fun hne => hne rfl
        · split at hd <;> cases hd
      have hdied : next.workers[target].activity = .died := by
        by_contra hlives
        have hmailbox := hr.opened hnext (by simpa using hgo) _ (List.getElem_mem hlt) hlives
        rw [hclosed] at hmailbox
        cases hmailbox
      exact ((h.sound.account ⟨j, next.serial, target⟩).died
        ((Engine.workerAt?_of_crew? hnext).trans hother)).1 hdied
  | _ =>
    rw [hactivity] at hrefuses
    exact hrefuses.elim

/-- A turn drops nothing unless a worker of the next processor died. -/
theorem Linked.dropped_page (h : c.Linked first) (hlaid : first.Laid)
    (hr : c.plant.engine.Relayed) {e : Engine σ} (hturn : c.plant.engine.turn w = some e)
    (hj : w.processor.coarser? = some j) :
    (c.plant.engine.page w).dropped = [] ∨
      ∃ serial i, (c.plant.diary ⟨j, serial, i⟩).crashes ≠ 0 := by
  obtain ⟨crew, worker, hc, hw, _⟩ := h.sound.turned hturn
  have hslot : c.plant.engine.slot? w = some ⟨w.processor, crew.serial, w.partition⟩ := by
    rw [Engine.slot?, hc]
    rfl
  have hworker := (Engine.workerAt?_of_crew? hc).trans hw
  obtain ⟨p, hp, hcrew⟩ := Option.bind_eq_some_iff.1 hc
  have hforward : p.forward = some j := by
    rw [← Engine.forward?_eq hp, h.sound.engine.forward, hlaid.forward, hj]
  have hfound := (Engine.worker?_eq hcrew).trans hw
  by_cases hrefuses : c.plant.engine.Refuses j worker.activity
  · obtain ⟨_, serial, i, _, _, _, _, hcrashed⟩ := h.refused hlaid hr hslot hworker hj hrefuses
    exact .inr ⟨serial, i, hcrashed⟩
  · exact .inl ((Engine.dropped_page hp hcrew hfound hforward).2 hrefuses)

/-! ## Runs -/

theorem relays_turn (hlaid : first.Laid) (h : c.Linked first) (hr : c.plant.Relays)
    (w : WorkerId) : (c.plant.turn w).Relays := by
  have hcrashed : ∀ {slot}, (c.plant.diary slot).crashes ≠ 0 →
      ((c.plant.turn w).diary slot).crashes ≠ 0 := fun h => Plant.crashed_turn h w
  revert hcrashed
  rw [Plant.turn]
  split
  · next e own hturn hslot =>
    intro hcrashed
    have hforward : ∀ id, c.plant.engine.forward? id ≠ some id := fun id => by
      rw [h.sound.engine.forward]
      exact hlaid.fresh.forward id
    obtain ⟨hengine, hdrained⟩ :=
      hr.engine.turn hforward (h.sound.mailOfKind hlaid.forward hr w) hturn
    obtain ⟨crew, _, rfl⟩ := Option.map_eq_some_iff.1 hslot
    refine ⟨hengine, fun slot => ?_, fun {slot j} hj => ?_⟩
    · rw [Plant.diary_append rfl]
      split
      · next heq =>
        subst heq
        exact fun x hx => (List.mem_append.1 hx).elim (hr.drained _ x) (hdrained x)
      · exact hr.drained slot
    · obtain hnone | ⟨serial, i, hne⟩ := hr.kept hj
      · rw [Plant.diary_append rfl]
        split
        · next heq =>
          subst heq
          obtain hpage | ⟨serial, i, hne⟩ := h.dropped_page hlaid hr.engine hturn hj
          · refine .inl ?_
            simp only [Diary.add, hnone, hpage, List.append_nil]
          · exact .inr ⟨serial, i, hcrashed hne⟩
        · exact .inl hnone
      · exact .inr ⟨serial, i, hcrashed hne⟩
  · exact fun _ => hr

theorem relays_proceed (hlaid : first.Laid) (h : c.Linked first) (hr : c.plant.Relays) :
    c.proceed.plant.Relays := by
  have hforward : ∀ id, c.plant.engine.forward? id ≠ some id := fun id => by
    rw [h.sound.engine.forward]
    exact hlaid.fresh.forward id
  have hstop : ∀ id, (c.plant.step (.stop id)).Relays := by
    intro id
    obtain ⟨p, hp⟩ := h.found hlaid id
    rw [Plant.step]
    split
    · exact hr
    · exact hr.of_pages rfl (Engine.relayed_beginStop hr.engine hforward hp)
  rw [proceed]
  split
  · exact hr
  · exact hr
  · split <;> exact hr
  · next id todo hnow =>
    obtain ⟨hdown, p, hp, hcrew, hstopped⟩ := Linked.announced hlaid h hnow
    show (c.plant.step (.start id)).Relays
    rw [step_start hdown]
    refine hr.of_pages rfl (Engine.relayed_start hr.engine hforward hp hstopped fun j hj => ?_)
    -- A finer processor with a crew would have this one running.
    by_contra hcrewed
    rw [h.sound.engine.forward, hlaid.forward] at hj
    obtain ⟨_, hopen⟩ := h.next_runs hj (.inr (Option.isSome_iff_ne_none.2 hcrewed))
    rw [Engine.openCrew?, hp, Option.bind_some, Processor.openCrew?, hcrew] at hopen
    cases hopen
  · exact hr
  · exact hr
  · next id todo _ =>
    split
    · exact hr
    · exact hstop id
  · next id todo _ => exact hstop id
  · next id todo _ =>
    split
    · obtain ⟨p, hp⟩ := h.found hlaid id
      show (c.plant.step (.finish id)).Relays
      rw [Plant.step]
      split
      · exact hr.of_pages rfl (Engine.relayed_endStop hr.engine hforward hp)
      · exact hr
    · exact hr

theorem relays_step (hlaid : first.Laid) (h : c.Linked first) (hr : c.plant.Relays) (m : Move σ) :
    (c.step m).plant.Relays := by
  have hbegin : ∀ stage, (c.begin stage).plant.Relays := by
    intro stage
    rw [begin]
    split <;> exact hr
  cases m with
  | start => exact hbegin _
  | stop => exact hbegin _
  | proceed => exact relays_proceed hlaid h hr
  | work m =>
    rw [step]
    split
    · exact hr
    · next hm =>
      have hmoves := Plant.moves_step c.plant m
      show (c.plant.step m).Relays
      generalize c.plant.step m = s' at hmoves ⊢
      cases hmoves with
      | stays => exact hr
      | submits => exact hr.of_pages rfl hr.engine
      | delivers found next taken =>
        rw [Plant.deliver_eq found next taken]
        exact hr.of_pages rfl (hr.engine.deliver taken)
      | skips => exact hr.of_pages rfl hr.engine
      | turns => exact relays_turn hlaid h hr _
      | lines => exact hr.of_pages rfl (hr.engine.of_processors rfl)
      | shares => exact hr.of_pages rfl (hr.engine.of_processors rfl)
      | starts => exact absurd rfl hm
      | stops => exact absurd rfl hm
      | finishes => exact absurd rfl hm

theorem relays_run (hlaid : first.Laid) (h : c.Linked first) (hr : c.plant.Relays)
    (moves : List (Move σ)) : (c.run moves).plant.Relays := by
  induction moves generalizing c with
  | nil => exact hr
  | cons m moves ih => exact ih (step_linked hlaid h m) (relays_step hlaid h hr m)

theorem relays_of_laid (hlaid : first.Laid) (moves : List (Move σ)) :
    (run { plant := { engine := first } } moves).plant.Relays := by
  refine relays_run hlaid (linked_of_laid hlaid []) ⟨?_, fun _ x hx => ?_, fun _ => .inl rfl⟩ moves
  · have hnone : ∀ {id c}, first.crew? id ≠ some c := fun {id c} hc => by
      rw [hlaid.fresh.idle] at hc
      cases hc
    exact ⟨fun _ hc => absurd hc hnone, fun hc => absurd hc hnone, fun hc => absurd hc hnone,
      fun _ hc => absurd hc hnone⟩
  · cases hx

/-- What holds all the time while processors only start and stop all together. -/
structure Passes (c : Chain σ) : Prop where
  /-- The next processor of one that is not stopped, or still has workers, runs and takes
  messages. -/
  next {id j : ProcessorId} : id.coarser? = some j →
    c.state id ≠ .stopped ∨ (c.plant.engine.crew? id).isSome = true →
    c.state j = .running ∧ (c.plant.engine.openCrew? j).isSome = true
  /-- What a worker hands on is only refused by the mailbox of a worker that died. -/
  refused {w : WorkerId} {slot : Slot} {worker : Worker} {j : ProcessorId} :
    c.plant.engine.slot? w = some slot → c.plant.engine.workerAt? slot = some worker →
    w.processor.coarser? = some j → c.plant.engine.Refuses j worker.activity →
    ∃ trigger serial target group rest count,
      worker.activity = .sending trigger serial ((target, group) :: rest) count ∧
        (c.plant.diary ⟨j, serial, target⟩).crashes ≠ 0
  /-- A worker drops nothing unless a worker of the next processor died. -/
  kept {slot : Slot} {j : ProcessorId} : slot.processor.coarser? = some j →
    (c.plant.diary slot).dropped = [] ∨ ∃ serial i, (c.plant.diary ⟨j, serial, i⟩).crashes ≠ 0
  /-- While no worker of both dies, an entry that was written is in hand or was taken by the next
  processor, under its key there. -/
  handed {slot : Slot} {j : ProcessorId} : slot.processor.coarser? = some j →
    (c.plant.diary slot).crashes = 0 → (∀ serial i, (c.plant.diary ⟨j, serial, i⟩).crashes = 0) →
    ((c.plant.diary slot).written.map (rekey j.interval)).Perm
      (c.plant.onward j.interval slot ++ c.plant.sent slot)
  /-- Where entries are taken they merge into the window. -/
  merged {slot : Slot} {worker : Worker} {group : List Entry} {rest : List Message} :
    c.plant.engine.workerAt? slot = some worker → worker.mailbox.queue = .rollups group :: rest →
    ∀ (p : Post) (b : Bench σ), b.worker.window = worker.window → ∃ window,
      worker.window.addAll (Pending.merge p.settings.maxEventIds) group = .ok window ∧
        (b.handleRollups p group).worker.window = window

/-- In a pipeline whose processors only start and stop all together, whatever calls, workers and the
clock do meanwhile, every worker finds the next processor running, and all that it hands on gets
there, unless a worker there died. -/
theorem passes_all_on {settings : Settings} {shared : Shared σ} {e : Engine σ}
    (h : Engine.pipeline settings shared = .ok e)
    (harranged : ∀ entries, (shared.arrange entries).Perm entries) (moves : List (Move σ)) :
    (run { plant := { engine := e } } moves).Passes := by
  have hlaid := Engine.laid_pipeline h harranged
  have hl := linked_of_laid hlaid moves
  have hr := relays_of_laid hlaid moves
  revert hl hr
  generalize run { plant := { engine := e } } moves = c
  intro hl hr
  refine ⟨fun hj => hl.next_runs hj,
    fun hslot hworker hj => hl.refused hlaid hr.engine hslot hworker hj,
    fun hj => hr.kept hj, fun {slot j} hj hlives hnext => ?_,
    fun {slot worker group rest} hworker hqueue p b hwindow => ?_⟩
  · have haccount := hl.sound.account slot
    obtain ⟨_, _, hstranded⟩ := haccount.survived hlives
    have hdropped : (c.plant.diary slot).dropped = [] :=
      (hr.kept hj).resolve_right fun ⟨serial, i, hne⟩ => hne (hnext serial i)
    have honward := haccount.onward ((hlaid.forward _).trans hj)
    rw [hdropped, hstranded, List.map_nil, List.append_nil, List.append_nil] at honward
    exact honward
  · obtain ⟨crew, hc, hfound⟩ := Option.bind_eq_some_iff.1 hworker
    split at hfound
    · have hmail := hl.sound.mailOfKind hlaid.forward hr ⟨slot.processor, slot.partition⟩ crew
        worker hc hfound
      have hkind := hr.engine.kinds hc worker (List.mem_of_getElem? hfound)
      rw [← hwindow] at hkind ⊢
      obtain ⟨window, hadd, hhandled, _⟩ := Bench.handleRollups_kind p hkind
        (hmail (.rollups group) (hqueue ▸ List.mem_cons_self))
      exact ⟨window, hadd, hhandled⟩
    · cases hfound

end Chain

/-! ## Orders and logins -/

namespace Orders

open Chain.Move

/-- All processors are started. -/
def started : List Chain.Move := start :: List.replicate 25 proceed

/-- The only worker that counts by minute. -/
def workerByMinute : WorkerId := ⟨byMinute, 0⟩

/-- The worker that counts by second, when its processor is the last one to be started. -/
def lastSlot : Slot := ⟨bySecond, 7, 0⟩

/-- An order comes before all processors are stopped, and is written when its processor is told
to. -/
def stoppedInBetween : List Chain.Move :=
  started ++ [work (.submit bySecond [order 0]), work (.deliver 0), stop, proceed, proceed] ++
    List.replicate 7 (work (.turn worker)) ++ [proceed]

/-- Logins per minute. -/
def logins : Statistic := { name := "logins", kind := .count, precision := .minute }

/-- A login. -/
def login (time : Timestamp) : Event :=
  { name := "logins", timestamp := time, reading := .count 1 }

/-- A pipeline for orders and logins whose first store call no worker survives. -/
def crashingEngine : Engine :=
  let shared := sharedWith [{ failure := .crash, times := 1 }]
  { shared := { shared with registry := ⟨shared.registry.byName.insert logins.name logins⟩ }
    processors := ProcessorId.all.map fun id => { id, settings, forward := id.coarser? } }

/-- A login is counted before an order. -/
def loginAndOrder : List Chain.Move :=
  started ++ [work (.submit byMinute [login 0]), work (.deliver 0), work (.turn workerByMinute),
    work (.submit bySecond [order 0]), work (.deliver 1)] ++ List.replicate 3 (work (.turn worker))

end Orders

namespace Chain

/-- In the middle of a stop the order is with the next processor. -/
theorem passes_all_on_stop :
    let c := run { plant := { engine := Orders.engineWith [] } } Orders.stoppedInBetween
    c.Passes ∧ c.state Orders.bySecond = .stopped ∧ c.state Orders.byMinute = .running ∧
      (c.plant.diary Orders.lastSlot).written.length = 1 ∧
      (c.plant.sent Orders.lastSlot).length = 1 :=
  ⟨passes_all_on (show Engine.pipeline Orders.settings _ = _ from rfl) (fun _ => .refl _)
      Orders.stoppedInBetween,
    by decide +kernel, by decide +kernel, by decide +kernel, by decide +kernel⟩

/-- When the worker by minute has died its processor still runs, and the order is dropped. -/
theorem order_dropped_after_crash :
    Engine.pipeline Orders.settings Orders.crashingEngine.shared = .ok Orders.crashingEngine ∧
      let c := run { plant := { engine := Orders.crashingEngine } } Orders.loginAndOrder
      c.state Orders.bySecond = .running ∧ c.state Orders.byMinute = .running ∧
        (c.plant.engine.openCrew? Orders.byMinute).isSome = true ∧
        (c.plant.diary Orders.lastSlot).written.length = 1 ∧
        (c.plant.diary Orders.lastSlot).dropped.length = 1 ∧
        (c.plant.sent Orders.lastSlot).length = 0 :=
  ⟨rfl, by decide +kernel⟩

end Chain

end StatRollup
