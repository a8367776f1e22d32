import StatRollup.Proofs.Engine.Lifecycle

/-!
# Workers count what they take

The counter of received events of a processor grows when one of its workers takes a message of raw
events, by the number of those events, and never otherwise (`Engine.received_turn`).  So over any
moves of a plant the processor counted exactly the raw events that the pages of its workers say were
taken (`Plant.received_run`): the record of the plant, which nothing reads, is what the processors
themselves count.
-/

namespace StatRollup

variable {σ : Type} [Uid.Store σ]

/-- Number of raw events that a worker took out of its mailbox. -/
def Diary.received (d : Diary) : Nat := (d.taken.flatMap Message.raw).length

theorem Diary.received_add (d page : Diary) :
    (d.add page).received = d.received + page.received := by
  simp [received, add]

/-! ## Workers -/

namespace Bench

variable {p : Post} {b b' : Bench σ}

theorem received_handleEvent (p : Post) (b : Bench σ) (e : Event) :
    (b.handleEvent p e).stats.eventsReceived = b.stats.eventsReceived := by
  rw [handleEvent]
  dsimp only
  split
  · rfl
  · split <;> rfl

theorem received_afterFlush (p : Post) (b : Bench σ) (trigger : Trigger) :
    (b.afterFlush p trigger).stats.eventsReceived = b.stats.eventsReceived := by
  cases trigger with
  | size => rfl
  | stop => rfl
  | time =>
    rw [afterFlush, purgeIfDue]
    split <;> rfl

theorem received_round (p : Post) (b : Bench σ) (trigger : Trigger) (f : Flush) :
    (b.round p trigger f).stats.eventsReceived = b.stats.eventsReceived := by
  rw [round]
  dsimp only
  split
  · rfl
  · split <;> rfl

theorem received_flush (p : Post) (b : Bench σ) (trigger : Trigger) :
    (b.flush p trigger).stats.eventsReceived = b.stats.eventsReceived := by
  rw [flush]
  dsimp only
  split
  · exact received_afterFlush p _ trigger
  · exact received_round p _ trigger _

theorem received_roundPage (p : Post) (b : Bench σ) (f : Flush) :
    (b.roundPage p f).received = 0 := by
  rw [roundPage]
  split <;> rfl

theorem received_flushPage (p : Post) (b : Bench σ) : (b.flushPage p).received = 0 := by
  rw [flushPage]
  split
  · rfl
  · exact received_roundPage p b _

theorem Step.received {page : Diary} (h : Step p stopping page b b') :
    b'.stats.eventsReceived = b.stats.eventsReceived + page.received := by
  cases h with
  | closes => rfl
  | takes => simp [takeUp, Diary.received]
  | rollups => rfl
  | event => exact received_handleEvent p _ _
  | ends => rfl
  | flushes trigger => rw [received_flushPage, received_flush, Nat.add_zero]
  | rounds => rw [received_roundPage, received_round, Nat.add_zero]

/-- A turn counts what it takes. -/
theorem Steps.received {page : Diary} (h : Steps p stopping page b b') :
    b'.stats.eventsReceived = b.stats.eventsReceived + page.received := by
  induction h with
  | one step => exact step.received
  | cons step _ ih => rw [ih, step.received, Diary.received_add, Nat.add_assoc]

end Bench

/-! ## Processors -/

namespace Engine

variable {e e' : Engine σ} {p : Processor} {w : WorkerId} {worker : Worker} {id : ProcessorId}
  {trigger : Trigger}

/-- Number of raw events that the workers of a processor counted, over all of its runs. -/
def received (e : Engine σ) (id : ProcessorId) : Nat :=
  ((e.processor? id).map fun p => p.stats.eventsReceived).getD 0

theorem Alike.received (h : Alike e e') (id : ProcessorId) : e'.received id = e.received id := by
  rw [Engine.received, Engine.received, Engine.processor?, Engine.processor?, h.processors]

theorem received_place {counted : Stats → Stats} {shared : Shared σ} (j : ProcessorId) :
    (e.place w counted worker shared).received j = if j = w.processor then
      ((e.processor? w.processor).map fun p => (counted p.stats).eventsReceived).getD 0
    else e.received j := by
  rw [received, processor?_place]
  split
  · rw [Option.map_map]
    rfl
  · rfl

theorem received_deliver {serial i : Nat} {m : Message}
    (hd : e.deliver id serial i m = .taken e') (j : ProcessorId) :
    e'.received j = e.received j := by
  obtain ⟨_, _, _, _, _, halike⟩ := place_of_deliver hd
  rw [halike.received, received_place]
  split
  · next heq =>
    rw [heq]
    rfl
  · rfl

section

variable (hp : e.processor? w.processor = some p)
include hp

/-- What a processor counted after a worker did something at its bench. -/
theorem received_atBench {f : Post → Bench σ → Bench σ} {n : Nat}
    (hf : ∀ b, b.stats = p.stats →
      (f (p.post w.partition) b).stats.eventsReceived = p.stats.eventsReceived + n)
    {e₁ : Engine σ} (hsame : ∀ j, e₁.received j = e.received j)
    (hsome : (e₁.processor? w.processor).isSome = true) (id : ProcessorId) :
    (e₁.atBench p w.partition worker f).received id =
      e.received id + if id = w.processor then n else 0 := by
  obtain ⟨q, hq⟩ := Option.isSome_iff_exists.1 hsome
  let b : Bench σ := f (p.post w.partition) ⟨e₁.shared, p.stats, worker⟩
  have hplace : e₁.atBench p w.partition worker f =
      e₁.place w (fun _ => b.stats) b.worker b.shared := by
    rw [atBench, id_of_processor? hp]
    rfl
  rw [hplace, received_place, hq]
  split
  · next heq =>
    rw [heq, received, hp]
    exact hf _ rfl
  · exact hsame id

/-- Handing entries on is not counted here. -/
theorem received_handsOn (hands : e.HandsOn p w.partition worker e') (id : ProcessorId) :
    e'.received id = e.received id := by
  have hbench (f : Post → Bench σ → Bench σ) {e₁ : Engine σ} (hf : ∀ b, b.stats = p.stats →
      (f (p.post w.partition) b).stats.eventsReceived = p.stats.eventsReceived)
      (hsame : ∀ j, e₁.received j = e.received j)
      (hsome : (e₁.processor? w.processor).isSome = true) :
      (e₁.atBench p w.partition worker f).received id = e.received id := by
    rw [received_atBench (n := 0) hp hf hsame hsome, ite_self, Nat.add_zero]
  have hfound : (e.processor? w.processor).isSome = true := by rw [hp]; rfl
  cases hands with
  | skips count _ _ =>
    refine hbench _ (fun b hb => ?_) (fun _ => rfl) hfound
    rw [Bench.received_afterFlush]
    show b.stats.eventsReceived = _
    rw [hb]
  | groups => exact hbench _ (fun b hb => congrArg _ hb) (fun _ => rfl) hfound
  | sends _ _ hd =>
    refine hbench _ (fun b hb => congrArg _ hb) (received_deliver hd) ?_
    have hsame := congrArg Option.isSome ((frame_deliver hd).processor w.processor)
    rw [Option.isSome_map, Option.isSome_map] at hsame
    exact hsame.trans hfound

end

/-- A turn of a worker counts the raw events that its page says were taken. -/
theorem received_turn (h : e.turn w = some e') (id : ProcessorId) :
    e'.received id = e.received id + if id = w.processor then (e.page w).received else 0 := by
  obtain ⟨p, c, worker, hp, hcrew, hw, hturns⟩ := turn_cases h
  have hworker := (worker?_eq hcrew).trans hw
  cases hturns with
  | bench hown hb =>
    rw [page_of_turn hp hcrew hworker hown]
    exact received_atBench hp (fun _ _ => (Bench.turn_steps hb).received) (fun _ => rfl)
      (by rw [hp]; rfl) id
  | passing hands =>
    obtain ⟨trigger, hpassing⟩ := hands.passing
    obtain ⟨dropped, hpage⟩ := page_of_passing hp hcrew hworker hpassing
    have hnone : (e.page w).received = 0 := by rw [hpage]; rfl
    rw [received_handsOn hp hands, hnone, ite_self, Nat.add_zero]

/-! Starting and stopping leave the counters. -/

theorem Replaces.received {p' : Processor} (h : e.Replaces e' id p p') (j : ProcessorId) :
    e'.received j = e.received j := by
  rw [Engine.received, Engine.received, h.processor]
  split
  · next heq => rw [heq, h.found, Option.map_some, Option.map_some, h.stats]
  · rfl

theorem received_start (id j : ProcessorId) : (e.start id).received j = e.received j := by
  obtain heq | ⟨p, _, hreplaces⟩ := start_cases e id
  · rw [heq]
  · exact hreplaces.received j

theorem received_beginStop (id j : ProcessorId) : (e.beginStop id).received j = e.received j := by
  obtain ⟨halike, _⟩ | ⟨p, hreplaces⟩ := beginStop_cases e id
  · exact halike.received j
  · exact hreplaces.received j

theorem received_endStop (id j : ProcessorId) : (e.endStop id).2.received j = e.received j := by
  obtain heq | ⟨p, hreplaces⟩ := endStop_cases e id
  · rw [heq]
  · exact hreplaces.received j

end Engine

/-! ## Runs -/

namespace Plant

variable {s : Plant σ}

/-- Number of raw events that the pages of a processor's workers say were taken. -/
def received (s : Plant σ) (id : ProcessorId) : Nat :=
  ((s.pages.filter fun x => x.1.processor = id).map fun x => x.2.received).sum

/-- A move counts what it writes down. -/
theorem received_step (s : Plant σ) (m : Move σ) (id : ProcessorId) :
    (s.step m).engine.received id + s.received id =
      s.engine.received id + (s.step m).received id := by
  have hsame : ∀ s' : Plant σ, s'.pages = s.pages → s'.engine.received id = s.engine.received id →
      s'.engine.received id + s.received id = s.engine.received id + s'.received id := by
    intro s' hpages hengine
    rw [hengine, received, received, hpages]
  have hmoves := moves_step s m
  generalize s.step m = s' at hmoves ⊢
  cases hmoves with
  | stays => rfl
  | submits => exact hsame _ rfl rfl
  | delivers found next taken =>
    rw [deliver_eq found next taken]
    exact hsame _ rfl (Engine.received_deliver taken id)
  | skips => exact hsame _ rfl rfl
  | @turns w slot e turned found =>
    obtain ⟨c, _, rfl⟩ := Option.map_eq_some_iff.1 found
    rw [turn_eq turned found]
    have hengine := Engine.received_turn turned id
    rw [received, received, List.filter_append, List.map_append, List.sum_append, hengine]
    by_cases hid : id = w.processor
    · simp [hid]
      omega
    · simp [hid, Ne.symm hid]
  | lines => exact hsame _ rfl rfl
  | shares => exact hsame _ rfl rfl
  | starts => exact hsame _ rfl (Engine.received_start _ id)
  | stops => exact hsame _ rfl (Engine.received_beginStop _ id)
  | finishes => exact hsame _ rfl (Engine.received_endStop _ id)

theorem received_run (s : Plant σ) (moves : List (Move σ)) (id : ProcessorId) :
    (s.run moves).engine.received id + s.received id =
      s.engine.received id + (s.run moves).received id := by
  induction moves generalizing s with
  | nil => rfl
  | cons m moves ih =>
    have hrest := ih (s.step m)
    have hstep := received_step s m id
    show ((s.step m).run moves).engine.received id + _ = _ + ((s.step m).run moves).received id
    omega

end Plant

end StatRollup
