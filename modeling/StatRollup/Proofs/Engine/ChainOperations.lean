import StatRollup.Proofs.Engine.Chain
import StatRollup.Proofs.Engine.PlantOperations

/-!
# Starting and stopping all processors is made of moves

`Engine.startAll` is a run of moves of a chain (`startAll_becomes`), and so is stopping one
processor after another: the steps that others can see, and what workers and the clock do while
the workers of the processor come to their end (`stop_becomes`).
-/

namespace StatRollup

variable {σ : Type} [Uid.Store σ]

namespace Chain

variable {first e : Engine σ} {c c' : Chain σ} {id : ProcessorId} {stage : Stage}

/-- Moves lead from one chain to another with the same calls. -/
def Becomes (c : Chain σ) (e : Engine σ) (stage : Stage) : Prop :=
  ∃ moves, (c.run moves).plant.engine = e ∧ (c.run moves).plant.calls = c.plant.calls ∧
    (c.run moves).stage = stage

theorem run_append (c : Chain σ) (moves moves' : List (Move σ)) :
    c.run (moves ++ moves') = (c.run moves).run moves' := List.foldl_append

theorem Becomes.cons (m : Move σ) (hcalls : (c.step m).plant.calls = c.plant.calls)
    (h : (c.step m).Becomes e stage) : c.Becomes e stage := by
  obtain ⟨moves, hengine, hsame, hstage⟩ := h
  exact ⟨m :: moves, hengine, hsame.trans hcalls, hstage⟩

/-- Starting processors one after another. -/
theorem starting_becomes (hlaid : first.Laid) (h : c.Linked first) {todo : List ProcessorId}
    (hstage : c.stage = .starting todo) :
    c.Becomes (todo.foldl Engine.start c.plant.engine) .steady := by
  induction todo generalizing c with
  | nil =>
    have hproceed : c.step .proceed = { c with stage := .steady } := by
      rw [step, proceed, hstage]
    exact ⟨[.proceed], congrArg (·.plant.engine) hproceed, congrArg (·.plant.calls) hproceed,
      congrArg (·.stage) hproceed⟩
  | cons id todo ih =>
    have hlinked := step_linked hlaid h .proceed
    by_cases hrunning : c.plant.engine.state id = .running
    · have hproceed : c.step .proceed = { c with stage := .starting todo } := by
        rw [step, proceed, hstage]
        exact if_pos hrunning
      obtain ⟨p, hp⟩ := h.found hlaid id
      have hsame : c.plant.engine.start id = c.plant.engine := by
        rw [Engine.start, hp]
        exact if_pos ((Engine.state_eq hp).symm.trans hrunning)
      refine .cons .proceed (by rw [hproceed]) ?_
      rw [hproceed] at hlinked ⊢
      rw [List.foldl_cons, hsame]
      exact ih hlinked rfl
    · have hannounce : c.step .proceed = { c with stage := .announced id todo } := by
        rw [step, proceed, hstage]
        exact if_neg hrunning
      rw [hannounce] at hlinked
      obtain ⟨after, hcut⟩ := hlinked.stage
      have hdown := hcut.down id (List.mem_append_right _ (List.mem_singleton_self id))
      have hstart : c.plant.step (.start id) = _ := step_start hdown
      have hstaffed := step_linked hlaid hlinked .proceed
      have hnext := step_linked hlaid hstaffed .proceed
      refine .cons .proceed (by rw [hannounce]) ?_
      rw [hannounce]
      refine .cons .proceed ?_ (.cons .proceed rfl ?_)
      · show (c.plant.step (.start id)).calls = _
        rw [hstart]
      · have hrest := ih hnext rfl
        rwa [show ((step { c with stage := .announced id todo } .proceed).step .proceed).plant =
          c.plant.step (.start id) from rfl, hstart] at hrest

/-- Starting all processors is a run of moves. -/
theorem startAll_becomes (hlaid : first.Laid) (h : c.Linked first) (hsteady : c.stage = .steady)
    (hids : c.plant.engine.processors.map Processor.id = ProcessorId.all) :
    c.Becomes c.plant.engine.startAll .steady := by
  have hbegin : c.step .start = { c with stage := .starting ProcessorId.all.reverse } := by
    rw [step, begin, hsteady]
  have hlinked := step_linked hlaid h .start
  refine .cons .start (by rw [hbegin]) ?_
  rw [hbegin] at hlinked ⊢
  rw [Engine.startAll, hids]
  exact starting_becomes hlaid hlinked rfl

/-- Calls, workers and the clock go on at any stage. -/
theorem run_work (c : Chain σ) {moves : List (Plant.Move σ)}
    (hmoves : ∀ m ∈ moves, m.isLifecycle = false) :
    c.run (moves.map .work) = { c with plant := c.plant.run moves } := by
  induction moves generalizing c with
  | nil => rfl
  | cons m moves ih =>
    obtain ⟨hm, hmoves⟩ := List.forall_mem_cons.1 hmoves
    have hstep : c.step (.work m) = { c with plant := c.plant.step m } := by
      rw [step, hm]
      rfl
    show (c.step (.work m)).run (moves.map .work) = _
    rw [hstep, ih _ hmoves]
    rfl

/-- The workers of a processor that was told to stop come to their end, and its run ends. -/
theorem awaiting_becomes (hlaid : first.Laid) (h : c.Linked first) {todo : List ProcessorId}
    (hstage : c.stage = .awaiting id todo) (hgoes : c.plant.engine.GoesOn e)
    (hdone : e.isDone id = true) : c.Becomes (e.endStop id).2 (.stopping todo) := by
  obtain ⟨moves, hmoves, rfl, hcalls⟩ :=
    Plant.works_of_goesOn hlaid.fresh.forward h.sound hgoes
  have hlinked := run_linked hlaid h (moves.map .work)
  rw [run_work c hmoves] at hlinked
  have htold : (c.plant.run moves).engine.told? id = some true := by
    have hfits := hlinked.stage
    rw [hstage] at hfits
    exact hfits.1
  have hrun : c.run (moves.map .work ++ [.proceed]) =
      { plant := (c.plant.run moves).step (.finish id), stage := .stopping todo } := by
    rw [run_append, run_work c hmoves]
    show proceed _ = _
    rw [proceed, hstage]
    exact if_pos hdone
  rw [step_finish htold hdone] at hrun
  exact ⟨_, congrArg (·.plant.engine) hrun, (congrArg (·.plant.calls) hrun).trans hcalls,
    congrArg (·.stage) hrun⟩

/-- Stopping a processor is a run of moves, when its workers are over once the waiting is. -/
theorem stop_becomes (hlaid : first.Laid) (h : c.Linked first) {todo : List ProcessorId}
    (hstage : c.stage = .stopping (id :: todo))
    (hcrew : (c.plant.engine.crew? id).isSome = true) :
    ∃ waited : Engine σ, c.plant.engine.stop id = waited.endStop id ∧
      (waited.isDone id = true → c.Becomes (c.plant.engine.stop id).2 (.stopping todo)) := by
  obtain ⟨waited, hgoes, hstop⟩ := c.plant.engine.stop_eq id
  refine ⟨waited, hstop, fun hdone => ?_⟩
  have hclosing : c.step .proceed = { c with stage := .closing id todo } := by
    rw [step, proceed, hstage]
    exact if_pos hcrew
  have hlinked := step_linked hlaid h .proceed
  rw [hclosing] at hlinked
  obtain ⟨before, hcut⟩ := hlinked.stage
  have hup := hcut.up id List.mem_cons_self
  have hbegin : c.plant.step (.stop id) = _ := step_stop (by simp [hup])
  have hawaiting := step_linked hlaid hlinked .proceed
  refine .cons .proceed (by rw [hclosing]) ?_
  rw [hclosing, hstop]
  refine .cons .proceed ?_ (awaiting_becomes hlaid hawaiting rfl ?_ hdone)
  · show (c.plant.step (.stop id)).calls = _
    rw [hbegin]
  · show (c.plant.step (.stop id)).engine.GoesOn waited
    rw [hbegin]
    exact hgoes

end Chain

end StatRollup
