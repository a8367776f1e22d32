import StatRollup.Proofs.Engine.Accounts
import StatRollup.Proofs.Engine.Waiting

/-!
# Operations of one processor are made of moves

Queueing events at a processor, and starting and stopping it, are runs of moves of a plant: the
steps of one call or of one processor, and what workers and the clock do in between.  So what
holds after every run of moves holds when these operations return.  A call hands back exactly what
`Engine.submitTo` answers (`submitTo_reaches`), and stopping a processor ends its run with the
answer of `Engine.stop` (`stop_reaches`).
-/

namespace StatRollup

variable {σ : Type} [Uid.Store σ]

namespace Plant

variable {first e e' : Engine σ} {s s' : Plant σ} {id : ProcessorId} {call : Call}

theorem run_append (s : Plant σ) (moves moves' : List (Move σ)) :
    s.run (moves ++ moves') = (s.run moves).run moves' := List.foldl_append

/-! ## Waiting -/

/-- Moves lead from one plant to another with the same calls and another engine. -/
def Becomes (s : Plant σ) (e : Engine σ) (calls : List Call) : Prop :=
  ∃ moves, (s.run moves).engine = e ∧ (s.run moves).calls = calls

theorem exists_slot {w : WorkerId} (h : e.turn w = some e') : ∃ slot, e.slot? w = some slot := by
  rw [Engine.turn] at h
  split at h
  · cases h
  · next p hp =>
    split at h
    · next c worker hcrew _ => exact ⟨_, by rw [Engine.slot?, Engine.crew?_eq hp, hcrew]; rfl⟩
    · cases h

theorem engine_turn {w : WorkerId} (h : s.engine.turn w = some e) :
    (s.turn w).engine = e ∧ (s.turn w).calls = s.calls := by
  obtain ⟨slot, hslot⟩ := exists_slot h
  rw [turn, h, hslot]
  exact ⟨rfl, rfl⟩

theorem foldl_wake_eq (e : Engine σ) (ws : List WorkerId) :
    ∃ ready, ws.foldl Engine.wake e = { e with ready } := by
  induction ws generalizing e with
  | nil => exact ⟨_, rfl⟩
  | cons w ws ih =>
    obtain ⟨ready, hrest⟩ := ih (e.wake w)
    refine ⟨ready, ?_⟩
    rw [List.foldl_cons, hrest, Engine.wake]
    split <;> rfl

variable (hforward : ∀ id, first.forward? id ≠ some id)
include hforward

/-- What goes on while an operation waits are moves of workers and the clock. -/
theorem works_of_goesOn (h : s.Sound first) (hgoes : s.engine.GoesOn e) :
    ∃ moves, (∀ m ∈ moves, m.isLifecycle = false) ∧ (s.run moves).engine = e ∧
      (s.run moves).calls = s.calls := by
  induction hgoes with
  | refl =>
    refine ⟨[], ?_, rfl, rfl⟩
    intro m hm
    cases hm
  | line _ ready parked ih =>
    obtain ⟨moves, hmoves, rfl, hcalls⟩ := ih
    refine ⟨moves ++ [.line ready parked], ?_, ?_, ?_⟩
    · exact List.forall_mem_append.2 ⟨hmoves, List.forall_mem_singleton.2 rfl⟩
    · rw [run_append]
      rfl
    · rw [run_append]
      exact hcalls
  | @turn _ _ w _ hturn ih =>
    obtain ⟨moves, hmoves, rfl, hcalls⟩ := ih
    obtain ⟨hengine, hsame⟩ := engine_turn hturn
    refine ⟨moves ++ [.turn w], ?_, ?_, ?_⟩
    · exact List.forall_mem_append.2 ⟨hmoves, List.forall_mem_singleton.2 rfl⟩
    · rw [run_append]
      exact hengine
    · rw [run_append]
      exact hsame.trans hcalls
  | pass _ time ih =>
    obtain ⟨moves, hmoves, rfl, hcalls⟩ := ih
    have harranged := (run_sound h hforward moves).engine.arranged
    let later : Shared σ := { (s.run moves).engine.shared with now := time }
    obtain ⟨ready, hready⟩ := foldl_wake_eq { (s.run moves).engine with shared := later }
      (((s.run moves).engine.alarms.filter fun a => a.1 ≤ time).map (·.2))
    refine ⟨moves ++ [.share ⟨later, harranged⟩, .line ready (s.run moves).engine.parked],
      ?_, ?_, ?_⟩
    · refine List.forall_mem_append.2 ⟨hmoves, ?_⟩
      simp [Move.isLifecycle]
    · rw [run_append, Engine.passTo, hready]
      rfl
    · rw [run_append]
      exact hcalls

/-- What goes on while an operation waits starts and stops no processor. -/
theorem frame_of_goesOn (h : s.Sound first) (hgoes : s.engine.GoesOn e) : s.engine.Frame e := by
  obtain ⟨moves, hmoves, rfl, _⟩ := works_of_goesOn hforward h hgoes
  exact h.frame_run hforward hmoves

/-! ## Submitting -/

omit hforward in
/-- Events that the mailbox does not take are handed back in one move. -/
theorem skip_reaches {i partition : Nat} {events : List Event} {parts : List (Nat × List Event)}
    (hcall : s.calls[i]? = some call) (hparts : call.parts = (partition, events) :: parts)
    (hd : ∀ e, s.engine.deliver call.id call.serial partition (.events events) ≠ .taken e) :
    ∃ m, (s.step m).engine = s.engine ∧
      (s.step m).calls = s.calls.set i { call with parts, back := call.back ++ events } := by
  have hskip : s.calls.modify i Call.skip =
      s.calls.set i { call with parts, back := call.back ++ events } := by
    rw [List.modify_eq_set_getElem?, hcall]
    show s.calls.set i call.skip = _
    rw [Call.skip, hparts]
  cases hdeliver : s.engine.deliver call.id call.serial partition (.events events) with
  | taken e => exact absurd hdeliver (hd e)
  | waits => exact ⟨.giveUp i, rfl, hskip⟩
  | refused f =>
    refine ⟨.deliver i, ?_, ?_⟩
    · rw [step, deliver, hcall]
      simp only [hparts, hdeliver]
    · rw [step, deliver, hcall]
      simp only [hparts, hdeliver]
      exact hskip

/-- Queueing the groups of a call one after another. -/
theorem sendEvents_reaches (h : s.Sound first) {i : Nat} (hcall : s.calls[i]? = some call) :
    s.Becomes (s.engine.sendEvents call.id call.serial call.parts).2 (s.calls.set i { call with
      parts := []
      back := call.back ++ (s.engine.sendEvents call.id call.serial call.parts).1 }) := by
  generalize hparts : call.parts = parts
  induction parts generalizing s call with
  | nil =>
    refine ⟨[], rfl, ?_⟩
    obtain ⟨hi, rfl⟩ := List.getElem?_eq_some_iff.1 hcall
    rw [Engine.sendEvents, List.append_nil, ← hparts]
    exact List.set_getElem_self hi |>.symm
  | cons part parts ih =>
    obtain ⟨partition, events⟩ := part
    obtain ⟨e₁, hwaited, hsent⟩ :=
      s.engine.send_cases call.id call.serial partition (.events events)
    obtain ⟨moves, _, hengine, hcalls⟩ := works_of_goesOn hforward h hwaited
    have hsound := run_sound h hforward moves
    have hcall' : (s.run moves).calls[i]? = some call := by rw [hcalls]; exact hcall
    -- One more move, after which the call is at its next group.
    have hrest : ∀ (m : Move σ) (e₂ : Engine σ) (back : List Event),
        ((s.run moves).step m).engine = e₂ →
        ((s.run moves).step m).calls = s.calls.set i { call with parts, back } →
        s.Becomes (e₂.sendEvents call.id call.serial parts).2 (s.calls.set i { call with
          parts := []
          back := back ++ (e₂.sendEvents call.id call.serial parts).1 }) := by
      rintro m e₂ back rfl hnext
      have hi := (List.getElem?_eq_some_iff.1 hcall).1
      obtain ⟨moves', hengine', hcalls'⟩ := ih (s := (s.run moves).step m)
        (step_sound hsound hforward m)
        (by rw [hnext, List.getElem?_set_self hi]) rfl
      refine ⟨moves ++ m :: moves', ?_, ?_⟩
      · rw [run_append]
        exact hengine'
      · rw [run_append]
        refine hcalls'.trans ?_
        rw [hnext, List.set_set]
    obtain ⟨e₂, hd, hsend⟩ | ⟨f, hsend, hd⟩ := hsent
    · rw [Engine.sendEvents, hsend]
      refine hrest (.deliver i) e₂ call.back ?_ ?_
      · rw [step, deliver, hcall']
        simp only [hparts, hengine, hd]
      · rw [step, deliver, hcall']
        simp only [hparts, hengine, hd, hcalls]
    · rw [Engine.sendEvents, hsend]
      obtain ⟨m, hsame, hnext⟩ := skip_reaches hcall' hparts (hengine ▸ hd)
      have hmore := hrest m e₁ (call.back ++ events) (hsame.trans hengine) (hcalls ▸ hnext)
      rw [List.append_assoc] at hmore
      exact hmore

/-- The events that a submission hands back. -/
def handedBack : Except Unsent Unit → List Event
  | .ok () => []
  | .error unsent => unsent.events

omit hforward in
/-- With a crew that takes messages, what a submission hands back is what mailboxes refuse. -/
theorem submitTo_eq {p : Processor} {c : Crew} (events : List Event)
    (h : ((e.processor? id).bind fun p => p.openCrew?.map fun c => (p, c)) = some (p, c)) :
    handedBack (e.submitTo id events).1 =
        (e.sendEvents id c.serial (p.partitioner.split events)).1 ∧
      (e.submitTo id events).2 = (e.sendEvents id c.serial (p.partitioner.split events)).2 := by
  rw [Engine.submitTo, h]
  dsimp only
  generalize e.sendEvents id c.serial (p.partitioner.split events) = sent
  obtain ⟨unsent, e'⟩ := sent
  cases unsent <;> exact ⟨rfl, rfl⟩

/-- Queueing events at a processor is a call that hands back what the answer says. -/
theorem submitTo_reaches (h : s.Sound first) (id : ProcessorId) (events : List Event) :
    ∃ call : Call, call.id = id ∧ call.events = events ∧ call.parts = [] ∧
      call.back = handedBack (s.engine.submitTo id events).1 ∧
      s.Becomes (s.engine.submitTo id events).2 (s.calls ++ [call]) := by
  cases hopen : (s.engine.processor? id).bind fun p => p.openCrew?.map fun c => (p, c) with
  | none =>
    have hrefused : s.engine.submitTo id events =
        (.error { fault := .notRunning id.name, events }, s.engine) := by
      rw [Engine.submitTo, hopen]
    rw [hrefused]
    refine ⟨{ id, events, back := events }, rfl, rfl, rfl, rfl, [.submit id events], rfl, ?_⟩
    show s.calls ++ [newCall s.engine id events] = _
    rw [newCall, hopen]
  | some found =>
    obtain ⟨p, crew⟩ := found
    obtain ⟨hback, hengine⟩ := submitTo_eq events hopen
    let call : Call :=
      { id, events, serial := crew.serial, parts := p.partitioner.split events }
    have hcalls : (s.step (.submit id events)).calls = s.calls ++ [call] := by
      show s.calls ++ [newCall s.engine id events] = _
      rw [newCall, hopen]
    have hcall : (s.step (.submit id events)).calls[s.calls.length]? = some call := by
      rw [hcalls, List.getElem?_append_right (Nat.le_refl _), Nat.sub_self]
      rfl
    obtain ⟨moves, hsent, hdone⟩ := sendEvents_reaches hforward (submit_sound h id events) hcall
    rw [hcalls, List.set_append_right _ _ (Nat.le_refl _), Nat.sub_self] at hdone
    exact ⟨_, rfl, rfl, rfl, hback.symm, .submit id events :: moves, hsent.trans hengine.symm,
      hdone⟩

/-! ## Starting and stopping -/

omit hforward in
/-- Starting a processor is a move, unless its last run still has to end. -/
theorem start_reaches (s : Plant σ) (h : s.isStopping id = false) :
    s.Becomes (s.engine.start id) s.calls :=
  ⟨[.start id], by simp [run, step, h], by simp [run, step, h]⟩

omit hforward in
theorem crew?_beginStop {c : Crew} (hc : e.crew? id = some c) :
    (e.beginStop id).crew? id = some { c with isStopping := true } := by
  obtain ⟨p, hp, hcrew⟩ := Option.bind_eq_some_iff.1 hc
  rw [Engine.beginStop, (Engine.alike_foldl Engine.alike_wakeIfWaiting _ _).crew?,
    Engine.crew?_modify fun p => by rw [Engine.beginStop_eq], if_pos rfl, hp, Option.bind_some,
    Engine.beginStop_eq]
  exact congrArg (Option.map fun c : Crew => { c with isStopping := true }) hcrew

/-- Stopping a processor with workers is a run of moves, which ends its run when all of them are
over once the waiting is, and the answer is that of ending the run. -/
theorem stop_reaches {c : Crew} (h : s.Sound first) (hc : s.engine.crew? id = some c)
    (hgo : c.isStopping = false) :
    ∃ moves, (s.run moves).calls = s.calls ∧
      s.engine.stop id = (s.run moves).engine.endStop id ∧
      ((s.run moves).engine.isDone id = true →
        ((s.run moves).step (.finish id)).engine = (s.engine.stop id).2) := by
  obtain ⟨waited, hgoes, hstop⟩ := s.engine.stop_eq id
  have hnot : s.isStopping id = false := by
    rw [isStopping, hc]
    exact hgo
  have htold : s.step (.stop id) = { s with engine := s.engine.beginStop id } := by
    rw [step, hnot]
    rfl
  have hsound : (s.step (.stop id)).Sound first := step_sound h hforward _
  have hgoes' : (s.step (.stop id)).engine.GoesOn waited := by rwa [htold]
  obtain ⟨moves, _, hengine, hcalls⟩ := works_of_goesOn hforward hsound hgoes'
  have hstopping : (s.run (.stop id :: moves)).isStopping id = true := by
    have hcrew := (frame_of_goesOn hforward hsound hgoes').crew id
    rw [htold, crew?_beginStop hc] at hcrew
    obtain ⟨c', hc', heq⟩ := Option.map_eq_some_iff.1 hcrew
    show ((s.step (.stop id)).run moves).isStopping id = true
    rw [isStopping, hengine, hc']
    exact congrArg Prod.snd heq
  refine ⟨.stop id :: moves, ?_, ?_, fun hdone => ?_⟩
  · exact hcalls.trans (by rw [htold])
  · rw [hstop, ← hengine]
    rfl
  · rw [step, hstopping, hdone, hstop, ← hengine]
    rfl

end Plant

end StatRollup
