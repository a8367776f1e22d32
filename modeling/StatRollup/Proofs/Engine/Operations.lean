import StatRollup.Proofs.Engine.Scene
import StatRollup.Proofs.Engine.Waiting

/-!
# Operations are made of moves

An operation of the engine that waits lets the workers take turns and time pass until it can go
on.  All of that are moves (`GoesOn.works`), and so `Engine.submit` is a run of moves as well: the
steps of one submission, and what workers and the clock do in between.  It reports as many
accepted events as mailboxes took in the run (`submit_reaches`).
-/

namespace StatRollup

namespace Scene

variable {s s' s'' : Scene}

/-- Moves lead from one scene to another. -/
def Reaches (s s' : Scene) : Prop := ∃ moves, s.run moves = s'

theorem Reaches.refl (s : Scene) : s.Reaches s := ⟨[], rfl⟩

theorem Reaches.trans (h : s.Reaches s') (h' : s'.Reaches s'') : s.Reaches s'' := by
  obtain ⟨moves, rfl⟩ := h
  obtain ⟨moves', rfl⟩ := h'
  exact ⟨moves ++ moves', List.foldl_append⟩

theorem reaches_step (s : Scene) (m : Move) : s.Reaches (s.step m) := ⟨[m], rfl⟩

end Scene

namespace Engine

variable {e e' e'' : Engine}

/-- Moves lead from one engine to another, whatever goes on around it. -/
def Works (e e' : Engine) : Prop :=
  ∀ s : Scene, s.engine = e → s.Reaches { s with engine := e' }

theorem Works.trans (h : Works e e') (h' : Works e' e'') : Works e e'' := fun s hs =>
  (h s hs).trans (h' { s with engine := e' } rfl)

/-- What goes on while an operation waits are moves. -/
theorem GoesOn.works (h : GoesOn e e') : Works e e' := by
  induction h with
  | refl =>
    rintro s rfl
    exact .refl s
  | line _ ready parked ih =>
    refine ih.trans ?_
    rintro s rfl
    exact s.reaches_step (.line ready parked)
  | @turn e' e'' w _ hturn ih =>
    refine ih.trans ?_
    rintro s rfl
    have hstep : s.step (.turn w) = { s with engine := e'' } := by
      rw [Scene.step, hturn, Option.getD_some]
    exact hstep ▸ s.reaches_step (.turn w)
  | pass _ time ih =>
    refine ih.trans ?_
    rintro s rfl
    exact s.reaches_step (.wait time)

end Engine

/-! ## Submissions -/

namespace Scene

variable {s : Scene} {e e' : Engine} {x : Submission} {taken : List Event}

/-- A scene with one more submission, which got some events taken. -/
def joined (s : Scene) (e : Engine) (x : Submission) (taken : List Event) : Scene :=
  { s with
    engine := e
    submissions := s.submissions ++ [x]
    accepted := s.accepted ++ taken }

theorem reaches_work (h : e.Works e') : (s.joined e x taken).Reaches (s.joined e' x taken) :=
  h (s.joined e x taken) rfl

theorem reaches_send (s : Scene) (e : Engine) (x : Submission) (taken : List Event) :
    (s.joined e x taken).Reaches
      (s.joined (x.step e).1 (x.step e).2.2 (taken ++ (x.step e).2.1)) := by
  have hstep : (s.joined e x taken).step (.send s.submissions.length) =
      s.joined (x.step e).1 (x.step e).2.2 (taken ++ (x.step e).2.1) := by
    simp [step, send, joined]
  exact hstep ▸ reaches_step _ _

theorem reaches_giveUp (s : Scene) (e : Engine) (x : Submission) (taken : List Event) :
    (s.joined e x taken).Reaches (s.joined e x.giveUp taken) := by
  have hstep : (s.joined e x taken).step (.giveUp s.submissions.length) =
      s.joined e x.giveUp taken := by
    simp [step, joined, List.modify_eq_take_drop]
  exact hstep ▸ reaches_step _ _

variable {id : ProcessorId} {serial : Nat} {groups : List (ProcessorId × List Event)}

/-- Events that are not taken are handed back. -/
theorem reaches_skip {partition : Nat} {events unsent : List Event}
    {parts : List (Nat × List Event)}
    (h : ∀ e', e.deliver id serial partition (.events events) ≠ .taken e') :
    (s.joined e ⟨some ⟨id, serial, (partition, events) :: parts, unsent⟩, groups⟩ taken).Reaches
      (s.joined e ⟨some ⟨id, serial, parts, unsent ++ events⟩, groups⟩ taken) := by
  cases hd : e.deliver id serial partition (.events events) with
  | taken e' => exact absurd hd (h e')
  | waits => exact reaches_giveUp _ _ _ _
  | refused f =>
    have hsend := reaches_send s e
      ⟨some ⟨id, serial, (partition, events) :: parts, unsent⟩, groups⟩ taken
    simpa only [Submission.step, hd, List.append_nil] using hsend

/-- Queueing groups of events at the partitions of a crew. -/
theorem reaches_sendEvents (s : Scene) (e : Engine) (id : ProcessorId) (serial : Nat)
    (parts : List (Nat × List Event)) (groups : List (ProcessorId × List Event))
    (unsent taken : List Event) :
    ∃ taken', (s.joined e ⟨some ⟨id, serial, parts, unsent⟩, groups⟩ taken).Reaches
        (s.joined (e.sendEvents id serial parts).2
          ⟨some ⟨id, serial, [], unsent ++ (e.sendEvents id serial parts).1⟩, groups⟩
          (taken ++ taken')) ∧
      taken'.length + (e.sendEvents id serial parts).1.length =
        (parts.map fun part => part.2.length).sum := by
  induction parts generalizing e unsent taken with
  | nil => exact ⟨[], by simpa only [Engine.sendEvents, List.append_nil] using Reaches.refl _, rfl⟩
  | cons part parts ih =>
    obtain ⟨partition, events⟩ := part
    obtain ⟨e₁, hwaited, ⟨e₂, hd, hsend⟩ | ⟨f, hsend, hd⟩⟩ :=
      e.send_cases id serial partition (.events events)
    · obtain ⟨taken', hreach, hlength⟩ := ih e₂ unsent (taken ++ events)
      refine ⟨events ++ taken', ?_, ?_⟩
      · have hstep := reaches_send s e₁
          ⟨some ⟨id, serial, (partition, events) :: parts, unsent⟩, groups⟩ taken
        simp only [Submission.step, hd] at hstep
        simp only [Engine.sendEvents, hsend, ← List.append_assoc]
        exact ((reaches_work hwaited.works).trans hstep).trans hreach
      · simp only [Engine.sendEvents, hsend, List.map_cons, List.sum_cons, List.length_append]
        omega
    · obtain ⟨taken', hreach, hlength⟩ := ih e₁ (unsent ++ events) taken
      refine ⟨taken', ?_, ?_⟩
      · simp only [Engine.sendEvents, hsend, ← List.append_assoc]
        exact ((reaches_work hwaited.works).trans (reaches_skip hd)).trans hreach
      · simp only [Engine.sendEvents, hsend, List.map_cons, List.sum_cons, List.length_append]
        omega

/-- Queueing the events of one processor.  Those that mailboxes do not take are rejected. -/
theorem reaches_group (s : Scene) (e : Engine) (id : ProcessorId) (events : List Event)
    (groups : List (ProcessorId × List Event)) (taken : List Event) :
    ∃ e' taken', (s.joined e ⟨none, (id, events) :: groups⟩ taken).Reaches
        (s.joined e' ⟨none, groups⟩ (taken ++ taken')) ∧
      ∀ report : IngestReport, e.queueAll report ((id, events) :: groups) = e'.queueAll
        { accepted := report.accepted + taken'.length
          rejected := report.rejected + (events.length - taken'.length) } groups := by
  have hbegin := reaches_send s e ⟨none, (id, events) :: groups⟩ taken
  cases hfound : (e.processor? id).bind fun p => p.openCrew?.map fun c => (p, c) with
  | none =>
    simp only [Submission.step, hfound] at hbegin
    refine ⟨_, [], hbegin, fun report => ?_⟩
    simp only [Engine.queueAll, Engine.submitTo, hfound, List.length_nil, Nat.sub_self,
      Nat.sub_zero]
    rfl
  | some found =>
    obtain ⟨p, crew⟩ := found
    simp only [Submission.step, hfound, List.append_nil] at hbegin
    obtain ⟨taken', hreach, hlength⟩ :=
      reaches_sendEvents s e id crew.serial (p.partitioner.split events) groups [] taken
    rw [Partitioner.sum_length_split, List.nil_append] at *
    have hend := reaches_send s (e.sendEvents id crew.serial (p.partitioner.split events)).2
      ⟨some ⟨id, crew.serial, [],
        (e.sendEvents id crew.serial (p.partitioner.split events)).1⟩, groups⟩ (taken ++ taken')
    simp only [Submission.step, List.append_nil] at hend
    refine ⟨_, taken', (hbegin.trans hreach).trans hend, fun report => ?_⟩
    simp only [Engine.queueAll, Engine.submitTo, hfound]
    generalize e.sendEvents id crew.serial (p.partitioner.split events) = sent at hlength
    obtain ⟨unsent, e₁⟩ := sent
    cases unsent with
    | nil =>
      have hall : taken'.length = events.length := hlength
      simp only [hall, Nat.sub_self, Nat.add_zero]
      rfl
    | cons event unsent =>
      have hall : taken'.length + (event :: unsent).length = events.length := hlength
      have hback : events.length - (event :: unsent).length = taken'.length := by omega
      have hrest : events.length - taken'.length = (event :: unsent).length := by omega
      simp only [hback, hrest]
      rfl

/-- Queueing the events of all processors. -/
theorem reaches_queueAll (s : Scene) (e : Engine) (groups : List (ProcessorId × List Event))
    (taken : List Event) (report : IngestReport) :
    ∃ taken', (s.joined e ⟨none, groups⟩ taken).Reaches
        (s.joined (e.queueAll report groups).2 ⟨none, []⟩ (taken ++ taken')) ∧
      (e.queueAll report groups).1.accepted = report.accepted + taken'.length := by
  induction groups generalizing e taken report with
  | nil => exact ⟨[], by simpa only [Engine.queueAll, List.append_nil] using Reaches.refl _, rfl⟩
  | cons group groups ih =>
    obtain ⟨id, events⟩ := group
    obtain ⟨e', taken₁, hreach₁, hqueue⟩ := reaches_group s e id events groups taken
    obtain ⟨taken₂, hreach₂, haccepted⟩ := ih e' (taken ++ taken₁)
      { accepted := report.accepted + taken₁.length
        rejected := report.rejected + (events.length - taken₁.length) }
    refine ⟨taken₁ ++ taken₂, ?_, ?_⟩
    · rw [hqueue, ← List.append_assoc]
      exact hreach₁.trans hreach₂
    · rw [hqueue, haccepted, List.length_append, Nat.add_assoc]

/-- Submitting events is a run of moves, and the report counts the events that mailboxes took. -/
theorem submit_reaches (s : Scene) (events : List Event) :
    ∃ s' taken, s.Reaches s' ∧ s'.engine = (s.engine.submit events).2 ∧
      s'.phase = s.phase ∧ s'.accepted = s.accepted ++ taken ∧
      ∀ report, (s.engine.submit events).1 = .ok report → taken.length = report.accepted := by
  have hbegin := s.reaches_step (.submit events)
  rw [step, submit] at hbegin
  rw [Engine.submit]
  generalize s.engine.route events = outcome at hbegin ⊢
  obtain ⟨routed, rejected, e⟩ := outcome
  dsimp only at hbegin ⊢
  cases hsick : (e.groups routed).find? fun g => !(e.processor? g.1).any Processor.isHealthy with
  | some g =>
    rw [hsick] at hbegin
    exact ⟨_, [], hbegin, rfl, rfl, (List.append_nil _).symm, fun _ h => nomatch h⟩
  | none =>
    rw [hsick] at hbegin
    obtain ⟨taken, hreach, haccepted⟩ :=
      reaches_queueAll s e (e.groups routed) [] { rejected }
    have hjoined : s.Reaches (s.joined e ⟨none, e.groups routed⟩ []) := by
      simpa only [joined, List.append_nil] using hbegin
    refine ⟨_, taken, hjoined.trans hreach, rfl, rfl, rfl, fun report h => ?_⟩
    cases h
    exact (haccepted.trans (Nat.zero_add _)).symm

/-! ## Starting, stopping and time -/

/-- Letting time pass is a run of moves. -/
theorem advance_reaches (s : Scene) (millis : Nat) :
    s.Reaches { s with engine := s.engine.advance millis } :=
  (s.engine.goesOn_advance millis).works s rfl

/-- Starting all processors is a run of moves. -/
theorem startAll_reaches (s : Scene) (h : s.phase = .steady) :
    s.Reaches { s with engine := s.engine.startAll } := by
  have htodo : ∀ (todo : List ProcessorId) (s : Scene), s.phase = .starting todo →
      s.Reaches { s with engine := todo.foldl Engine.start s.engine, phase := .steady } := by
    intro todo
    induction todo with
    | nil =>
      intro s hphase
      have hstep := s.reaches_step .proceed
      rw [step, proceed, hphase] at hstep
      exact hstep
    | cons id todo ih =>
      intro s hphase
      have hstep := s.reaches_step .proceed
      rw [step, proceed, hphase] at hstep
      exact hstep.trans (ih _ rfl)
  have hstart : s.Reaches
      { s with phase := .starting (s.engine.processors.map Processor.id).reverse } := by
    have hstep := s.reaches_step .start
    rw [step, begin, h] at hstep
    exact hstep
  have hall : s.Reaches { s with engine := s.engine.startAll, phase := .steady } :=
    hstart.trans (htodo _ _ rfl)
  rw [← h] at hall
  exact hall

/-- Stopping a processor is a run of moves, when its workers are over once the waiting is. -/
theorem stop_reaches (s : Scene) {id : ProcessorId} {todo : List ProcessorId}
    (h : s.phase = .stopping (id :: todo)) :
    ∃ e : Engine, (s.engine.stop id).2 = (e.endStop id).2 ∧ (e.isDone id = true →
      s.Reaches { s with engine := (s.engine.stop id).2, phase := .stopping todo }) := by
  obtain ⟨waited, hwaited, hstop⟩ := s.engine.stop_eq id
  refine ⟨waited, by rw [hstop], fun hdone => ?_⟩
  have hbegin := s.reaches_step .proceed
  rw [step, proceed, h] at hbegin
  have hend := reaches_step { s with engine := waited, phase := .awaiting id todo } .proceed
  simp only [step, proceed, hdone, if_true] at hend
  rw [hstop]
  exact (hbegin.trans (hwaited.works _ rfl)).trans hend

end Scene

end StatRollup
