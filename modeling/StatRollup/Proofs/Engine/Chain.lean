import StatRollup.Proofs.Engine.Accounts

/-!
# Starting and stopping all processors

A `Chain` is a plant whose processors are only started and stopped all together.  A start goes
through them from the last one to the first and a stop from the first one to the last, and neither
begins before the other is over.  Each is cut into the steps that others can see: a processor first
says that it is starting, then it has workers, and then it says that it runs; it says that it is
stopping while it still takes messages, then it takes none, and it is stopped when its workers are
over.  All other moves of the plant happen in between.

The processors that take messages are always an end of the list of all processors, up to one that
is just being started or stopped (`Stage.Fits`, `run_linked`).  The next coarser processor of one in
such an end is in it as well (`mem_of_coarser`), and so workers always find it running
(`Linked.next_runs`).
-/

namespace StatRollup

variable {σ : Type} [Uid.Store σ]

/-! ## Stages -/

/-- How far a start or a stop of all processors has got. -/
inductive Stage where
  /-- None is under way. -/
  | steady
  /-- Processors are left to start. -/
  | starting (todo : List ProcessorId)
  /-- A processor says that it is starting, and others are left. -/
  | announced (id : ProcessorId) (todo : List ProcessorId)
  /-- Its workers take messages, and it does not yet say that it runs. -/
  | staffed (id : ProcessorId) (todo : List ProcessorId)
  /-- Processors are left to stop. -/
  | stopping (todo : List ProcessorId)
  /-- A processor says that it is stopping, and still takes messages. -/
  | closing (id : ProcessorId) (todo : List ProcessorId)
  /-- Its workers are told to stop, and then others are left. -/
  | awaiting (id : ProcessorId) (todo : List ProcessorId)

/-- What a processor says that is just being started or stopped. -/
def Stage.state? (id : ProcessorId) : Stage → Option RunState
  | announced i _ => if id = i then some .starting else none
  | staffed i _ => if id = i then some .starting else none
  | closing i _ => if id = i then some .stopping else none
  | _ => none

/-- A plant whose processors are started and stopped all together. -/
structure Chain (σ : Type := Uid.Tables) [Uid.Store σ] where
  /-- The plant. -/
  plant : Plant σ
  /-- Whether it is being started or stopped. -/
  stage : Stage := .steady

namespace Engine

/-- What a processor says about its life. -/
def state (e : Engine σ) (id : ProcessorId) : RunState :=
  ((e.processor? id).map Processor.state).getD .stopped

end Engine

namespace Chain

/-- What can happen next. -/
inductive Move (σ : Type := Uid.Tables) [Uid.Store σ] where
  /-- A call, a worker or the clock goes on. -/
  | work (m : Plant.Move σ)
  /-- Somebody starts all processors. -/
  | start
  /-- Somebody stops all processors. -/
  | stop
  /-- The start or stop under way gets on. -/
  | proceed

/-- What a processor says about its life. -/
def state (c : Chain σ) (id : ProcessorId) : RunState :=
  (c.stage.state? id).getD (c.plant.engine.state id)

/-- The next step of a start or a stop. -/
def proceed (c : Chain σ) : Chain σ :=
  match c.stage with
  | .steady => c
  | .starting [] => { c with stage := .steady }
  | .starting (id :: todo) =>
    if c.plant.engine.state id = .running then { c with stage := .starting todo }
    else { c with stage := .announced id todo }
  | .announced id todo => { plant := c.plant.step (.start id), stage := .staffed id todo }
  | .staffed _ todo => { c with stage := .starting todo }
  | .stopping [] => { c with stage := .steady }
  | .stopping (id :: todo) =>
    if (c.plant.engine.crew? id).isSome then { c with stage := .closing id todo }
    else { plant := c.plant.step (.stop id), stage := .stopping todo }
  | .closing id todo => { plant := c.plant.step (.stop id), stage := .awaiting id todo }
  | .awaiting id todo =>
    if c.plant.engine.isDone id then
      { plant := c.plant.step (.finish id), stage := .stopping todo }
    else c

/-- Begins a start or a stop when none is under way. -/
def begin (c : Chain σ) (stage : Stage) : Chain σ :=
  match c.stage with
  | .steady => { c with stage }
  | _ => c

/-- A move. -/
def step (c : Chain σ) : Move σ → Chain σ
  | .work m => if m.isLifecycle then c else { c with plant := c.plant.step m }
  | .start => c.begin (.starting ProcessorId.all.reverse)
  | .stop => c.begin (.stopping ProcessorId.all)
  | .proceed => c.proceed

/-- Moves one after another. -/
def run (c : Chain σ) (moves : List (Move σ)) : Chain σ := moves.foldl step c

end Chain

/-! ## What starting and stopping a processor changes -/

namespace Engine

variable {e e' : Engine σ} {id j : ProcessorId} {p : Processor}

theorem told?_eq (hp : e.processor? id = some p) : e.told? id = p.crew.map Crew.isStopping := by
  rw [told?, crew?_eq hp]

theorem state_eq (hp : e.processor? id = some p) : e.state id = p.state := by
  rw [state, hp]
  rfl

/-- Two engines in which the same processors are where they are in their lives, up to one. -/
structure Settles (e e' : Engine σ) (id : ProcessorId) (told : Option Bool) (state : RunState) :
    Prop where
  own : e'.told? id = told ∧ e'.state id = state
  others {j : ProcessorId} : j ≠ id → e'.told? j = e.told? j ∧ e'.state j = e.state j

theorem Replaces.settles {p' : Processor} (h : e.Replaces e' id p p') :
    Settles e e' id (p'.crew.map Crew.isStopping) p'.state where
  own := ⟨told?_eq h.own, state_eq h.own⟩
  others {j} hne := by
    rw [told?, told?, h.crew?_other hne, state, state, h.other hne]
    exact ⟨rfl, rfl⟩

theorem settles_start (hp : e.processor? id = some p) (hstate : p.state ≠ .running) :
    Settles e (e.start id) id (some false) .running := (replaces_start hp hstate).settles

theorem settles_beginStop (hp : e.processor? id = some p) :
    Settles e (e.beginStop id) id ((e.told? id).map fun _ => true)
      (if (e.told? id).isSome then .stopping else .stopped) := by
  have h := (replaces_beginStop hp).settles
  rw [beginStop_eq] at h
  rw [told?_eq hp]
  cases hc : p.crew with
  | none => simpa [hc] using h
  | some c => simpa [hc] using h

theorem settles_endStop (hp : e.processor? id = some p) :
    Settles e (e.endStop id).2 id none .stopped := by
  have h := (replaces_endStop hp).settles
  rwa [endStop_eq] at h

/-- Work leaves all processors where they are. -/
theorem Frame.settled (h : Frame e e') (id : ProcessorId) :
    e'.told? id = e.told? id ∧ e'.state id = e.state id := by
  have hcrew := congrArg (Option.map Prod.snd) (h.crew id)
  have hprocessor := congrArg (Option.map fun x => x.2.2) (h.processor id)
  rw [Option.map_map, Option.map_map] at hcrew hprocessor
  exact ⟨hcrew, congrArg (·.getD .stopped) hprocessor⟩

end Engine

/-! ## Ends of the list of processors -/

namespace ProcessorId

variable {before after : List ProcessorId} {id j mid : ProcessorId}

/-- An end of the list of all processors has the next coarser one of every processor in it. -/
theorem mem_of_coarser (h : all = before ++ after) (hid : id ∈ after) (hj : id.coarser? = some j) :
    j ∈ after := by
  have hends : ∀ n : Fin 9, ∀ i ∈ all.drop n, ∀ k ∈ i.coarser?, k ∈ all.drop n := by decide
  have hlength : before.length < 9 := by
    have heq := congrArg List.length h
    rw [List.length_append, show all.length = 8 from rfl] at heq
    omega
  have hafter : all.drop before.length = after := by rw [h, List.drop_left]
  have hmem := hends ⟨before.length, hlength⟩ id
  rw [hafter] at hmem
  exact hmem hid j hj

theorem mem_after_of_coarser (h : all = before ++ mid :: after) (hid : id ∈ mid :: after)
    (hj : id.coarser? = some j) : j ∈ after := by
  rcases List.mem_cons.1 hid with rfl | hid
  · have hmem := mem_of_coarser h List.mem_cons_self hj
    exact (List.mem_cons.1 hmem).resolve_left (Engine.coarser?_ne hj).symm
  · rw [List.append_cons] at h
    exact mem_of_coarser h hid hj

theorem ne_of_mem_after (h : all = before ++ mid :: after) (hj : j ∈ after) : j ≠ mid := by
  have hnodup := h ▸ Engine.ids_nodup
  rintro rfl
  exact (List.nodup_cons.1 (List.nodup_append.1 hnodup).2.1).1 hj

theorem not_mem_of_split (h : all = before ++ mid :: after) : mid ∉ before ∧ mid ∉ after := by
  have hnodup := h ▸ Engine.ids_nodup
  exact ⟨fun hmem => (List.nodup_append.1 hnodup).2.2 mid hmem mid List.mem_cons_self rfl,
    (List.nodup_cons.1 (List.nodup_append.1 hnodup).2.1).1⟩

end ProcessorId

/-! ## Which processors take messages -/

/-- Processors at the beginning of the list have no workers, and those at its end take messages. -/
structure Engine.Cut (e : Engine σ) (before after : List ProcessorId) : Prop where
  split : ProcessorId.all = before ++ after
  down : ∀ i ∈ before, e.told? i = none
  up : ∀ i ∈ after, e.told? i = some false

/-- Which processors take messages at a stage. -/
def Stage.Fits (e : Engine σ) : Stage → Prop
  | steady => e.Cut [] ProcessorId.all ∨ e.Cut ProcessorId.all []
  | starting todo => e.Cut [] ProcessorId.all ∨ ∃ after, e.Cut todo.reverse after
  | announced id todo => ∃ after, e.Cut (todo.reverse ++ [id]) after
  | staffed id todo => ∃ after, e.Cut todo.reverse (id :: after)
  | stopping todo => e.Cut ProcessorId.all [] ∨ ∃ before, e.Cut before todo
  | closing id todo => ∃ before, e.Cut before (id :: todo)
  | awaiting id todo => e.told? id = some true ∧ ∃ before, ProcessorId.all = before ++ id :: todo ∧
    (∀ i ∈ before, e.told? i = none) ∧ ∀ i ∈ todo, e.told? i = some false

namespace Engine

variable {e e' : Engine σ} {id j : ProcessorId} {before after : List ProcessorId}
  {told : Option Bool} {state : RunState}

theorem Cut.congr (h : e.Cut before after) (htold : ∀ id, e'.told? id = e.told? id) :
    e'.Cut before after :=
  ⟨h.split, fun i hi => (htold i).trans (h.down i hi), fun i hi => (htold i).trans (h.up i hi)⟩

theorem Settles.told_of_mem (h : Settles e e' id told state) {l : List ProcessorId}
    {b : Option Bool} (hid : id ∉ l) (hall : ∀ i ∈ l, e.told? i = b) : ∀ i ∈ l, e'.told? i = b := by
  intro i hi
  have hne : i ≠ id := fun heq => hid (heq ▸ hi)
  exact (h.others hne).1.trans (hall i hi)

theorem Settles.idle (h : Settles e e' id told state) (hown : told = none → state = .stopped)
    (hidle : ∀ i, e.told? i = none → e.state i = .stopped) :
    ∀ i, e'.told? i = none → e'.state i = .stopped := by
  intro i hi
  by_cases heq : i = id
  · subst heq
    rw [h.own.1] at hi
    exact h.own.2.trans (hown hi)
  · obtain ⟨htold, hstate⟩ := h.others heq
    exact hstate.trans (hidle i (htold.symm.trans hi))

/-- The last processor without workers starts. -/
theorem Cut.start (h : e.Cut (before ++ [id]) after) (hs : Settles e e' id (some false) state) :
    e'.Cut before (id :: after) := by
  have hsplit : ProcessorId.all = before ++ id :: after := by
    rw [h.split, List.append_assoc]
    rfl
  obtain ⟨hbefore, hafter⟩ := ProcessorId.not_mem_of_split hsplit
  refine ⟨hsplit, hs.told_of_mem hbefore fun i hi => h.down i (List.mem_append_left _ hi), ?_⟩
  exact List.forall_mem_cons.2 ⟨hs.own.1, hs.told_of_mem hafter h.up⟩

/-- The first processor with workers is told to stop. -/
theorem Cut.stop (h : e.Cut before (id :: after)) (hs : Settles e e' id (some true) state) :
    (Stage.awaiting id after).Fits e' := by
  obtain ⟨hbefore, hafter⟩ := ProcessorId.not_mem_of_split h.split
  exact ⟨hs.own.1, before, h.split, hs.told_of_mem hbefore h.down,
    hs.told_of_mem hafter fun i hi => h.up i (List.mem_cons_of_mem _ hi)⟩

end Engine

open Engine in
theorem Stage.Fits.congr {e e' : Engine σ} {stage : Stage} (h : stage.Fits e)
    (htold : ∀ id, e'.told? id = e.told? id) : stage.Fits e' := by
  cases stage with
  | steady => exact h.imp (·.congr htold) (·.congr htold)
  | starting todo => exact h.imp (·.congr htold) (·.imp fun _ h => h.congr htold)
  | announced id todo => exact h.imp fun _ h => h.congr htold
  | staffed id todo => exact h.imp fun _ h => h.congr htold
  | stopping todo => exact h.imp (·.congr htold) (·.imp fun _ h => h.congr htold)
  | closing id todo => exact h.imp fun _ h => h.congr htold
  | awaiting id todo =>
    obtain ⟨hid, before, hsplit, hdown, hup⟩ := h
    exact ⟨(htold id).trans hid, before, hsplit, fun i hi => (htold i).trans (hdown i hi),
      fun i hi => (htold i).trans (hup i hi)⟩

/-- A pipeline that nobody has started. -/
structure Engine.Laid (e : Engine σ) : Prop where
  fresh : e.Fresh
  forward (id : ProcessorId) : e.forward? id = id.coarser?
  found (id : ProcessorId) : ∃ p, e.processor? id = some p
  stopped (id : ProcessorId) : e.state id = .stopped

theorem Engine.laid_pipeline {settings : Settings} {shared : Shared σ} {e : Engine σ}
    (h : pipeline settings shared = .ok e)
    (harranged : ∀ entries, (shared.arrange entries).Perm entries) : e.Laid := by
  have hfresh := fresh_pipeline h harranged
  have heq := eq_of_pipeline h
  subst heq
  let place : ProcessorId → Processor := fun id => { id, settings, forward := id.coarser? }
  let e : Engine σ := { shared, processors := ProcessorId.all.map place }
  have hids : (e.processors.map Processor.id).Nodup := by
    rw [List.map_map]
    exact ids_nodup
  have hfound : ∀ id : ProcessorId, ∃ p, e.processor? id = some p := fun id =>
    ⟨place id, processor?_of_mem hids (List.mem_map_of_mem (ProcessorId.mem_all id))⟩
  have hplaced : ∀ id, ∃ i, e.processor? id = some (place i) ∧ i = id := by
    intro id
    obtain ⟨p, hp⟩ := hfound id
    obtain ⟨i, _, rfl⟩ := List.mem_map.1 (mem_of_processor? hp)
    exact ⟨i, hp, id_of_processor? hp⟩
  refine ⟨hfresh, fun id => ?_, hfound, fun id => ?_⟩
  · obtain ⟨i, hp, rfl⟩ := hplaced id
    rw [forward?, hp]
    rfl
  · obtain ⟨i, hp, rfl⟩ := hplaced id
    rw [state_eq hp]

namespace Chain

variable {first : Engine σ} {c : Chain σ} {id j : ProcessorId}

/-- The processors that take messages are at the end of the list, as the stage says. -/
structure Linked (first : Engine σ) (c : Chain σ) : Prop where
  sound : c.plant.Sound first
  idle (id : ProcessorId) : c.plant.engine.told? id = none → c.plant.engine.state id = .stopped
  stage : c.stage.Fits c.plant.engine

theorem Linked.found (h : c.Linked first) (hlaid : first.Laid) (id : ProcessorId) :
    ∃ p, c.plant.engine.processor? id = some p := by
  obtain ⟨p, hp⟩ := hlaid.found id
  have hsame := h.sound.engine.partitioner id
  rw [Engine.partitioner?, Engine.partitioner?, hp] at hsame
  obtain ⟨q, hq, _⟩ := Option.map_eq_some_iff.1 hsame
  exact ⟨q, hq⟩

/-- A processor that takes messages runs. -/
theorem Linked.runs (h : c.Linked first) (hup : c.plant.engine.told? id = some false) :
    c.plant.engine.state id = .running ∧ (c.plant.engine.openCrew? id).isSome = true := by
  obtain ⟨crew, hc, hgo⟩ := Option.map_eq_some_iff.1 hup
  obtain ⟨p, hp, hcrew⟩ := Option.bind_eq_some_iff.1 hc
  refine ⟨(Engine.state_eq hp).trans (h.sound.engine.running hp hcrew hgo), ?_⟩
  rw [Engine.openCrew?, hp, Option.bind_some, Processor.openCrew?, hcrew, Option.filter, hgo]
  rfl

theorem isStopping_eq (s : Plant σ) (id : ProcessorId) :
    s.isStopping id = (s.engine.told? id).getD false := by
  rw [Plant.isStopping, Engine.told?]
  cases s.engine.crew? id <;> rfl

theorem step_start {s : Plant σ} (h : s.engine.told? id = none) :
    s.step (.start id) = { s with engine := s.engine.start id } := by
  rw [Plant.step, isStopping_eq, h]
  rfl

theorem step_stop {s : Plant σ} (h : s.engine.told? id ≠ some true) :
    s.step (.stop id) = { s with engine := s.engine.beginStop id } := by
  have hnot : s.isStopping id = false := by
    rw [isStopping_eq]
    cases htold : s.engine.told? id with
    | none => rfl
    | some b => simpa [htold] using h
  rw [Plant.step, hnot]
  rfl

theorem step_finish {s : Plant σ} (h : s.engine.told? id = some true)
    (hdone : s.engine.isDone id = true) :
    s.step (.finish id) = { s with engine := (s.engine.endStop id).2 } := by
  rw [Plant.step, isStopping_eq, h, hdone]
  rfl

theorem begin_linked (h : c.Linked first) (stage : Stage)
    (hbegin : Stage.steady.Fits c.plant.engine → stage.Fits c.plant.engine) :
    (c.begin stage).Linked first := by
  rw [begin]
  split
  · next hsteady => exact ⟨h.sound, h.idle, hbegin (hsteady ▸ h.stage)⟩
  · exact h

/-- A processor that is told something is where that leaves it. -/
theorem Linked.told (h : c.Linked first) (hforward : ∀ id, first.forward? id ≠ some id)
    {m : Plant.Move σ} {e : Engine σ} {told : Option Bool} {state : RunState} {stage : Stage}
    (hm : c.plant.step m = { c.plant with engine := e })
    (hs : c.plant.engine.Settles e id told state) (hown : told = none → state = .stopped)
    (hstage : stage.Fits e) : Linked first { plant := c.plant.step m, stage } where
  sound := Plant.step_sound h.sound hforward m
  idle := by
    rw [hm]
    exact hs.idle hown h.idle
  stage := by
    rw [hm]
    exact hstage

section

variable {todo : List ProcessorId} (hlaid : first.Laid) (h : c.Linked first)
include hlaid h

/-- A processor that says that it is starting has no workers yet. -/
theorem Linked.announced (hnow : c.stage = .announced id todo) :
    c.plant.engine.told? id = none ∧ ∃ p, c.plant.engine.processor? id = some p ∧
      p.crew = none ∧ p.state ≠ .running := by
  have hfits := h.stage
  rw [hnow] at hfits
  obtain ⟨after, hcut⟩ := hfits
  have hdown : c.plant.engine.told? id = none :=
    hcut.down id (List.mem_append_right _ (List.mem_singleton_self id))
  obtain ⟨p, hp⟩ := h.found hlaid id
  refine ⟨hdown, p, hp, ?_, fun hrunning => ?_⟩
  · rw [Engine.told?_eq hp] at hdown
    exact Option.map_eq_none_iff.1 hdown
  · rw [← Engine.state_eq hp, h.idle id hdown] at hrunning
    cases hrunning

/-- A processor that says that it is starting gets workers. -/
theorem announced_linked (hnow : c.stage = .announced id todo) :
    Linked first { plant := c.plant.step (.start id), stage := .staffed id todo } := by
  have hfits := h.stage
  rw [hnow] at hfits
  obtain ⟨after, hcut⟩ := hfits
  obtain ⟨hdown, p, hp, _, hstopped⟩ := Linked.announced hlaid h hnow
  have hs := Engine.settles_start hp hstopped
  exact h.told hlaid.fresh.forward (step_start hdown) hs
    (fun hnone => absurd hnone (Option.some_ne_none _)) ⟨after, hcut.start hs⟩

/-- A processor without workers is passed over. -/
theorem stopping_linked (hnow : c.stage = .stopping (id :: todo))
    (hdown : c.plant.engine.told? id = none) :
    Linked first { plant := c.plant.step (.stop id), stage := .stopping todo } := by
  have hfits := h.stage
  rw [hnow] at hfits
  obtain ⟨p, hp⟩ := h.found hlaid id
  have hs := Engine.settles_beginStop hp
  rw [hdown] at hs
  have hstop : c.plant.step (.stop id) = _ := step_stop (by simp [hdown])
  refine h.told hlaid.fresh.forward hstop hs (fun _ => rfl) ?_
  obtain hcut | ⟨before, hcut⟩ := hfits
  · refine .inl (hcut.congr fun i => ?_)
    by_cases heq : i = id
    · rw [heq, hdown]
      exact hs.own.1
    · exact (hs.others heq).1
  · rw [hcut.up id List.mem_cons_self] at hdown
    cases hdown

/-- A processor that says that it is stopping takes no more messages. -/
theorem closing_linked (hnow : c.stage = .closing id todo) :
    Linked first { plant := c.plant.step (.stop id), stage := .awaiting id todo } := by
  have hfits := h.stage
  rw [hnow] at hfits
  obtain ⟨before, hcut⟩ := hfits
  have hup := hcut.up id List.mem_cons_self
  obtain ⟨p, hp⟩ := h.found hlaid id
  have hs := Engine.settles_beginStop hp
  rw [hup] at hs
  have hstop : c.plant.step (.stop id) = _ := step_stop (by simp [hup])
  exact h.told hlaid.fresh.forward hstop hs
    (fun hnone => absurd hnone (Option.some_ne_none _)) (hcut.stop hs)

/-- A processor whose workers are over is stopped. -/
theorem awaiting_linked (hnow : c.stage = .awaiting id todo)
    (hdone : c.plant.engine.isDone id = true) :
    Linked first { plant := c.plant.step (.finish id), stage := .stopping todo } := by
  have hfits := h.stage
  rw [hnow] at hfits
  obtain ⟨htold, before, hsplit, hdown, hup⟩ := hfits
  obtain ⟨p, hp⟩ := h.found hlaid id
  have hs := Engine.settles_endStop hp
  obtain ⟨hbefore, hafter⟩ := ProcessorId.not_mem_of_split hsplit
  refine h.told hlaid.fresh.forward (step_finish htold hdone) hs (fun _ => rfl)
    (.inr ⟨before ++ [id], ?_, ?_, ?_⟩)
  · rw [List.append_assoc]
    exact hsplit
  · intro i hi
    rcases List.mem_append.1 hi with hi | hi
    · exact hs.told_of_mem hbefore hdown i hi
    · exact List.mem_singleton.1 hi ▸ hs.own.1
  · exact hs.told_of_mem hafter hup

theorem proceed_linked : c.proceed.Linked first := by
  have hfits := h.stage
  rw [proceed]
  split
  · exact h
  · next hnow =>
    rw [hnow] at hfits
    refine ⟨h.sound, h.idle, .inl ?_⟩
    obtain hcut | ⟨after, hcut⟩ := hfits
    · exact hcut
    · have hall : after = ProcessorId.all := hcut.split.symm
      exact hall ▸ hcut
  · next id todo hnow =>
    rw [hnow] at hfits
    split
    · next hrunning =>
      refine ⟨h.sound, h.idle, hfits.imp_right ?_⟩
      rintro ⟨after, hcut⟩
      have hdown := hcut.down id (List.mem_reverse.2 List.mem_cons_self)
      rw [h.idle id hdown] at hrunning
      cases hrunning
    · next hnot =>
      obtain hcut | ⟨after, hcut⟩ := hfits
      · exact absurd (h.runs (hcut.up id (ProcessorId.mem_all id))).1 hnot
      · rw [List.reverse_cons] at hcut
        exact ⟨h.sound, h.idle, after, hcut⟩
  · next hnow => exact announced_linked hlaid h hnow
  · next id todo hnow =>
    rw [hnow] at hfits
    obtain ⟨after, hcut⟩ := hfits
    exact ⟨h.sound, h.idle, .inr ⟨id :: after, hcut⟩⟩
  · next hnow =>
    rw [hnow] at hfits
    refine ⟨h.sound, h.idle, .inr ?_⟩
    obtain hcut | ⟨before, hcut⟩ := hfits
    · exact hcut
    · have hall : before = ProcessorId.all := by rw [hcut.split, List.append_nil]
      exact hall ▸ hcut
  · next id todo hnow =>
    split
    · next hcrew =>
      rw [hnow] at hfits
      obtain ⟨crew, hc⟩ := Option.isSome_iff_exists.1 hcrew
      obtain hcut | ⟨before, hcut⟩ := hfits
      · have hdown := hcut.down id (ProcessorId.mem_all id)
        rw [Engine.told?, hc] at hdown
        cases hdown
      · exact ⟨h.sound, h.idle, before, hcut⟩
    · next hcrew =>
      refine stopping_linked hlaid h hnow ?_
      rw [Engine.told?, Option.not_isSome_iff_eq_none.1 hcrew]
      rfl
  · next hnow => exact closing_linked hlaid h hnow
  · next hnow =>
    split
    · next hdone => exact awaiting_linked hlaid h hnow hdone
    · exact h

end

theorem step_linked (hlaid : first.Laid) (h : c.Linked first) (m : Move σ) :
    (c.step m).Linked first := by
  cases m with
  | work m =>
    rw [step]
    split
    · exact h
    · next hm =>
      have hframe := h.sound.frame_step (m := m) (by simpa using hm)
      refine ⟨Plant.step_sound h.sound hlaid.fresh.forward m, fun id hid => ?_,
        h.stage.congr fun id => (hframe.settled id).1⟩
      obtain ⟨htold, hstate⟩ := hframe.settled id
      exact hstate.trans (h.idle id (htold.symm.trans hid))
  | start =>
    refine begin_linked h _ fun hsteady => hsteady.imp_right fun hcut => ⟨[], ?_⟩
    rw [List.reverse_reverse]
    exact hcut
  | stop => exact begin_linked h _ fun hsteady => hsteady.symm.imp_right fun hcut => ⟨[], hcut⟩
  | proceed => exact proceed_linked hlaid h

theorem run_linked (hlaid : first.Laid) (h : c.Linked first) (moves : List (Move σ)) :
    (c.run moves).Linked first := by
  induction moves generalizing c with
  | nil => exact h
  | cons m moves ih => exact ih (step_linked hlaid h m)

/-- In a run from the beginning. -/
theorem linked_of_laid (hlaid : first.Laid) (moves : List (Move σ)) :
    (run { plant := { engine := first } } moves).Linked first := by
  have hdown : ∀ id, first.told? id = none := fun id => by
    rw [Engine.told?, hlaid.fresh.idle]
    rfl
  refine run_linked hlaid
    ⟨Plant.sound_of_fresh hlaid.fresh [], fun id _ => hlaid.stopped id, ?_⟩ moves
  exact .inr ⟨(List.append_nil _).symm, fun i _ => hdown i, fun i hi => absurd hi List.not_mem_nil⟩

/-! ## The next processor -/

/-- The next coarser one of a processor that is not stopped, or still has workers, runs and takes
messages. -/
theorem Linked.next_runs (h : c.Linked first) (hj : id.coarser? = some j)
    (halive : c.state id ≠ .stopped ∨ (c.plant.engine.crew? id).isSome = true) :
    c.state j = .running ∧ (c.plant.engine.openCrew? j).isSome = true := by
  -- It is enough that it takes messages and is not the one that is being started or stopped.
  suffices hup : c.plant.engine.told? j = some false ∧ c.stage.state? j = none by
    rw [state, hup.2]
    exact h.runs hup.1
  have hdead : c.stage.state? id = none → c.plant.engine.told? id ≠ none := by
    intro hnone hdown
    rw [state, hnone, Option.getD_none, h.idle id hdown] at halive
    rw [Engine.told?, Option.map_eq_none_iff] at hdown
    rw [hdown] at halive
    simp at halive
  have hfits := h.stage
  have hmem := ProcessorId.mem_all id
  have hcut : ∀ {before after}, c.plant.engine.Cut before after → c.stage.state? id = none →
      id ∈ after ∧ c.plant.engine.told? j = some false := by
    intro before after hcut hid
    rw [hcut.split] at hmem
    have hafter : id ∈ after :=
      (List.mem_append.1 hmem).resolve_left fun hbefore => hdead hid (hcut.down id hbefore)
    exact ⟨hafter, hcut.up j (ProcessorId.mem_of_coarser hcut.split hafter hj)⟩
  generalize c.stage = stage at hdead hfits hcut
  cases stage with
  | steady =>
    obtain h | h := hfits
    · exact ⟨(hcut h rfl).2, rfl⟩
    · exact ⟨(hcut h rfl).2, rfl⟩
  | starting todo =>
    obtain h | ⟨_, h⟩ := hfits
    · exact ⟨(hcut h rfl).2, rfl⟩
    · exact ⟨(hcut h rfl).2, rfl⟩
  | stopping todo =>
    obtain h | ⟨_, h⟩ := hfits
    · exact ⟨(hcut h rfl).2, rfl⟩
    · exact ⟨(hcut h rfl).2, rfl⟩
  | announced mid todo =>
    obtain ⟨after, h⟩ := hfits
    have hsplit : ProcessorId.all = todo.reverse ++ mid :: after := by
      rw [h.split, List.append_assoc]
      rfl
    have hj' : j ∈ after := by
      by_cases heq : id = mid
      · exact ProcessorId.mem_after_of_coarser hsplit (heq ▸ List.mem_cons_self) hj
      · have hafter := (hcut h (if_neg heq)).1
        exact ProcessorId.mem_after_of_coarser hsplit (List.mem_cons_of_mem _ hafter) hj
    exact ⟨h.up j hj', if_neg (ProcessorId.ne_of_mem_after hsplit hj')⟩
  | staffed mid todo =>
    obtain ⟨after, h⟩ := hfits
    have hid : id ∈ mid :: after := by
      by_cases heq : id = mid
      · exact heq ▸ List.mem_cons_self
      · exact (hcut h (if_neg heq)).1
    have hj' := ProcessorId.mem_after_of_coarser h.split hid hj
    exact ⟨h.up j (List.mem_cons_of_mem _ hj'), if_neg (ProcessorId.ne_of_mem_after h.split hj')⟩
  | closing mid todo =>
    obtain ⟨before, h⟩ := hfits
    have hid : id ∈ mid :: todo := by
      by_cases heq : id = mid
      · exact heq ▸ List.mem_cons_self
      · exact (hcut h (if_neg heq)).1
    have hj' := ProcessorId.mem_after_of_coarser h.split hid hj
    exact ⟨h.up j (List.mem_cons_of_mem _ hj'), if_neg (ProcessorId.ne_of_mem_after h.split hj')⟩
  | awaiting mid todo =>
    obtain ⟨_, before, hsplit, hdown, hup⟩ := hfits
    rw [hsplit] at hmem
    have hid : id ∈ mid :: todo :=
      (List.mem_append.1 hmem).resolve_left fun hbefore => hdead rfl (hdown id hbefore)
    exact ⟨hup j (ProcessorId.mem_after_of_coarser hsplit hid hj), rfl⟩

end Chain

end StatRollup
